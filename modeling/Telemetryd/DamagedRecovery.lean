import Mathlib.Data.Finset.Preimage
import Mathlib.Data.Fintype.EquivFin
import Telemetryd.DamagedRefresh

/-!
# Whether a damaged state file stops the daemon

The daemon recovers from a state file when the registry can be constructed, its
rules and sessions are in order, what was well formed is kept, and the next
refresh returns whatever processes there are.

It does from a file that it cannot read or that is no JSON.  From a document it
does when the shapes that nothing checks are in order; there is one clause for
each place where another shape surfaces: the loops of `_load`, a rule that is
tried, the two indexes of the sessions, the sort, and the save of a new session.
-/

namespace Telemetryd

open PyText TwoIndexes

/-! ### What is well formed -/

/-- The value is null. -/
def isNull : JsonValue → Bool
  | .null => true
  | _ => false

/-- The value is a string. -/
def isText (v : JsonValue) : Bool := v.str?.isSome

/-- The value is an integer. -/
def isInt : JsonValue → Bool
  | .int _ => true
  | _ => false

/-- The value is an array. -/
def isArr : JsonValue → Bool
  | .arr _ => true
  | _ => false

/-- The value is an array of strings. -/
def isTexts : JsonValue → Bool
  | .arr vs => vs.all isText
  | _ => false

/-- A rule with a valid kind, a text for a value and perhaps an adapter. -/
def wellFormedRule (entry : JsonValue) : Bool :=
  match entry.fields? with
  | none => false
  | some fields =>
      (validKind fields).isSome && (fieldOf fields "value").any isText &&
        (fieldOf fields "adapter").all (fun v => isNull v || isText v)

/-- The fields of `Session`: whether one has no default, and what is of its
type. -/
def sessionFieldTypes : List (String × Bool × (JsonValue → Bool)) :=
  [("session_id", true, isText),
    ("pid", true, isInt),
    ("comm", true, isText),
    ("cmdline", true, isText),
    ("exe_path", false, isText),
    ("adapter", false, isText),
    ("status", false, isText),
    ("start_time_ns", false, isInt),
    ("session_start_ns", false, isInt),
    ("session_end_ns", false, fun v => isNull v || isInt v),
    ("devices", false, isTexts),
    ("thread_count_active", false, isInt),
    ("aggregate", false, fun v => isNull v || v.fields?.isSome),
    ("logical_groups", false, isArr),
    ("matched_rule", false, fun v => isNull v || isText v)]

/-- A session with all fields that have no default and each field of its
type. -/
def wellFormedSession (entry : JsonValue) : Bool :=
  match entry.fields? with
  | none => false
  | some fields => sessionFieldTypes.all (fun f =>
      match fieldOf fields f.1 with
      | some v => f.2.2 v
      | none => !f.2.1)

/-- The entries of a document under a name. -/
def StateContent.entries (content : StateContent) (name : String) :
    List JsonValue :=
  match content with
  | .document d => (d.fields?.bind (fun fields => listed fields name)).getD []
  | _ => []

/-! ### What recovering is -/

/-- The identity map: each session is under its own id, and found by its
identity, and each identity leads to a session that has it. -/
structure LooseRegistry.IdentityMap (r : LooseRegistry) : Prop where
  keyed : ∀ sid s, r.sessions.get? sid = some s → s.sessionId.key? = some sid
  inverse : Inverse LooseSession.identity? r.sessions r.byIdentity

/-- What the registry constructed on a file should be like. -/
structure LooseRegistry.Recovered (env : Surroundings) (content : StateContent)
    (r : LooseRegistry) : Prop where
  typed : ∀ rule ∈ r.rules, rule.kind.valid = true ∧ ∃ t, rule.value = .str t
  identities : r.IdentityMap
  keepsRules :
    List.Sublist
    (((content.entries "rules").filter wellFormedRule).filterMap ruleOf) r.rules
  keepsSessions : ∀ entry ∈ content.entries "sessions",
    wellFormedSession entry = true →
    ∃ e, sessionOf entry = some e ∧ r.sessions.get? e.1 = some e.2
  refreshes : ∀ clock processes stats, ∃ r',
    r.refresh env clock processes stats = .ok r'

/-- From a file with this content the registry loads, refreshes and saves. -/
def Recovers (env : Surroundings) (maxFinished : Nat) (content : StateContent) :
    Prop :=
  ∃ r, LooseRegistry.load maxFinished content = .ok r ∧ r.Recovered env content

/-! ### When the daemon recovers -/

/-- A rule whose pattern makes the engine raise. -/
def LooseRule.Trips (env : Surroundings) (rule : LooseRule) : Prop :=
  (rule.kind = .namePattern ∨ rule.kind = .cmdlinePattern) ∧
    ∃ t e, rule.value = .str t ∧ env.reCompile t = .error e

/-- What the entries must be like. -/
structure SoundEntries (env : Surroundings) (maxFinished : Nat)
    (rules sessions : List JsonValue) :
    Prop where
  /-- A rule is an object, and one of a valid kind has a text for a value. -/
  typed : ∀ entry ∈ rules, ∃ fields, entry.fields? = some fields ∧
    ((validKind fields).isSome → ∃ t, fieldOf fields "value" = some (.str t))
  /-- A session is an object. -/
  objects : ∀ entry ∈ sessions, entry.fields?.isSome = true
  /-- The session that counts for an id has a pid and a start that can be keys,
  and was first seen at a number. -/
  keyed : ∀ a, LastByKey (sessionsOf sessions) a → a.2.identity?.isSome = true
  timed : ∀ a, LastByKey (sessionsOf sessions) a →
    a.2.sessionStartNs.neg?.isSome = true
  /-- Those that count for ids and for identities are the same. -/
  agree : ∀ a b, LastByKey (sessionsOf sessions) a →
    LastByIndex LooseSession.identity? (sessionsOf sessions) b →
    (a.1 = b.1 ↔ a.2.identity? = b.2.identity?)
  /-- A well formed session is not overwritten by another one. -/
  last : ∀ entry ∈ sessions, wellFormedSession entry = true →
    ∀ e, sessionOf entry = some e → LastByKey (sessionsOf sessions) e
  /-- No process gets to a pattern that makes the engine raise. -/
  guarded : ∀ before rule after, rules.filterMap ruleOf =
    before ++ rule :: after →
    rule.Trips env → ∀ proc, ∃ earlier ∈ before,
      earlier.ruleMatches env proc = .ok true
  /-- What is saved with a first session can be written. -/
  savable : (∃ proc, ∃ rule ∈ rules.filterMap ruleOf,
    rule.ruleMatches env proc = .ok true) →
    (∀ rule ∈ rules.filterMap ruleOf, rule.Savable env) ∧
      ∀ s ∈ recent maxFinished (byKey (sessionsOf sessions)).values,
        s.Savable env

/-- What the content of the file must be like. -/
def SoundContent (env : Surroundings) (maxFinished : Nat) : StateContent → Prop
  | .unreadable => True
  | .malformed => True
  | .tooDeep => False
  | .document d => ∃ fields rules sessions, d.fields? = some fields ∧
      listed fields "rules" = some rules ∧
        listed fields "sessions" = some sessions ∧
      SoundEntries env maxFinished rules sessions

/-! ### The entries -/

theorem validKind_valid {fields : JsonFields} {kind : RuleKind}
    (h : validKind fields = some kind) :
    kind.valid = true := by
  unfold validKind at h
  simp only [Option.bind_eq_bind, Option.bind_eq_some_iff] at h
  obtain ⟨_, -, _, -, t, -, h⟩ := h
  split at h
  case isTrue hvalid =>
    obtain rfl := Option.some.inj h
    exact hvalid
  case isFalse => cases h

theorem ruleOf_eq_some {entry : JsonValue} {rule : LooseRule} :
    ruleOf entry = some rule ↔
    ∃ fields, entry.fields? = some fields ∧ validKind fields = some rule.kind ∧
      fieldOf fields "value" = some rule.value ∧
      (fieldOf fields "adapter").getD .null = rule.adapter := by
  unfold ruleOf
  simp only [Option.bind_eq_bind, Option.bind_eq_some_iff]
  constructor
  · intro h
    obtain ⟨fields, hfields, kind, hkind, value, hvalue, h⟩ := h
    obtain rfl := Option.some.inj h
    exact ⟨fields, hfields, hkind, hvalue, rfl⟩
  · intro h
    obtain ⟨fields, hfields, hkind, hvalue, hadapter⟩ := h
    exact ⟨fields, hfields, rule.kind, hkind, rule.value,
      hvalue, by rw [hadapter]; rfl⟩

theorem sessionOf_eq_some {entry : JsonValue} {e : JsonValue.Key × LooseSession}
    (h : sessionOf entry = some e) :
    e.2.sessionId.key? = some e.1 ∧ e.2.status = .finished := by
  unfold sessionOf at h
  simp only [Option.bind_eq_bind, Option.bind_eq_some_iff] at h
  obtain ⟨fields, -, sess, hsess, sid, hsid, h⟩ := h
  obtain rfl := Option.some.inj h
  unfold LooseSession.ofFields at hsess
  simp only [Option.bind_eq_bind, Option.bind_eq_some_iff] at hsess
  obtain ⟨_, -, _, -, _, -, _, -, hsess⟩ := hsess
  obtain rfl := Option.some.inj hsess
  exact ⟨hsid, rfl⟩

/-- A well formed entry is a session. -/
theorem exists_sessionOf {entry : JsonValue}
    (h : wellFormedSession entry = true) :
    ∃ e, sessionOf entry = some e := by
  unfold wellFormedSession at h
  split at h
  case h_1 => cases h
  case h_2 fields hfields =>
    have hrequired : ∀ name check, (name, true, check) ∈ sessionFieldTypes →
        ∃ v, fieldOf fields name = some v ∧ check v = true := by
      intro name check hmem
      have hfield := List.all_eq_true.mp h _ hmem
      dsimp only at hfield
      split at hfield
      case h_1 v hv => exact ⟨v, hv, hfield⟩
      case h_2 => cases hfield
    obtain ⟨sid, hsid, htext⟩ :=
      hrequired "session_id" isText (by simp [sessionFieldTypes])
    obtain ⟨pid, hpid, -⟩ := hrequired "pid" isInt (by simp [sessionFieldTypes])
    obtain ⟨comm, hcomm, -⟩ :=
      hrequired "comm" isText (by simp [sessionFieldTypes])
    obtain ⟨cmdline, hcmdline, -⟩ :=
      hrequired "cmdline" isText (by simp [sessionFieldTypes])
    obtain ⟨t, ht⟩ := Option.isSome_iff_exists.mp htext
    have hkey : ∃ k, sid.key? = some k := by
      cases sid with
      | str u => exact ⟨_, rfl⟩
      | _ => cases ht
    obtain ⟨k, hk⟩ := hkey
    simp [sessionOf, hfields, LooseSession.ofFields, hsid, hpid, hcomm,
      hcmdline, hk]

section

variable {env : Surroundings} {m : Nat} {rules sessions : List JsonValue}

/-- The sessions of a registry that has been read. -/
theorem get?_registryOf {sid : JsonValue.Key} {s : LooseSession}
    (h : (registryOf m rules sessions).sessions.get? sid = some s) :
    LastByKey (sessionsOf sessions) (sid, s) ∧ s.sessionId.key? = some sid ∧
      s.status = .finished := by
  have hlast : LastByKey (sessionsOf sessions) (sid, s) := get?_byKey.mp h
  obtain ⟨entry, -, hentry⟩ := List.mem_filterMap.mp hlast.mem
  exact ⟨hlast, sessionOf_eq_some hentry⟩

/-- A clause about the sessions in memory is one about the last entry of each
id. -/
theorem forall_values_iff (P : LooseSession → Prop) :
    (∀ s ∈ (registryOf m rules sessions).sessions.values, P s) ↔
      ∀ a, LastByKey (sessionsOf sessions) a → P a.2 := by
  constructor
  · intro h a ha
    exact h a.2 (OrderedDict.mem_values_iff.mpr ⟨a.1, get?_byKey.mpr ha⟩)
  · intro h s hs
    obtain ⟨sid, hsid⟩ := OrderedDict.mem_values_iff.mp hs
    exact h (sid, s) (get?_byKey.mp hsid)

/-- **The identity map** of a registry that has been read. -/
theorem identityMap_iff : (registryOf m rules sessions).IdentityMap ↔
    (∀ a, LastByKey (sessionsOf sessions) a → a.2.identity?.isSome = true) ∧
      ∀ a b, LastByKey (sessionsOf sessions) a →
        LastByIndex LooseSession.identity? (sessionsOf sessions) b →
        (a.1 = b.1 ↔ a.2.identity? = b.2.identity?) := by
  rw [← inverse_iff]
  exact ⟨fun h => h.inverse, fun h =>
    ⟨fun _ _ hs => (get?_registryOf hs).2.1, h⟩⟩

theorem readable_of_typed
    (h : ∀ entry ∈ rules, ∃ fields, entry.fields? = some fields ∧
    ((validKind fields).isSome → ∃ t, fieldOf fields "value" = some (.str t))) :
    ∀ entry ∈ rules, ReadableRule entry := by
  intro entry hentry
  obtain ⟨fields, hfields, hvalue⟩ := h entry hentry
  refine ⟨fields, hfields, ?_⟩
  intro hkind
  obtain ⟨t, ht⟩ := hvalue hkind
  rw [ht]
  rfl

/-- A value that is a text, where the rule is of a valid kind. -/
theorem typed_iff (hread : ∀ entry ∈ rules, ReadableRule entry) :
    (∀ rule ∈ rules.filterMap ruleOf, rule.kind.valid = true ∧
      ∃ t, rule.value = .str t) ↔
      ∀ entry ∈ rules, ∃ fields, entry.fields? = some fields ∧
        ((validKind fields).isSome →
          ∃ t, fieldOf fields "value" = some (.str t)) := by
  constructor
  · intro h entry hentry
    obtain ⟨fields, hfields, hvalue⟩ := hread entry hentry
    refine ⟨fields, hfields, ?_⟩
    intro hvalid
    obtain ⟨kind, hkind⟩ := Option.isSome_iff_exists.mp hvalid
    obtain ⟨value, hv⟩ := Option.isSome_iff_exists.mp (hvalue hvalid)
    have hrule :
        ruleOf entry =
        some ⟨kind, value, (fieldOf fields "adapter").getD .null⟩ :=
      ruleOf_eq_some.mpr ⟨fields, hfields, hkind, hv, rfl⟩
    obtain ⟨t, ht⟩ := (h _ (List.mem_filterMap.mpr ⟨entry, hentry, hrule⟩)).2
    exact ⟨t, hv.trans (congrArg some ht)⟩
  · intro h rule hrule
    obtain ⟨entry, hentry, hrule⟩ := List.mem_filterMap.mp hrule
    obtain ⟨fields, hfields, hkind, hvalue, -⟩ := ruleOf_eq_some.mp hrule
    obtain ⟨fields', hfields', htyped⟩ := h entry hentry
    obtain rfl := Option.some.inj (hfields.symm.trans hfields')
    obtain ⟨t, ht⟩ := htyped (by rw [hkind]; rfl)
    exact ⟨validKind_valid hkind, t, Option.some.inj (hvalue.symm.trans ht)⟩

end

/-! ### One refresh -/

section

variable {env : Surroundings} {clock : Clock} {processes : List ProcessInfo}
  {stats : List ProcessIoStat} {r : LooseRegistry}

theorem refresh_eq_ok {out : LooseRegistry} :
    r.refresh env clock processes stats = .ok out ↔
    ∃ hits acc, LooseRule.resolve env r.rules processes = .ok hits ∧
      (hits.items.insertionSort (fun a b => a.1 ≤ b.1)).foldlM
        (LooseRegistry.refreshTarget env clock (indexByPid processes) stats)
          (r, []) = .ok acc ∧
      acc.1.finishVanished env clock.timeNs acc.2 = .ok out ∧
      (∃ pids, out.sessionPids = .ok pids) ∧
        ∃ keys, out.sortKeys = .ok keys := by
  unfold LooseRegistry.refresh
  simp only [Fallible.bind_eq_ok]
  constructor
  · intro h
    obtain ⟨hits, hhits, acc, hacc, last, hlast, pids, hpids, keys, hkeys,
      heq⟩ := h
    obtain rfl := Except.ok.inj heq
    exact ⟨hits, acc, hhits, hacc, hlast, ⟨pids, hpids⟩, keys, hkeys⟩
  · intro h
    obtain ⟨hits, acc, hhits, hacc, hlast, ⟨pids, hpids⟩, keys, hkeys⟩ := h
    exact ⟨hits, hhits, acc, hacc, out, hlast, pids, hpids, keys, hkeys, rfl⟩

/-- A rule of a valid kind with a text for a value raises where its pattern
makes the engine raise. -/
theorem error_iff_trips {rule : LooseRule} {proc : ProcessInfo}
    (h : rule.kind.valid = true ∧ ∃ t, rule.value = .str t) :
    (∃ e, rule.ruleMatches env proc = .error e) ↔ rule.Trips env := by
  obtain ⟨hvalid, t, ht⟩ := h
  have hstr : ∀ e, orRaise e rule.value.str? = .ok t :=
    fun e => orRaise_eq_ok.mpr (by rw [ht]; rfl)
  have hpattern :
      ∀ (e₀ : RegistryError) (search : Option (PyText → Bool) → Bool),
      (∃ e, (do
        let t ← orRaise e₀ rule.value.str?
        let rx ← env.reCompile t
        return search rx : Except RegistryError Bool) = .error e) ↔
          ∃ e, env.reCompile t = .error e := by
    intro e₀ search
    rw [hstr]
    cases hrx : env.reCompile t with
    | error e =>
        exact ⟨fun _ => ⟨e, rfl⟩, fun _ =>
          ⟨e, by simp [bind, Except.bind, hrx]⟩⟩
    | ok rx => simp [bind, Except.bind, pure, Except.pure, hrx]
  have hvalue : (∃ u e, rule.value = .str u ∧ env.reCompile u = .error e) ↔
      ∃ e, env.reCompile t = .error e := by
    rw [ht]
    constructor
    · intro h
      obtain ⟨u, e, hu, he⟩ := h
      obtain rfl := JsonValue.str.inj hu
      exact ⟨e, he⟩
    · intro h
      obtain ⟨e, he⟩ := h
      exact ⟨t, e, rfl, he⟩
  unfold LooseRule.ruleMatches LooseRule.Trips
  rw [hvalue]
  cases hkind : rule.kind with
  | other t =>
      rw [hkind] at hvalid
      cases hvalid
  | pid => simp
  | name =>
      dsimp only
      rw [hstr]
      simp [bind, Except.bind, pure, Except.pure]
  | namePattern =>
      dsimp only
      rw [hpattern]
      simp
  | cmdlinePattern =>
      dsimp only
      rw [hpattern]
      simp

/-- The start of a process plays no part in the rules. -/
theorem firstRule_start (rules : List LooseRule) (proc : ProcessInfo)
    (n : Int) :
    LooseRule.firstRule env rules { proc with startTimeNs := n }
      = LooseRule.firstRule env rules proc := by
  have hmatches : ∀ rule : LooseRule,
      rule.ruleMatches env { proc with startTimeNs := n }
      = rule.ruleMatches env proc := by
    intro rule
    unfold LooseRule.ruleMatches
    cases rule.kind <;> rfl
  induction rules with
  | nil => rfl
  | cons rule rules ih =>
      unfold LooseRule.firstRule
      rw [hmatches, ih]

/-- A process with this pid that the registry has not met. -/
theorem exists_unmet (r : LooseRegistry) (proc : ProcessInfo) :
    ∃ n, r.byIdentity.get? { proc with startTimeNs := n }.identityKey =
      none := by
  have hinj : Function.Injective (fun n : Int =>
      ({ proc with startTimeNs := n }).identityKey) := by
    intro a b h
    have hkey := JsonValue.Key.num.inj (Prod.mk.inj h).2
    exact_mod_cast hkey
  obtain ⟨n, hn⟩ := Infinite.exists_notMem_finset
    (r.byIdentity.keys.toFinset.preimage _ hinj.injOn)
  refine ⟨n, OrderedDict.get?_eq_none_iff.mpr ?_⟩
  intro hmem
  exact hn (Finset.mem_preimage.mpr (List.mem_toFinset.mpr hmem))

/-- **A process that is met for the first time** has its session saved. -/
theorem save_of_refresh {proc : ProcessInfo} {rule : LooseRule}
    {out : LooseRegistry}
    (hrule : LooseRule.firstRule env r.rules proc = .ok (some rule))
    (hunmet : r.byIdentity.get? proc.identityKey = none)
    (h : r.refresh env clock [proc] stats = .ok out) :
    (r.withSession env clock proc rule).1.save env = .ok () := by
  obtain ⟨hits, acc, hhits, hacc, -⟩ := refresh_eq_ok.mp h
  have hresolve : LooseRule.resolve env r.rules [proc]
      = .ok (OrderedDict.empty.insert proc.pid rule) := by
    unfold LooseRule.resolve
    rw [List.foldlM_cons, hrule]
    rfl
  obtain rfl := Except.ok.inj (hhits.symm.trans hresolve)
  have hitems : (OrderedDict.empty.insert proc.pid rule).items.insertionSort
      (fun a b => a.1 ≤ b.1) = [(proc.pid, rule)] := rfl
  rw [hitems, List.foldlM_cons] at hacc
  obtain ⟨first, hfirst, -⟩ := Fallible.bind_eq_ok.mp hacc
  have hproc : (indexByPid [proc]).get? proc.pid = some proc := by
    unfold indexByPid
    rw [List.map_singleton]
    exact OrderedDict.get?_insert_self _ _ _
  unfold LooseRegistry.refreshTarget at hfirst
  rw [hproc] at hfirst
  obtain ⟨opened, hopened, -⟩ := Fallible.bind_eq_ok.mp hfirst
  unfold LooseRegistry.sessionFor at hopened
  rw [hunmet] at hopened
  unfold LooseRegistry.openSession at hopened
  exact (Fallible.seq_eq_ok.mp hopened).1

end

/-! ### Every refresh -/

section

variable {env : Surroundings} {m : Nat} {rules sessions : List JsonValue}

/-- Nothing is active in a registry that has been read. -/
theorem closeReused_registryOf (now : Int) (proc : ProcessInfo) :
    LooseRegistry.closeReused now proc (registryOf m rules sessions).sessions
      = (registryOf m rules sessions).sessions := by
  have hitems : (registryOf m rules sessions).sessions.items.map
      (fun e => (e.1,
        if isNumber e.2.pid proc.pid = true ∧ e.2.status = .active ∧
        isNumber e.2.startTimeNs proc.startTimeNs = false then e.2.finish now
          else e.2))
      = (registryOf m rules sessions).sessions.items := by
    conv_rhs => rw [← List.map_id (registryOf m rules sessions).sessions.items]
    refine List.map_congr_left fun e he => ?_
    have hfinished :=
      (get?_registryOf (OrderedDict.get?_eq_some_iff.mpr he)).2.2
    rw [if_neg (fun hactive => by rw [hfinished] at hactive; exact absurd hactive.2.1 (by decide))]
    rfl
  simp only [LooseRegistry.closeReused, OrderedDict.mapValues, hitems]

/-- **Sound entries let every refresh return.** -/
theorem refreshes_of_sound (h : SoundEntries env m rules sessions)
    (clock : Clock)
    (processes : List ProcessInfo) (stats : List ProcessIoStat) :
    ∃ out, (registryOf m rules sessions).refresh env clock processes stats =
      .ok out := by
  have htyped := (typed_iff (readable_of_typed h.typed)).mpr h.typed
  have hfirst : ∀ proc, ∃ found,
      LooseRule.firstRule env (rules.filterMap ruleOf) proc = .ok found := by
    intro proc
    refine firstRule_ok_iff.mpr ?_
    intro before rule after heq herror
    have hmem : rule ∈ rules.filterMap ruleOf := by
      rw [heq]
      simp
    exact h.guarded before rule after heq
      ((error_iff_trips (htyped rule hmem)).mp herror) proc
  have hresolved :
      ∃ hits, LooseRule.resolve env (rules.filterMap ruleOf) processes =
      .ok hits ∧
      ∀ hit ∈ hits.items, ∃ p, hit.2 ∈ rules.filterMap ruleOf ∧
        hit.2.ruleMatches env p = .ok true := resolve_ok hfirst
  obtain ⟨hits, hhits, hmatch⟩ := hresolved
  have htimed : ∀ s ∈ (registryOf m rules sessions).sessions.values,
      s.sessionStartNs.neg?.isSome = true := (forall_values_iff _).mpr h.timed
  have hhashed : ∀ s ∈ (registryOf m rules sessions).sessions.values,
      s.pid.key?.isSome = true := by
    refine (forall_values_iff _).mpr ?_
    intro a ha
    obtain ⟨ident, hident⟩ := Option.isSome_iff_exists.mp (h.keyed a ha)
    unfold LooseSession.identity? at hident
    obtain ⟨k, hk, -⟩ := Option.bind_eq_some_iff.mp hident
    rw [hk]
    rfl
  have hseen : ∀ sid s, (registryOf m rules sessions).sessions.get? sid =
      some s →
      s.status = .active → sid ∈ ([] : List JsonValue.Key) := by
    intro sid s hs hactive
    rw [(get?_registryOf hs).2.2] at hactive
    cases hactive
  have hloop : ∃ acc, (hits.items.insertionSort (fun a b => a.1 ≤ b.1)).foldlM
      (LooseRegistry.refreshTarget env clock (indexByPid processes) stats)
      (registryOf m rules sessions, []) = .ok acc ∧
      (∀ s ∈ acc.1.sessions.values, s.sessionStartNs.neg?.isSome = true) ∧
      (∀ s ∈ acc.1.sessions.values, s.pid.key?.isSome = true) ∧
      ∀ sid s, acc.1.sessions.get? sid = some s → s.status = .active →
        sid ∈ acc.2 := by
    have hsorted : ∀ hit ∈ hits.items.insertionSort (fun a b => a.1 ≤ b.1),
        hit ∈ hits.items :=
      fun hit hmem => (List.mem_insertionSort _).mp hmem
    by_cases hany : ∃ proc, ∃ rule ∈ rules.filterMap ruleOf,
      rule.ruleMatches env proc = .ok true
    · obtain ⟨hrules, hrecent⟩ := h.savable hany
      have hsteady : (registryOf m rules sessions).Steady env [] :=
        ⟨htimed, hhashed, hseen, hrules, hrecent⟩
      obtain ⟨acc, hacc, hend⟩ := targets_steady hsteady (fun hit hmem => by
        obtain ⟨_, hin, -⟩ := hmatch hit (hsorted hit hmem)
        exact hrules hit.2 hin)
      exact ⟨acc, hacc, hend.timed, hend.hashed, hend.seen⟩
    · have hnone : hits.items.insertionSort (fun a b => a.1 ≤ b.1) = [] := by
        refine List.eq_nil_iff_forall_not_mem.mpr ?_
        intro hit hmem
        obtain ⟨proc, hin, hmatches⟩ := hmatch hit (hsorted hit hmem)
        exact hany ⟨proc, hit.2, hin, hmatches⟩
      rw [hnone]
      exact ⟨_, rfl, htimed, hhashed, hseen⟩
  obtain ⟨acc, hacc, hacctimed, hacchashed, haccseen⟩ := hloop
  exact ⟨acc.1,
    refresh_eq_ok.mpr ⟨hits, acc, hhits, hacc, finishVanished_of_seen haccseen,
    sessionPids_ok hacchashed, sortKeys_ok_iff.mpr hacctimed⟩⟩

/-- **What a refresh meets**: the starts, the patterns and what is saved. -/
theorem sound_of_refreshes
    (htyped : ∀ rule ∈ (registryOf m rules sessions).rules,
      rule.kind.valid = true ∧ ∃ t, rule.value = .str t)
    (h : ∀ clock processes stats, ∃ out,
      (registryOf m rules sessions).refresh env clock processes stats =
        .ok out) :
    (∀ a, LastByKey (sessionsOf sessions) a →
      a.2.sessionStartNs.neg?.isSome = true) ∧
    (∀ before rule after, rules.filterMap ruleOf = before ++ rule :: after →
      rule.Trips env →
      ∀ proc, ∃ earlier ∈ before, earlier.ruleMatches env proc = .ok true) ∧
    ((∃ proc, ∃ rule ∈ rules.filterMap ruleOf, rule.ruleMatches env proc =
      .ok true) →
      (∀ rule ∈ rules.filterMap ruleOf, rule.Savable env) ∧
        ∀ s ∈ recent m (byKey (sessionsOf sessions)).values,
          s.Savable env) := by
  have hfirst : ∀ proc, ∃ found,
      LooseRule.firstRule env (rules.filterMap ruleOf) proc = .ok found := by
    intro proc
    obtain ⟨out, hout⟩ := h ⟨0, fun _ => []⟩ [proc] []
    obtain ⟨hits, _, hhits, -⟩ := refresh_eq_ok.mp hout
    unfold LooseRule.resolve at hhits
    rw [List.foldlM_cons] at hhits
    obtain ⟨_, hstep, -⟩ := Fallible.bind_eq_ok.mp hhits
    obtain ⟨found, hfound, -⟩ := Fallible.bind_eq_ok.mp hstep
    exact ⟨found, hfound⟩
  refine ⟨?_, ?_, ?_⟩
  · obtain ⟨out, hout⟩ := h ⟨0, fun _ => []⟩ [] []
    obtain ⟨hits, acc, hhits, hacc, hvanished, -, hkeys⟩ :=
      refresh_eq_ok.mp hout
    obtain rfl := Except.ok.inj hhits
    obtain rfl := Except.ok.inj hacc
    have hkeep : (registryOf m rules sessions).finishVanished env 0 []
        = .ok (registryOf m rules sessions) := by
      refine finishVanished_of_seen ?_
      intro sid s hs hactive
      rw [(get?_registryOf hs).2.2] at hactive
      cases hactive
    obtain rfl := Except.ok.inj (hvanished.symm.trans hkeep)
    exact (forall_values_iff _).mp (sortKeys_ok_iff.mp hkeys)
  · intro before rule after heq htrips proc
    have hmem : rule ∈ rules.filterMap ruleOf := by
      rw [heq]
      simp
    exact firstRule_ok_iff.mp (hfirst proc) before rule after heq
      ((error_iff_trips (htyped rule hmem)).mpr htrips)
  · intro hany
    obtain ⟨proc, rule, hrule, hmatches⟩ := hany
    obtain ⟨n, hunmet⟩ := exists_unmet (registryOf m rules sessions) proc
    obtain ⟨found, hfound⟩ := hfirst proc
    cases found with
    | none =>
        have hno := firstRule_eq_none hfound rule hrule
        rw [hmatches] at hno
        cases hno
    | some first =>
        obtain ⟨out, hout⟩ :=
          h ⟨0, fun _ => []⟩ [{ proc with startTimeNs := n }] []
        have hsave :=
          save_of_refresh ((firstRule_start _ proc n).trans hfound) hunmet hout
        obtain ⟨hrules, hsessions⟩ := save_eq_ok.mp hsave
        obtain ⟨sid, hvalues⟩ := values_withSession env ⟨0, fun _ => []⟩
          { proc with startTimeNs := n } first (registryOf m rules sessions)
        rw [hvalues, lastSlice_concat, closeReused_registryOf] at hsessions
        exact ⟨hrules, fun s hs => hsessions s (List.mem_append_left _ hs)⟩

end

/-! ### The result -/

section

variable {env : Surroundings} {m : Nat} {rules sessions : List JsonValue}

/-- A registry that has been read is in order exactly where its entries are
sound. -/
theorem recovered_iff {content : StateContent}
    (hrules : content.entries "rules" = rules)
    (hsessions : content.entries "sessions" = sessions)
    (hread : ∀ entry ∈ rules, ReadableRule entry)
    (hobjects : ∀ entry ∈ sessions, entry.fields?.isSome = true) :
    (registryOf m rules sessions).Recovered env content ↔
      SoundEntries env m rules sessions := by
  constructor
  · intro h
    obtain ⟨htimed, hguarded, hsavable⟩ :=
      sound_of_refreshes h.typed h.refreshes
    obtain ⟨hkeyed, hagree⟩ := identityMap_iff.mp h.identities
    refine ⟨(typed_iff hread).mp h.typed, hobjects, hkeyed, htimed, hagree, ?_,
      hguarded, hsavable⟩
    intro entry hentry hformed e he
    rw [← hsessions] at hentry
    obtain ⟨e', he', hget⟩ := h.keepsSessions entry hentry hformed
    obtain rfl := Option.some.inj (he.symm.trans he')
    exact get?_byKey.mp hget
  · intro h
    refine ⟨(typed_iff hread).mpr h.typed,
      identityMap_iff.mpr ⟨h.keyed, h.agree⟩, ?_, ?_,
      refreshes_of_sound h⟩
    · rw [hrules]
      exact List.Sublist.filterMap _ List.filter_sublist
    · intro entry hentry hformed
      rw [hsessions] at hentry
      obtain ⟨e, he⟩ := exists_sessionOf hformed
      exact ⟨e, he, get?_byKey.mpr (h.last entry hentry hformed e he)⟩

theorem soundEntries_nil (env : Surroundings) (m : Nat) :
    SoundEntries env m [] [] := by
  have hnone : ∀ a, ¬ LastByKey (sessionsOf []) a :=
    fun a ha => absurd ha.mem List.not_mem_nil
  refine ⟨List.forall_mem_nil _, List.forall_mem_nil _, fun a ha =>
    absurd ha (hnone a),
    fun a ha => absurd ha (hnone a), fun a b ha => absurd ha (hnone a),
    List.forall_mem_nil _, ?_, ?_⟩
  · intro before rule after heq
    simp at heq
  · intro hany
    obtain ⟨_, _, hmem, -⟩ := hany
    cases hmem

end

/-- **When the daemon recovers from its state file.**  An unreadable file and
one that is no JSON start an empty registry; one nested too deep raises; a
document must be an object with sound entries. -/
theorem damaged_state_recovers_iff (env : Surroundings) (maxFinished : Nat)
    (content : StateContent) :
    Recovers env maxFinished content ↔
      SoundContent env maxFinished content := by
  have hempty : ∀ c : StateContent, LooseRegistry.load maxFinished c
      = .ok (registryOf maxFinished [] []) → c.entries "rules" = [] →
        c.entries "sessions" = [] →
      Recovers env maxFinished c := by
    intro c hload hrules hsessions
    refine ⟨_, hload, ?_⟩
    exact (recovered_iff hrules hsessions (List.forall_mem_nil _)
      (List.forall_mem_nil _)).mpr
      (soundEntries_nil env maxFinished)
  cases content with
  | unreadable => exact ⟨fun _ => trivial, fun _ => hempty _ rfl rfl rfl⟩
  | malformed => exact ⟨fun _ => trivial, fun _ => hempty _ rfl rfl rfl⟩
  | tooDeep =>
      constructor
      · intro h
        obtain ⟨_, hload, -⟩ := h
        cases hload
      · exact False.elim
  | document d =>
      have hentries : ∀ {fields name es}, d.fields? = some fields →
          listed fields name = some es →
          (StateContent.document d).entries name = es := by
        intro fields name es hfields hes
        unfold StateContent.entries
        dsimp only
        rw [hfields, Option.bind_some, hes]
        rfl
      constructor
      · intro h
        obtain ⟨r, hload, hrecovered⟩ := h
        obtain ⟨fields, rules, sessions, hfields, hrules, hsessions, hread,
            hobjects, rfl⟩ :=
          load_document_eq_ok.mp hload
        exact ⟨fields, rules, sessions, hfields, hrules, hsessions,
          (recovered_iff (hentries hfields hrules) (hentries hfields hsessions)
            hread hobjects).mp
            hrecovered⟩
      · intro h
        obtain ⟨fields, rules, sessions, hfields, hrules, hsessions, hsound⟩ :=
          h
        have hread := readable_of_typed hsound.typed
        exact ⟨registryOf maxFinished rules sessions,
          load_document_eq_ok.mpr ⟨fields, rules, sessions, hfields, hrules,
            hsessions, hread,
            hsound.objects, rfl⟩,
          (recovered_iff (hentries hfields hrules) (hentries hfields hsessions)
            hread
            hsound.objects).mpr hsound⟩

/-! ### Two files that stop the daemon -/

/-- No adapters but one, and an engine that takes no pattern. -/
def quietSurroundings : Surroundings where
  reCompile := fun _ => .ok none
  adapters := []
  generic := ⟨"generic".toList, fun _ => .ok true, fun _ _ => .ok []⟩
  copyLimit := 300
  dumpLimit := 900
  copies_lists := by decide
  dumps_lists := by decide

/-- `{"session_id": "s", "pid": 7, "comm": "fio", "cmdline": "fio",
"session_start_ns": "soon"}` -/
def soonSession : JsonValue :=
  .obj [(JsonText.ofText "session_id".toList, .ofText "s".toList),
    (JsonText.ofText "pid".toList, .int 7),
    (JsonText.ofText "comm".toList, .ofText "fio".toList),
    (JsonText.ofText "cmdline".toList, .ofText "fio".toList),
    (JsonText.ofText "session_start_ns".toList, .ofText "soon".toList)]

/-- `{"rules": [], "sessions": [soonSession]}` -/
def soonFile : StateContent :=
  .document (.obj [(JsonText.ofText "rules".toList, .arr []),
    (JsonText.ofText "sessions".toList, .arr [soonSession])])

/-- A list in place of the object stops the constructor; a text in place of the
start of a session stops the refresh after it. -/
theorem list_and_text_stop :
    LooseRegistry.load 50 (.document (.arr [])) = .error .attributeError ∧
    ¬ Recovers quietSurroundings 50 (.document (.arr [])) ∧
    ¬ Recovers quietSurroundings 50 soonFile := by
  refine ⟨rfl, ?_, ?_⟩
  · intro h
    obtain ⟨r, hload, -⟩ := h
    cases hload
  · intro h
    obtain ⟨r, hload, hrecovered⟩ := h
    have hread :
      LooseRegistry.load 50 soonFile = .ok (registryOf 50 [] [soonSession]) :=
      rfl
    obtain rfl := Except.ok.inj (hload.symm.trans hread)
    have htimed : ∀ s ∈ (registryOf 50 [] [soonSession]).sessions.values,
        s.sessionStartNs.neg?.isSome = true :=
      (forall_values_iff _).mpr
        (sound_of_refreshes hrecovered.typed hrecovered.refreshes).1
    exact absurd htimed (by decide)

end Telemetryd
