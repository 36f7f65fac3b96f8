import Mathlib.Data.List.Infix
import Telemetryd.DamagedState

/-!
# A refresh after reading a damaged state file

The operations of `refresh` on rules and sessions whose fields hold what the
file had.  A value of the wrong type is met late: when a rule is tried, when a
new session is saved together with the old ones, or when the sessions are
sorted.

What is left out of the report compares such values and does nothing else to
them, which never raises.
-/

namespace Telemetryd

open PyText TwoIndexes

/-- What the registry calls.  The engine says `none` to a malformed pattern,
which is caught, and raises what is not `re.error`.  Copying a value and writing
it are recursions with a limit each; they get through a list of texts. -/
structure Surroundings where
  reCompile : JsonText → Except RegistryError (Option (PyText → Bool))
  adapters : List AppAdapter
  generic : AppAdapter
  copyLimit : Nat
  dumpLimit : Nat
  copies_lists : 1 ≤ copyLimit
  dumps_lists : 1 ≤ dumpLimit

/-! ### Rules -/

/-- `rule_matches` -/
def LooseRule.ruleMatches (env : Surroundings) (rule : LooseRule)
    (proc : ProcessInfo) :
    Except RegistryError Bool :=
  match rule.kind with
  | .pid =>
      .ok (decide ((rule.value.plainText?.bind JsonText.toText?).map strip =
        some (ofInt proc.pid)))
  | .name => do
      let t ← orRaise .attributeError rule.value.str?
      -- a surrogate is no white space, and in no text of a process
      let want := (JsonText.toText? t).map strip
      return decide (want = some proc.comm) ||
        decide (want = some (basename proc.exePath))
  | .namePattern => do
      let t ← orRaise .typeError rule.value.str?
      let rx ← env.reCompile t
      return rx.any (fun search =>
        search proc.comm || search (basename proc.exePath))
  | .cmdlinePattern => do
      let t ← orRaise .typeError rule.value.str?
      let rx ← env.reCompile t
      return rx.any (fun search => search proc.cmdline)
  | .other _ => .ok false

/-- The first rule that matches the process. -/
def LooseRule.firstRule (env : Surroundings) :
    List LooseRule → ProcessInfo → Except RegistryError (Option LooseRule)
  | [], _ => .ok none
  | rule :: rules, proc => do
      let found ← rule.ruleMatches env proc
      if found then return some rule else firstRule env rules proc

/-- `resolve` -/
def LooseRule.resolve (env : Surroundings) (rules : List LooseRule)
    (processes : List ProcessInfo) :
    Except RegistryError (OrderedDict Int LooseRule) :=
  processes.foldlM (fun hits proc => do
    let rule ← LooseRule.firstRule env rules proc
    match rule with
    | some rule => return hits.insert proc.pid rule
    | none => return hits) .empty

/-- `select_adapter` -/
def Surroundings.selectAdapter (env : Surroundings) (proc : ProcessInfo)
    (explicit : JsonValue) :
    AppAdapter :=
  if explicit.truthy then
    (env.adapters.find? (fun a =>
      decide (some (JsonText.ofText a.name) = explicit.str?))).getD
      env.generic
  else
    (env.adapters.find? (fun a => a.accepts proc)).getD env.generic

/-! ### Saving -/

/-- `asdict` of a value. -/
def Surroundings.copy (env : Surroundings) (v : JsonValue) :
    Except RegistryError Unit :=
  if v.depth ≤ env.copyLimit then .ok () else .error .recursionError

/-- `json.dump` of a value to a file in UTF-8. -/
def Surroundings.dump (env : Surroundings) (v : JsonValue) :
    Except RegistryError Unit :=
  if v.depth ≤ env.dumpLimit then
    if v.encodes then .ok () else .error .unicodeEncodeError
  else .error .recursionError

/-- The values of a rule that are written. -/
def LooseRule.written (r : LooseRule) : List JsonValue := [r.value, r.adapter]

/-- The fields of a session that are written; its status is one of two texts. -/
def LooseSession.written (s : LooseSession) : List JsonValue :=
  [s.sessionId, s.pid, s.comm, s.cmdline, s.exePath, s.adapter, s.startTimeNs,
    s.sessionStartNs,
    s.sessionEndNs, s.devices, s.threadCountActive, s.matchedRule]

/-- Those that are copied first; the groups are of this daemon's making. -/
def LooseSession.copied (s : LooseSession) : List JsonValue :=
  match s.aggregate with
  | .read v => v :: s.written
  | .measured _ => s.written

/-- `_save`, for what it raises, on a disk that accepts the write.  An `OSError`
is caught. -/
def LooseRegistry.save (env : Surroundings) (r : LooseRegistry) :
    Except RegistryError Unit := do
  let sessions := lastSlice r.maxFinished r.sessions.values
  (r.rules.flatMap LooseRule.written ++
    sessions.flatMap LooseSession.copied).forM env.copy
  (r.rules.flatMap LooseRule.written ++
    sessions.flatMap LooseSession.written).forM env.dump

/-! ### Sessions -/

/-- `v == i` for an integer. -/
def isNumber (v : JsonValue) (i : Int) : Bool := decide (v.key? = some (.num i))

/-- The key of an identity of a process. -/
def ProcessInfo.identityKey (proc : ProcessInfo) :
    JsonValue.Key × JsonValue.Key :=
  (.num proc.pid, .num proc.startTimeNs)

/-- A text as a key. -/
def textKey (t : PyText) : JsonValue.Key := .text (JsonText.ofText t)

/-- A session that is over. -/
def LooseSession.finish (now : Int) (s : LooseSession) : LooseSession :=
  { s with status := .finished, sessionEndNs := .int now }

/-- End the active sessions of earlier processes with this pid. -/
def LooseRegistry.closeReused (now : Int) (proc : ProcessInfo)
    (sessions : OrderedDict JsonValue.Key LooseSession) :
    OrderedDict JsonValue.Key LooseSession :=
  sessions.mapValues (fun _ old =>
    if isNumber old.pid proc.pid = true ∧ old.status = .active ∧
        isNumber old.startTimeNs proc.startTimeNs = false then
      old.finish now
    else old)

/-- `f"{rule.kind}={rule.value}"` -/
def LooseRule.ruleText (rule : LooseRule) : JsonText :=
  JsonText.ofText (rule.kind.text ++ ['=']) ++ rule.value.plainText?.getD []

/-- The session a process starts with. -/
def LooseRule.newSession (env : Surroundings) (now : Int) (sid : PyText)
    (proc : ProcessInfo)
    (rule : LooseRule) : LooseSession where
  sessionId := .ofText sid
  pid := .int proc.pid
  comm := .ofText proc.comm
  cmdline := .ofText proc.cmdline
  exePath := .ofText proc.exePath
  adapter := .ofText (env.selectAdapter proc rule.adapter).name
  status := .active
  startTimeNs := .int proc.startTimeNs
  sessionStartNs := .int now
  sessionEndNs := .null
  devices := .arr []
  threadCountActive := .int 0
  aggregate := .read .null
  logicalGroups := []
  matchedRule := .str rule.ruleText

/-- The texts among the ids in use. -/
def takenTexts (keys : List JsonValue.Key) : List PyText :=
  keys.filterMap (fun k => match k with
    | .text t => JsonText.toText? t
    | _ => none)

/-- Create the session of a process seen for the first time. -/
def LooseRegistry.withSession (env : Surroundings) (clock : Clock)
    (proc : ProcessInfo)
    (rule : LooseRule) (r : LooseRegistry) : LooseRegistry × JsonValue.Key :=
  let sessions := closeReused clock.timeNs proc r.sessions
  let sid := sessionId (clock.strftime proc.pid) proc.pid proc.startTimeNs
    (some (takenTexts sessions.keys))
  ({ r with
      sessions := sessions.insert (textKey sid)
        (rule.newSession env clock.timeNs sid proc)
      byIdentity := r.byIdentity.insert proc.identityKey (textKey sid) },
        textKey sid)

/-- Create and save it. -/
def LooseRegistry.openSession (env : Surroundings) (clock : Clock)
    (proc : ProcessInfo)
    (rule : LooseRule) (r : LooseRegistry) :
    Except RegistryError (LooseRegistry × JsonValue.Key) := do
  let out := r.withSession env clock proc rule
  out.1.save env
  return out

/-- The session of a process, by identity, created if there is none.  An id that
is `None` counts as none. -/
def LooseRegistry.sessionFor (env : Surroundings) (clock : Clock)
    (proc : ProcessInfo)
    (rule : LooseRule) (r : LooseRegistry) :
    Except RegistryError (LooseRegistry × JsonValue.Key) :=
  match r.byIdentity.get? proc.identityKey with
  | some sid =>
      if sid ≠ .null ∧ sid ∈ r.sessions.keys then .ok (r, sid)
      else r.openSession env clock proc rule
  | none => r.openSession env clock proc rule

/-- Bring a session up to date with its process and its statistics. -/
def LooseRule.observe (env : Surroundings) (proc : ProcessInfo)
    (rule : LooseRule)
    (stats : List ProcessIoStat) (sess : LooseSession) : LooseSession :=
  let adapter := env.selectAdapter proc rule.adapter
  { sess with
    sessionEndNs := if sess.status = .finished then .null else sess.sessionEndNs
    status := .active
    comm := if proc.comm ≠ [] then .ofText proc.comm else sess.comm
    threadCountActive := .int proc.threadCount
    devices := .ofTexts ((stats.map (·.device)).dedup.insertionSort (· ≤ ·))
    adapter := .ofText adapter.name
    logicalGroups := groupsOrFallback adapter proc stats
    aggregate := .measured (measuredFromStats stats none) }

/-- The body of the loop over the matched pids. -/
def LooseRegistry.refreshTarget (env : Surroundings) (clock : Clock)
    (byPid : OrderedDict Int ProcessInfo) (stats : List ProcessIoStat)
    (acc : LooseRegistry × List JsonValue.Key) (hit : Int × LooseRule) :
    Except RegistryError (LooseRegistry × List JsonValue.Key) :=
  match byPid.get? hit.1 with
  | none => .ok acc
  | some proc => do
      let (r, sid) ← acc.1.sessionFor env clock proc hit.2
      match r.sessions.get? sid with
      | none => return (r, acc.2)
      | some sess =>
          let sess := hit.2.observe env proc (statsOf stats hit.1) sess
          return ({ r with sessions := r.sessions.insert sid sess },
            sid :: acc.2)

/-- The body of the last loop: end and save the session if it was not seen. -/
def LooseRegistry.finishUnseen (env : Surroundings) (now : Int)
    (activeIds : List JsonValue.Key)
    (r : LooseRegistry) (sid : JsonValue.Key) :
    Except RegistryError LooseRegistry :=
  match r.sessions.get? sid with
  | none => .ok r
  | some sess =>
      if sess.status = .active ∧ sid ∉ activeIds then do
        let r := { r with sessions := r.sessions.insert sid (sess.finish now) }
        r.save env
        return r
      else .ok r

/-- End and save each active session that was not seen. -/
def LooseRegistry.finishVanished (env : Surroundings) (now : Int)
    (activeIds : List JsonValue.Key)
    (r : LooseRegistry) : Except RegistryError LooseRegistry :=
  r.sessions.keys.foldlM (LooseRegistry.finishUnseen env now activeIds) r

/-! ### The report -/

/-- `session_pids`, the set of the pids of active sessions. -/
def LooseRegistry.sessionPids (r : LooseRegistry) :
    Except RegistryError (List JsonValue.Key) :=
  (r.sessions.values.filter (fun s => decide (s.status = .active))).mapM
    (fun s => orRaise .typeError s.pid.key?)

/-- What the sessions of the report are sorted by. -/
def LooseRegistry.sortKeys (r : LooseRegistry) :
    Except RegistryError (List (Bool × JsonValue)) :=
  r.sessions.values.mapM (fun s => do
    let start ← orRaise .typeError s.sessionStartNs.neg?
    return (decide (s.status ≠ .active), start))

/-- `refresh`, with the registry after it. -/
def LooseRegistry.refresh (env : Surroundings) (clock : Clock)
    (processes : List ProcessInfo)
    (stats : List ProcessIoStat) (r : LooseRegistry) :
    Except RegistryError LooseRegistry := do
  let hits ← LooseRule.resolve env r.rules processes
  let matched := hits.items.insertionSort (fun a b => a.1 ≤ b.1)
  let (r, activeIds) ←
    matched.foldlM
      (LooseRegistry.refreshTarget env clock (indexByPid processes) stats)
      (r, [])
  let r ← r.finishVanished env clock.timeNs activeIds
  let _ ← r.sessionPids
  let _ ← r.sortKeys
  return r

/-! ### What a save takes -/

/-- A value that is copied and written. -/
def Surroundings.Saves (env : Surroundings) (v : JsonValue) : Prop :=
  v.depth ≤ env.copyLimit ∧ v.depth ≤ env.dumpLimit ∧ v.encodes = true

/-- All values of a rule can be saved. -/
def LooseRule.Savable (env : Surroundings) (r : LooseRule) : Prop :=
  ∀ v ∈ r.written, env.Saves v

/-- All values of a session can be saved. -/
def LooseSession.Savable (env : Surroundings) (s : LooseSession) : Prop :=
  (∀ v ∈ s.written, env.Saves v) ∧ ∀ v ∈ s.copied, v.depth ≤ env.copyLimit

variable {env : Surroundings} {r : LooseRegistry}

/-- A value can be copied exactly if it is not too deep. -/
theorem copy_eq_ok {v : JsonValue} :
    env.copy v = .ok () ↔ v.depth ≤ env.copyLimit := by
  unfold Surroundings.copy
  split
  case isTrue h => exact ⟨fun _ => h, fun _ => rfl⟩
  case isFalse h => exact ⟨nofun, fun hv => absurd hv h⟩

/-- A value can be written exactly if it is not too deep and can be encoded. -/
theorem dump_eq_ok {v : JsonValue} :
    env.dump v = .ok () ↔ v.depth ≤ env.dumpLimit ∧ v.encodes = true := by
  unfold Surroundings.dump
  split
  case isTrue h =>
    split
    case isTrue henc => exact ⟨fun _ => ⟨h, henc⟩, fun _ => rfl⟩
    case isFalse henc => exact ⟨nofun, fun hv => absurd hv.2 henc⟩
  case isFalse h => exact ⟨nofun, fun hv => absurd hv.1 h⟩

/-- What is written has been copied. -/
theorem written_subset_copied (s : LooseSession) : s.written ⊆ s.copied := by
  unfold LooseSession.copied
  cases s.aggregate with
  | read v => exact List.subset_cons_self _ _
  | measured m => exact List.Subset.refl _

/-- **When a save returns.** -/
theorem save_eq_ok :
    r.save env = .ok () ↔ (∀ rule ∈ r.rules, rule.Savable env) ∧
    ∀ s ∈ lastSlice r.maxFinished r.sessions.values, s.Savable env := by
  unfold LooseRegistry.save
  rw [Fallible.seq_eq_ok, Fallible.forM_eq_ok_iff, Fallible.forM_eq_ok_iff]
  simp only [copy_eq_ok, dump_eq_ok, List.forall_mem_append,
    List.forall_mem_flatMap]
  constructor
  · intro h
    obtain ⟨⟨hrcopy, hscopy⟩, hrdump, hsdump⟩ := h
    refine ⟨fun rule hrule v hv =>
      ⟨hrcopy rule hrule v hv, hrdump rule hrule v hv⟩, ?_⟩
    exact fun s hs =>
      ⟨fun v hv =>
      ⟨hscopy s hs v (written_subset_copied s hv), hsdump s hs v hv⟩,
      hscopy s hs⟩
  · intro h
    exact ⟨⟨fun rule hrule v hv => (h.1 rule hrule v hv).1, fun s hs =>
      (h.2 s hs).2⟩,
      fun rule hrule v hv => (h.1 rule hrule v hv).2, fun s hs v hv =>
        ((h.2 s hs).1 v hv).2⟩

/-- A text can be saved. -/
theorem saves_ofText (env : Surroundings) (t : PyText) :
    env.Saves (.ofText t) := by
  simp [Surroundings.Saves]

/-- So can a number. -/
theorem saves_int (env : Surroundings) (i : Int) : env.Saves (.int i) := by
  simp [Surroundings.Saves]

/-- So can null. -/
theorem saves_null (env : Surroundings) :
    env.Saves .null := by simp [Surroundings.Saves]

/-- So can a list of texts. -/
theorem saves_ofTexts (env : Surroundings) (ts : List PyText) :
    env.Saves (.ofTexts ts) := by
  have hdepth := JsonValue.depth_ofTexts_le ts
  exact ⟨hdepth.trans env.copies_lists, hdepth.trans env.dumps_lists, by simp⟩

/-- The text of a rule is written where its value is. -/
theorem saves_ruleText {rule : LooseRule} (h : env.Saves rule.value) :
    env.Saves (.str rule.ruleText) := by
  have htext : ∀ t ∈ rule.value.plainText?, JsonText.encodes t = true := by
    intro t ht
    have henc := h.2.2
    cases hvalue : rule.value with
    | str u =>
        rw [hvalue] at ht henc
        obtain rfl := Option.some.inj ht
        simpa [JsonValue.encodes] using henc
    | bool b =>
        rw [hvalue] at ht
        cases b with
        | true =>
            obtain rfl := Option.some.inj ht; exact JsonText.encodes_ofText _
        | false =>
            obtain rfl := Option.some.inj ht; exact JsonText.encodes_ofText _
    | null =>
        rw [hvalue] at ht
        obtain rfl := Option.some.inj ht
        exact JsonText.encodes_ofText _
    | int i =>
        rw [hvalue] at ht
        obtain rfl := Option.some.inj ht
        exact JsonText.encodes_ofText _
    | float f =>
        rw [hvalue] at ht
        cases ht
    | arr vs =>
        rw [hvalue] at ht
        cases ht
    | obj fields =>
        rw [hvalue] at ht
        cases ht
  have hrest : JsonText.encodes (rule.value.plainText?.getD []) = true := by
    cases hplain : rule.value.plainText? with
    | none => rfl
    | some t => exact htext t hplain
  have henc : JsonText.encodes rule.ruleText = true := by
    have hfirst := JsonText.encodes_ofText (rule.kind.text ++ ['='])
    unfold LooseRule.ruleText
    unfold JsonText.encodes at hfirst hrest ⊢
    rw [List.all_append, hfirst, hrest]
    rfl
  simp [Surroundings.Saves, JsonValue.depth, JsonValue.encodes, henc]

/-- The session that a savable rule opens is savable. -/
theorem newSession_savable {rule : LooseRule} (h : rule.Savable env) (now : Int)
    (sid : PyText)
    (proc : ProcessInfo) : (rule.newSession env now sid proc).Savable env := by
  have hrule := saves_ruleText (h rule.value List.mem_cons_self)
  have hdevices : env.Saves (.arr []) := saves_ofTexts env []
  have hwritten : ∀ v ∈ (rule.newSession env now sid proc).written,
      env.Saves v := by
    simp only [LooseSession.written, LooseRule.newSession, List.forall_mem_cons,
      saves_ofText,
      saves_int, saves_null, hrule, hdevices, true_and]
    exact List.forall_mem_nil _
  refine ⟨hwritten, ?_⟩
  simp only [LooseSession.copied, LooseRule.newSession] at hwritten ⊢
  exact List.forall_mem_cons.mpr ⟨(saves_null env).1, fun v hv =>
    (hwritten v hv).1⟩

/-- What a refresh puts into a session can be saved. -/
theorem observe_savable {rule : LooseRule} {proc : ProcessInfo}
    {stats : List ProcessIoStat}
    {s : LooseSession} (h : s.Savable env) :
    (rule.observe env proc stats s).Savable env := by
  have hfields := h.1
  simp only [LooseSession.written, List.forall_mem_cons] at hfields
  have hend : env.Saves (rule.observe env proc stats s).sessionEndNs := by
    unfold LooseRule.observe
    dsimp only
    split
    · exact saves_null env
    · grind
  have hcomm : env.Saves (rule.observe env proc stats s).comm := by
    unfold LooseRule.observe
    dsimp only
    split
    · exact saves_ofText env _
    · grind
  have hwritten : ∀ v ∈ (rule.observe env proc stats s).written,
      env.Saves v := by
    simp only [LooseSession.written, List.forall_mem_cons]
    simp only [LooseRule.observe] at hend hcomm ⊢
    simp only [saves_ofText, saves_int, saves_ofTexts, hend, hcomm]
    grind
  exact ⟨hwritten, fun v hv => (hwritten v hv).1⟩

/-- Ending a session keeps it savable. -/
theorem finish_savable {s : LooseSession} {now : Int} (h : s.Savable env) :
    (s.finish now).Savable env := by
  have hfields := h.1
  have hend := saves_int env now
  simp only [LooseSession.written, List.forall_mem_cons] at hfields
  have hwritten : ∀ v ∈ (s.finish now).written, env.Saves v := by
    simp only [LooseSession.written, LooseSession.finish, List.forall_mem_cons]
    grind
  refine ⟨hwritten, ?_⟩
  have hcopied := h.2
  unfold LooseSession.copied at hcopied ⊢
  have hagg : (s.finish now).aggregate = s.aggregate := rfl
  rw [hagg]
  cases haggregate : s.aggregate with
  | measured m => exact fun v hv => (hwritten v hv).1
  | read v =>
      rw [haggregate] at hcopied
      exact List.forall_mem_cons.mpr ⟨hcopied v List.mem_cons_self, fun u hu =>
        (hwritten u hu).1⟩

/-! ### The sessions that are saved beside a new one -/

section

variable {α β : Type*}

/-- What a slice of the last `k` elements keeps when one more comes behind. -/
def recent (k : Nat) (l : List α) : List α :=
  if k = 0 then l else l.drop (l.length + 1 - k)

/-- The last of a longer list. -/
theorem lastSlice_concat (k : Nat) (l : List α) (a : α) :
    lastSlice k (l ++ [a]) = recent k l ++ [a] := by
  unfold lastSlice recent
  by_cases hk : k = 0
  · rw [if_pos hk, if_pos hk]
  · have hle : l.length + 1 - k ≤ l.length := by omega
    rw [if_neg hk, if_neg hk, List.length_append, List.length_singleton,
      List.drop_append_of_le_length hle]

/-- What is recent is among the last. -/
theorem recent_suffix (k : Nat) (l : List α) :
    recent k l <:+ lastSlice k l := by
  unfold recent lastSlice
  split
  · exact List.suffix_rfl
  · exact List.drop_suffix_drop_left l (by omega)

/-- What is recent was so before, or is new. -/
theorem mem_recent_concat {k : Nat} {l : List α} {a b : α}
    (h : b ∈ recent k (l ++ [a])) :
    b ∈ recent k l ∨ b = a := by
  have hmem := (recent_suffix k (l ++ [a])).subset h
  rw [lastSlice_concat] at hmem
  exact (List.mem_append.mp hmem).imp_right List.mem_singleton.mp

/-- What is recent does not depend on the values. -/
theorem recent_map (f : α → β) (k : Nat) (l : List α) :
    recent k (l.map f) = (recent k l).map f := by
  unfold recent
  split
  · rfl
  · rw [List.length_map, List.map_drop]

/-- What is recent is there. -/
theorem recent_subset (k : Nat) (l : List α) : recent k l ⊆ l := fun _ h =>
  (lastSlice_suffix k l).subset ((recent_suffix k l).subset h)

end

/-! ### What a refresh keeps -/

/-- The registry in the middle of a refresh: the sessions can be sorted, the
active ones have been seen, and a new session can be saved. -/
structure LooseRegistry.Steady (env : Surroundings)
    (activeIds : List JsonValue.Key)
    (r : LooseRegistry) : Prop where
  timed : ∀ s ∈ r.sessions.values, s.sessionStartNs.neg?.isSome = true
  hashed : ∀ s ∈ r.sessions.values, s.pid.key?.isSome = true
  seen : ∀ sid s, r.sessions.get? sid = some s → s.status = .active →
    sid ∈ activeIds
  rules : ∀ rule ∈ r.rules, rule.Savable env
  recent : ∀ s ∈ recent r.maxFinished r.sessions.values, s.Savable env

/-- What happens to a session that is there. -/
structure LooseSession.Continues (env : Surroundings) (s s' : LooseSession) :
    Prop where
  start : s'.sessionStartNs = s.sessionStartNs
  pid : s'.pid = s.pid
  savable : s.Savable env → s'.Savable env

/-- A session continues itself. -/
theorem LooseSession.Continues.refl (s : LooseSession) : s.Continues env s :=
  ⟨rfl, rfl, id⟩

/-- Observing a session continues it. -/
theorem continues_observe (rule : LooseRule) (proc : ProcessInfo)
    (stats : List ProcessIoStat)
    (s : LooseSession) : s.Continues env (rule.observe env proc stats s) :=
  ⟨rfl, rfl, observe_savable⟩

/-- Ending it continues it. -/
theorem continues_finish (now : Int) (s : LooseSession) :
    s.Continues env (s.finish now) :=
  ⟨rfl, rfl, finish_savable⟩

variable {ids ids' : List JsonValue.Key}

/-- Sessions that go on, at the places where they are. -/
theorem LooseRegistry.Steady.mapValues (h : r.Steady env ids)
    {f : JsonValue.Key → LooseSession → LooseSession}
    (hf : ∀ sid s, r.sessions.get? sid = some s → s.Continues env (f sid s))
    (hactive : ∀ sid s, r.sessions.get? sid = some s →
      (f sid s).status = .active → sid ∈ ids') :
    ({ r with sessions := r.sessions.mapValues f } : LooseRegistry).Steady env
      ids' := by
  have hget : ∀ e ∈ r.sessions.items, r.sessions.get? e.1 = some e.2 :=
    fun e he => OrderedDict.get?_eq_some_iff.mpr he
  have hvalue : ∀ e ∈ r.sessions.items, e.2 ∈ r.sessions.values :=
    fun e he => List.mem_map_of_mem he
  refine ⟨?_, ?_, ?_, h.rules, ?_⟩
  · intro s hs
    dsimp only at hs
    rw [OrderedDict.values_mapValues] at hs
    obtain ⟨e, he, rfl⟩ := List.mem_map.mp hs
    rw [(hf e.1 e.2 (hget e he)).start]
    exact h.timed e.2 (hvalue e he)
  · intro s hs
    dsimp only at hs
    rw [OrderedDict.values_mapValues] at hs
    obtain ⟨e, he, rfl⟩ := List.mem_map.mp hs
    rw [(hf e.1 e.2 (hget e he)).pid]
    exact h.hashed e.2 (hvalue e he)
  · intro sid s hs hst
    dsimp only at hs
    rw [OrderedDict.get?_mapValues, Option.map_eq_some_iff] at hs
    obtain ⟨old, hold, rfl⟩ := hs
    exact hactive sid old hold hst
  · intro s hs
    dsimp only at hs
    rw [OrderedDict.values_mapValues, recent_map] at hs
    obtain ⟨e, he, rfl⟩ := List.mem_map.mp hs
    have hin : e ∈ r.sessions.items := recent_subset _ _ he
    refine (hf e.1 e.2 (hget e hin)).savable (h.recent e.2 ?_)
    have hvalues : r.sessions.values = r.sessions.items.map Prod.snd := rfl
    rw [hvalues, recent_map]
    exact List.mem_map_of_mem he

/-- A session behind the others. -/
theorem LooseRegistry.Steady.append (h : r.Steady env ids) {sid : JsonValue.Key}
    {s : LooseSession} (hsid : sid ∉ r.sessions.keys)
    (hstart : s.sessionStartNs.neg?.isSome = true)
    (hpid : s.pid.key?.isSome = true) (hs : s.Savable env)
    (byIdentity : OrderedDict (JsonValue.Key × JsonValue.Key) JsonValue.Key) :
    ({ r with sessions := r.sessions.insert sid s, byIdentity := byIdentity } :
      LooseRegistry).Steady env (sid :: ids) := by
  have hvalues : (r.sessions.insert sid s).values = r.sessions.values ++ [s] :=
    OrderedDict.values_insert_of_notMem hsid
  refine ⟨?_, ?_, ?_, h.rules, ?_⟩
  · dsimp only
    rw [hvalues]
    exact List.forall_mem_append.mpr ⟨h.timed,
      List.forall_mem_singleton.mpr hstart⟩
  · dsimp only
    rw [hvalues]
    exact List.forall_mem_append.mpr ⟨h.hashed,
      List.forall_mem_singleton.mpr hpid⟩
  · intro k t hk hst
    dsimp only at hk
    rw [OrderedDict.get?_insert] at hk
    split at hk
    case isTrue heq => exact heq ▸ List.mem_cons_self
    case isFalse hne => exact List.mem_cons_of_mem _ (h.seen k t hk hst)
  · intro t ht
    dsimp only at ht
    rw [hvalues] at ht
    rcases mem_recent_concat ht with ht | rfl
    · exact h.recent t ht
    · exact hs

variable {clock : Clock} {proc : ProcessInfo} {rule : LooseRule}

/-- Closing the sessions of a pid that is reused keeps the registry steady. -/
theorem closeReused_steady (h : r.Steady env ids) :
    ({ r with sessions :=
  LooseRegistry.closeReused clock.timeNs proc r.sessions } :
      LooseRegistry).Steady env ids := by
  refine h.mapValues ?_ ?_
  · intro sid s _
    split
    · exact continues_finish _ s
    · exact LooseSession.Continues.refl s
  · intro sid s hs hst
    split at hst
    · cases hst
    · exact h.seen sid s hs hst

/-- A text is taken if it is a key. -/
theorem mem_takenTexts {keys : List JsonValue.Key} {t : PyText} :
    t ∈ takenTexts keys ↔ textKey t ∈ keys := by
  unfold takenTexts textKey
  rw [List.mem_filterMap]
  constructor
  · intro h
    obtain ⟨key, hkey, ht⟩ := h
    cases key with
    | text u =>
        rw [← JsonText.toText?_eq_some_iff.mp ht]
        exact hkey
    | null => cases ht
    | num q => cases ht
    | posInf => cases ht
    | negInf => cases ht
    | nan => cases ht
  · intro h
    exact ⟨_, h, JsonText.toText?_ofText t⟩

/-- A fresh id is no key. -/
theorem textKey_notMem (stamp : PyText) (pid startNs : Int)
    (keys : List JsonValue.Key) :
    textKey (sessionId stamp pid startNs (some (takenTexts keys))) ∉ keys :=
  mt mem_takenTexts.mpr (sessionId_notMem stamp pid startNs (takenTexts keys))

/-- The strings among the ids in use, of which a damaged file may have any. -/
def keyTexts (keys : List JsonValue.Key) : Finset JsonText :=
  (keys.filterMap (fun k => match k with
    | .text t => some t
    | _ => none)).toFinset

/-- The texts among the keys. -/
theorem mem_keyTexts {keys : List JsonValue.Key} {t : JsonText} :
    t ∈ keyTexts keys ↔ .text t ∈ keys := by
  unfold keyTexts
  rw [List.mem_toFinset, List.mem_filterMap]
  constructor
  · intro h
    obtain ⟨key, hkey, ht⟩ := h
    cases key with
    | text u => rwa [← Option.some.inj ht]
    | null => cases ht
    | num q => cases ht
    | posInf => cases ht
    | negInf => cases ht
    | nan => cases ht
  · intro h
    exact ⟨_, h, rfl⟩

/-- The id of a new session is the one that `_session_id` returns for the ids in
use. -/
theorem withSession_id (env : Surroundings) (clock : Clock) (proc : ProcessInfo)
    (rule : LooseRule) (r : LooseRegistry) : ∃ sid,
      (r.withSession env clock proc rule).2 = textKey sid ∧
      SessionIdReturns (clock.strftime proc.pid) proc.pid proc.startTimeNs
        (some (keyTexts
          (LooseRegistry.closeReused clock.timeNs proc r.sessions).keys)) sid :=
  ⟨_, rfl, (sessionIdReturns_iff (fun _ =>
    mem_keyTexts.trans mem_takenTexts.symm) _ _ _ _).mpr rfl⟩

/-- The values of the sessions once there is a new one. -/
theorem values_withSession (env : Surroundings) (clock : Clock)
    (proc : ProcessInfo)
    (rule : LooseRule) (r : LooseRegistry) :
    ∃ sid, (r.withSession env clock proc rule).1.sessions.values
      = (LooseRegistry.closeReused clock.timeNs proc r.sessions).values
        ++ [rule.newSession env clock.timeNs sid proc] :=
  ⟨_, OrderedDict.values_insert_of_notMem (textKey_notMem _ _ _ _)⟩

/-- A new session keeps the registry steady. -/
theorem withSession_steady (h : r.Steady env ids) (hrule : rule.Savable env) :
    let out := r.withSession env clock proc rule
    out.1.Steady env (out.2 :: ids) ∧ out.2 ∈ out.1.sessions.keys ∧
      out.1.rules = r.rules := by
  refine ⟨?_, OrderedDict.mem_keys_insert.mpr (Or.inl rfl), rfl⟩
  exact (closeReused_steady h).append (textKey_notMem _ _ _ _) rfl rfl
    (newSession_savable hrule _ _ _) _

/-- A new session is saved together with the recent ones. -/
theorem save_withSession (h : r.Steady env ids) (hrule : rule.Savable env) :
    (r.withSession env clock proc rule).1.save env = .ok () := by
  obtain ⟨sid, hvalues⟩ := values_withSession env clock proc rule r
  rw [save_eq_ok, hvalues, lastSlice_concat]
  refine ⟨h.rules, List.forall_mem_append.mpr ⟨?_, ?_⟩⟩
  · exact (closeReused_steady h).recent
  · exact List.forall_mem_singleton.mpr (newSession_savable hrule _ _ _)

/-- Opening a session succeeds and keeps the registry steady. -/
theorem openSession_steady (h : r.Steady env ids) (hrule : rule.Savable env) :
    ∃ out, r.openSession env clock proc rule = .ok out ∧
      out.1.Steady env (out.2 :: ids) ∧ out.2 ∈ out.1.sessions.keys ∧
        out.1.rules = r.rules := by
  refine ⟨r.withSession env clock proc rule, ?_, withSession_steady h hrule⟩
  unfold LooseRegistry.openSession
  rw [Fallible.seq_eq_ok]
  exact ⟨save_withSession h hrule, rfl⟩

/-- So does looking for one. -/
theorem sessionFor_steady (h : r.Steady env ids) (hrule : rule.Savable env) :
    ∃ out, r.sessionFor env clock proc rule = .ok out ∧
      out.1.Steady env (out.2 :: ids) ∧ out.2 ∈ out.1.sessions.keys ∧
        out.1.rules = r.rules := by
  unfold LooseRegistry.sessionFor
  cases hident : r.byIdentity.get? proc.identityKey with
  | none => exact openSession_steady h hrule
  | some sid =>
      dsimp only
      by_cases hsid : sid ≠ .null ∧ sid ∈ r.sessions.keys
      · rw [if_pos hsid]
        refine ⟨(r, sid), rfl, ?_, hsid.2, rfl⟩
        exact ⟨h.timed, h.hashed, fun k s hk hst =>
          List.mem_cons_of_mem _ (h.seen k s hk hst),
          h.rules, h.recent⟩
      · rw [if_neg hsid]
        exact openSession_steady h hrule

/-- **One matched process.** -/
theorem refreshTarget_steady {byPid : OrderedDict Int ProcessInfo}
    {stats : List ProcessIoStat}
    {acc : LooseRegistry × List JsonValue.Key} {hit : Int × LooseRule}
    (h : acc.1.Steady env acc.2)
    (hrule : hit.2.Savable env) :
    ∃ out, LooseRegistry.refreshTarget env clock byPid stats acc hit = .ok out ∧
      out.1.Steady env out.2 ∧ out.1.rules = acc.1.rules := by
  unfold LooseRegistry.refreshTarget
  cases hproc : byPid.get? hit.1 with
  | none => exact ⟨acc, rfl, h, rfl⟩
  | some proc =>
      obtain ⟨out, hout, hsteady, hkey, hrules⟩ := sessionFor_steady h hrule
      obtain ⟨sess, hsess⟩ := OrderedDict.mem_keys_iff.mp hkey
      let observed := hit.2.observe env proc (statsOf stats hit.1) sess
      refine ⟨({ out.1 with sessions := out.1.sessions.insert out.2 observed },
        out.2 :: acc.2),
        Fallible.bind_eq_ok.mpr ⟨out, hout, ?_⟩, ?_, hrules⟩
      · dsimp only
        rw [hsess]
        rfl
      · dsimp only
        rw [OrderedDict.insert_eq_mapValues hkey]
        refine hsteady.mapValues ?_ ?_
        · intro sid s hs
          split
          case isTrue heq =>
            rw [heq, hsess] at hs
            obtain rfl := Option.some.inj hs
            exact continues_observe _ _ _ _
          case isFalse => exact LooseSession.Continues.refl s
        · intro sid s hs hst
          split at hst
          case isTrue heq => exact heq ▸ List.mem_cons_self
          case isFalse => exact hsteady.seen sid s hs hst

/-- The loop over the matched processes. -/
theorem targets_steady {byPid : OrderedDict Int ProcessInfo}
    {stats : List ProcessIoStat}
    {hits : List (Int × LooseRule)} (h : r.Steady env ids)
    (hhits : ∀ hit ∈ hits, hit.2.Savable env) :
    ∃ out, hits.foldlM (LooseRegistry.refreshTarget env clock byPid stats)
      (r, ids) = .ok out ∧
      out.1.Steady env out.2 := by
  refine Fallible.exists_foldlM_eq_ok ?_ h
  intro acc hacc hit hhit
  obtain ⟨out, hout, hsteady, -⟩ := refreshTarget_steady hacc (hhits hit hhit)
  exact ⟨out, hout, hsteady⟩

/-- Nothing vanishes in the first refresh. -/
theorem finishVanished_of_seen {now : Int}
    (h : ∀ sid s, r.sessions.get? sid = some s → s.status = .active →
      sid ∈ ids) :
    r.finishVanished env now ids = .ok r := by
  have hstep : ∀ out : LooseRegistry, out = r → ∀ sid ∈ r.sessions.keys,
      ∃ out', LooseRegistry.finishUnseen env now ids out sid = .ok out' ∧
        out' = r := by
    intro out hout sid _
    refine ⟨r, ?_, rfl⟩
    subst hout
    unfold LooseRegistry.finishUnseen
    cases hsess : out.sessions.get? sid with
    | none => rfl
    | some sess =>
        refine if_neg ?_
        intro hboth
        exact hboth.2 (h sid sess hsess hboth.1)
  obtain ⟨out, hout, rfl⟩ := Fallible.exists_foldlM_eq_ok hstep rfl
  exact hout

/-- The pids can be collected if each is a key. -/
theorem sessionPids_ok (h : ∀ s ∈ r.sessions.values, s.pid.key?.isSome = true) :
    ∃ pids, r.sessionPids = .ok pids := by
  refine Fallible.exists_mapM_eq_ok ?_
  intro s hs
  obtain ⟨k, hk⟩ := Option.isSome_iff_exists.mp (h s (List.mem_filter.mp hs).1)
  exact ⟨k, orRaise_eq_ok.mpr hk⟩

/-- **The sort asks for the start of every session.** -/
theorem sortKeys_ok_iff : (∃ keys, r.sortKeys = .ok keys) ↔
    ∀ s ∈ r.sessions.values, s.sessionStartNs.neg?.isSome = true := by
  constructor
  · intro h s hs
    obtain ⟨keys, hkeys⟩ := h
    obtain ⟨key, -, hkey⟩ := Fallible.exists_of_mem hkeys hs
    obtain ⟨start, hstart, -⟩ := Fallible.bind_eq_ok.mp hkey
    rw [orRaise_eq_ok.mp hstart]
    rfl
  · intro h
    refine Fallible.exists_mapM_eq_ok ?_
    intro s hs
    obtain ⟨start, hstart⟩ := Option.isSome_iff_exists.mp (h s hs)
    exact ⟨_, Fallible.bind_eq_ok.mpr ⟨start, orRaise_eq_ok.mpr hstart, rfl⟩⟩

/-! ### Rules that are tried -/

variable {rules : List LooseRule} {processes : List ProcessInfo}

/-- **When the first rule is found**: before a rule that raises on the process
stands one that matches it. -/
theorem firstRule_ok_iff :
    (∃ found, LooseRule.firstRule env rules proc = .ok found) ↔
    ∀ before rule after, rules = before ++ rule :: after →
      (∃ e, rule.ruleMatches env proc = .error e) →
      ∃ earlier ∈ before, earlier.ruleMatches env proc = .ok true := by
  induction rules with
  | nil =>
      exact ⟨fun _ before rule after h => by simp at h, fun _ => ⟨none, rfl⟩⟩
  | cons first rest ih =>
      cases hfirst : first.ruleMatches env proc with
      | error e =>
          constructor
          · intro h
            obtain ⟨found, hfound⟩ := h
            unfold LooseRule.firstRule at hfound
            rw [hfirst] at hfound
            cases hfound
          · intro h
            obtain ⟨earlier, hmem, -⟩ := h [] first rest rfl ⟨e, hfirst⟩
            cases hmem
      | ok matched =>
          cases matched with
          | true =>
              have hfound : LooseRule.firstRule env (first :: rest) proc =
                  .ok (some first) := by
                unfold LooseRule.firstRule
                rw [hfirst]
                rfl
              refine ⟨?_, fun _ => ⟨_, hfound⟩⟩
              intro _ before rule after heq herror
              cases before with
              | nil =>
                  obtain ⟨rfl, rfl⟩ := List.cons.inj heq
                  obtain ⟨e, he⟩ := herror
                  rw [hfirst] at he
                  cases he
              | cons head before =>
                  obtain ⟨rfl, rfl⟩ := List.cons.inj heq
                  exact ⟨first, List.mem_cons_self, hfirst⟩
          | false =>
              have hstep : LooseRule.firstRule env (first :: rest) proc
                  = LooseRule.firstRule env rest proc := by
                conv_lhs => unfold LooseRule.firstRule
                rw [hfirst]
                rfl
              rw [hstep, ih]
              constructor
              · intro h before rule after heq herror
                cases before with
                | nil =>
                    obtain ⟨rfl, rfl⟩ := List.cons.inj heq
                    obtain ⟨e, he⟩ := herror
                    rw [hfirst] at he
                    cases he
                | cons head before =>
                    obtain ⟨rfl, rfl⟩ := List.cons.inj heq
                    obtain ⟨earlier, hmem, hearlier⟩ :=
                      h before rule after rfl herror
                    exact ⟨earlier, List.mem_cons_of_mem _ hmem, hearlier⟩
              · intro h before rule after heq herror
                obtain ⟨earlier, hmem, hearlier⟩ :=
                  h (first :: before) rule after (by rw [heq]; rfl) herror
                rcases List.mem_cons.mp hmem with rfl | hmem
                · rw [hfirst] at hearlier
                  cases hearlier
                · exact ⟨earlier, hmem, hearlier⟩

/-- The rule that is found is one that matches. -/
theorem firstRule_eq_some
    (h : LooseRule.firstRule env rules proc = .ok (some rule)) :
    rule ∈ rules ∧ rule.ruleMatches env proc = .ok true := by
  induction rules with
  | nil => cases h
  | cons first rest ih =>
      unfold LooseRule.firstRule at h
      obtain ⟨matched, hmatched, h⟩ := Fallible.bind_eq_ok.mp h
      cases matched with
      | true =>
          obtain rfl := Option.some.inj (Except.ok.inj h)
          exact ⟨List.mem_cons_self, hmatched⟩
      | false =>
          obtain ⟨hmem, hrule⟩ := ih h
          exact ⟨List.mem_cons_of_mem _ hmem, hrule⟩

/-- No rule is found where none matches. -/
theorem firstRule_eq_none (h : LooseRule.firstRule env rules proc = .ok none) :
    ∀ rule ∈ rules, rule.ruleMatches env proc = .ok false := by
  induction rules with
  | nil => exact List.forall_mem_nil _
  | cons first rest ih =>
      unfold LooseRule.firstRule at h
      obtain ⟨matched, hmatched, h⟩ := Fallible.bind_eq_ok.mp h
      cases matched with
      | true => cases h
      | false => exact List.forall_mem_cons.mpr ⟨hmatched, ih h⟩

/-- **All processes are resolved** where each of them is, and to rules that
match. -/
theorem resolve_ok
    (h : ∀ p, ∃ found, LooseRule.firstRule env rules p = .ok found) :
    ∃ hits, LooseRule.resolve env rules processes = .ok hits ∧
      ∀ hit ∈ hits.items, ∃ p, hit.2 ∈ rules ∧
        hit.2.ruleMatches env p = .ok true := by
  refine Fallible.exists_foldlM_eq_ok ?_ (List.forall_mem_nil _)
  intro hits hhits p _
  obtain ⟨found, hfound⟩ := h p
  cases found with
  | none => exact ⟨hits, Fallible.bind_eq_ok.mpr ⟨none, hfound, rfl⟩, hhits⟩
  | some rule =>
      refine ⟨hits.insert p.pid rule,
        Fallible.bind_eq_ok.mpr ⟨some rule, hfound, rfl⟩, ?_⟩
      intro hit hhit
      have hget := OrderedDict.get?_eq_some_iff.mpr hhit
      rw [OrderedDict.get?_insert] at hget
      split at hget
      case isTrue =>
        obtain heq := Option.some.inj hget
        rw [← heq]
        exact ⟨p, firstRule_eq_some hfound⟩
      case isFalse => exact hhits hit (OrderedDict.get?_eq_some_iff.mp hget)

end Telemetryd
