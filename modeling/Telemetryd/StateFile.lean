import Telemetryd.RefreshedSessions
import Telemetryd.SharedTargets

/-!
# The state file

`_save` writes each rule and session as a JSON object and `_load` reads them
back.  The two choose the fields independently: one leaves out two fields by
name, the other takes those the dataclass has.  The objects are lists of named
values here; JSON itself is taken to give back what was written.

The rules are a dictionary from kind and value to adapter that survives a
restart, and the sessions come back finished, in order and with every field that
is written.
-/

namespace Telemetryd

open PyText

/-- A value of a field of a dataclass. -/
inductive FieldValue where
  | none
  | int (i : Int)
  | text (t : PyText)
  | texts (ts : List PyText)
  | measured (m : MeasuredWorkload)
  | groups (gs : List LogicalGroup)

/-- `asdict`: the fields of an object by name. -/
abbrev Fields := List (String × FieldValue)

/-- A text that may be missing. -/
def optionalText : Option PyText → FieldValue
  | Option.none => .none
  | some t => .text t

/-- `asdict` of a rule. -/
def TargetRule.asdict (r : TargetRule) : Fields :=
  [("kind", .text r.kind.text), ("value", .text r.value),
    ("adapter", optionalText r.adapter)]

/-- `asdict` of a session. -/
def Session.asdict (s : Session) : Fields :=
  [("session_id", .text s.sessionId),
    ("pid", .int s.pid),
    ("comm", .text s.comm),
    ("cmdline", .text s.cmdline),
    ("exe_path", .text s.exePath),
    ("adapter", .text s.adapter),
    ("status", .text s.status.text),
    ("start_time_ns", .int s.startTimeNs),
    ("session_start_ns", .int s.sessionStartNs),
    ("session_end_ns", (s.sessionEndNs.map FieldValue.int).getD .none),
    ("devices", .texts s.devices),
    ("thread_count_active", .int s.threadCountActive),
    ("aggregate", (s.aggregate.map FieldValue.measured).getD .none),
    ("logical_groups", .groups s.logicalGroups),
    ("matched_rule", optionalText s.matchedRule)]

/-- The fields that are not written. -/
def unsavedFields : List String := ["logical_groups", "aggregate"]

/-- `Session.__dataclass_fields__`. -/
def sessionFields : List String :=
  ["session_id", "pid", "comm", "cmdline", "exe_path", "adapter", "status",
    "start_time_ns",
    "session_start_ns", "session_end_ns", "devices", "thread_count_active",
    "aggregate",
    "logical_groups", "matched_rule"]

/-- The fields of a session that are saved: without its measurements and
groups. -/
def Session.saved (s : Session) : Fields :=
  s.asdict.filter (fun f => decide (f.1 ∉ unsavedFields))

/-- The content of the state file. -/
structure StateFile where
  rules : List Fields
  sessions : List Fields

/-- The file that `_save` writes. -/
def Registry.stateFile (r : Registry) : StateFile where
  rules := r.rules.map TargetRule.asdict
  sessions := (lastSlice r.maxFinished r.sessions.values).map Session.saved

/-! ### Reading it -/

/-- The text of a field, if it is one. -/
def FieldValue.text? : FieldValue → Option PyText
  | .text t => some t
  | _ => Option.none

/-- The integer of a field, if it is one. -/
def FieldValue.int? : FieldValue → Option Int
  | .int i => some i
  | _ => Option.none

/-- The texts of a field, if it has texts. -/
def FieldValue.texts? : FieldValue → Option (List PyText)
  | .texts ts => some ts
  | _ => Option.none

/-- `None` or a value of one type. -/
def FieldValue.optional? {α : Type} (read : FieldValue → Option α) :
    FieldValue → Option (Option α)
  | .none => some Option.none
  | v => (read v).map some

/-- The measurement of a field, if it is one. -/
def FieldValue.measured? : FieldValue → Option MeasuredWorkload
  | .measured m => some m
  | _ => Option.none

/-- The groups of a field, if it has groups. -/
def FieldValue.groups? : FieldValue → Option (List LogicalGroup)
  | .groups gs => some gs
  | _ => Option.none

/-- A field that has to be there. -/
def Fields.required {α : Type} (fs : Fields) (name : String)
    (read : FieldValue → Option α) :
    Option α :=
  (fs.lookup name).bind read

/-- A field with a default. -/
def Fields.withDefault {α : Type} (fs : Fields) (name : String)
    (read : FieldValue → Option α)
    (dflt : α) : Option α :=
  match fs.lookup name with
  | some v => read v
  | Option.none => some dflt

/-- The status with a name. -/
def SessionStatus.ofText? (t : PyText) : Option SessionStatus :=
  if t = "active".toList then some .active
  else if t = "finished".toList then some .finished
  else Option.none

/-- `Session(**fields)` on the fields the dataclass has.  The defaults are those
of the dataclass; an object without a field that has none is left out. -/
def Session.ofFields (fields : Fields) : Option Session := do
  let fs : Fields := fields.filter (fun f => decide (f.1 ∈ sessionFields))
  let sessionId ← fs.required "session_id" FieldValue.text?
  let pid ← fs.required "pid" FieldValue.int?
  let comm ← fs.required "comm" FieldValue.text?
  let cmdline ← fs.required "cmdline" FieldValue.text?
  let exePath ← fs.withDefault "exe_path" FieldValue.text? []
  let adapter ← fs.withDefault "adapter" FieldValue.text? "generic".toList
  let status ← fs.withDefault "status" (fun v =>
    v.text?.bind SessionStatus.ofText?) .active
  let startTimeNs ← fs.withDefault "start_time_ns" FieldValue.int? 0
  let sessionStartNs ← fs.withDefault "session_start_ns" FieldValue.int? 0
  let sessionEndNs ← fs.withDefault "session_end_ns"
    (FieldValue.optional? FieldValue.int?) none
  let devices ← fs.withDefault "devices" FieldValue.texts? []
  let threadCountActive ← fs.withDefault "thread_count_active" FieldValue.int? 0
  let aggregate ← fs.withDefault "aggregate"
    (FieldValue.optional? FieldValue.measured?) none
  let logicalGroups ← fs.withDefault "logical_groups" FieldValue.groups? []
  let matchedRule ← fs.withDefault "matched_rule"
    (FieldValue.optional? FieldValue.text?) none
  return { sessionId, pid, comm, cmdline, exePath, adapter, status, startTimeNs,
           sessionStartNs,
           sessionEndNs, devices, threadCountActive, aggregate, logicalGroups,
           matchedRule }

/-- The kind of a rule with a name, an unknown one included. -/
def RuleKind.ofText (t : PyText) : RuleKind :=
  if t = "pid".toList then .pid
  else if t = "name".toList then .name
  else if t = "name_pattern".toList then .namePattern
  else if t = "cmdline_pattern".toList then .cmdlinePattern
  else .other t

/-- A rule of the file.  In an object that `_save` has written no field is
missing. -/
def TargetRule.ofFields (fs : Fields) : Option TargetRule := do
  let kind ← fs.required "kind" FieldValue.text?
  let value ← fs.required "value" FieldValue.text?
  let adapter ← fs.withDefault "adapter" (FieldValue.optional? FieldValue.text?)
    none
  return ⟨RuleKind.ofText kind, value, adapter⟩

/-- What `_load` gets out of the file. -/
def StateFile.payload (f : StateFile) : Payload where
  rules := f.rules.filterMap TargetRule.ofFields
  sessions := f.sessions.filterMap Session.ofFields

/-! ### Round trip of one object -/

/-- The name of a known kind is read as the kind. -/
theorem ofText_text {k : RuleKind} (h : k.valid = true) :
    RuleKind.ofText k.text = k := by
  cases k with
  | other t => cases h
  | pid => rfl
  | name => rfl
  | namePattern => rfl
  | cmdlinePattern => rfl

/-- A rule is read back as it was written. -/
theorem ofFields_asdict {r : TargetRule} (h : r.kind.valid = true) :
    TargetRule.ofFields r.asdict = some r := by
  have hadapter : (optionalText r.adapter).optional? FieldValue.text? =
      some r.adapter := by
    cases r.adapter <;> rfl
  simp [TargetRule.ofFields, TargetRule.asdict, Fields.required,
    Fields.withDefault,
    List.lookup_cons, FieldValue.text?, hadapter, ofText_text h]

/-- A session is read back with the fields that are not written at their
defaults. -/
theorem ofFields_saved (s : Session) :
    Session.ofFields s.saved = some s.persisted := by
  have hmatched : (optionalText s.matchedRule).optional? FieldValue.text? =
      some s.matchedRule := by
    cases s.matchedRule <;> rfl
  have hend : ((s.sessionEndNs.map FieldValue.int).getD .none).optional?
      FieldValue.int?
      = some s.sessionEndNs := by
    cases s.sessionEndNs <;> rfl
  have hstatus : SessionStatus.ofText? s.status.text = some s.status := by
    cases s.status <;> rfl
  simp [Session.ofFields, Session.saved, Session.asdict, unsavedFields,
    sessionFields,
    Fields.required, Fields.withDefault, List.lookup_cons, List.lookup_nil,
    FieldValue.text?, FieldValue.int?,
    FieldValue.texts?, hmatched, hend, hstatus, Session.persisted]

/-- **The file is read as it was written.** -/
theorem payload_stateFile {r : Registry}
    (hk : ∀ rule ∈ r.rules, rule.kind.valid = true) :
    r.stateFile.payload = r.payload := by
  have hrules : (r.rules.map TargetRule.asdict).filterMap TargetRule.ofFields =
      r.rules := by
    rw [List.filterMap_map]
    conv_rhs => rw [← List.filterMap_some (l := r.rules)]
    exact List.filterMap_congr fun rule hrule => ofFields_asdict (hk rule hrule)
  have hsessions : ∀ l : List Session,
      (l.map Session.saved).filterMap Session.ofFields =
        l.map Session.persisted := by
    intro l
    rw [List.filterMap_map, ← List.filterMap_eq_map]
    exact List.filterMap_congr fun s _ => ofFields_saved s
  unfold StateFile.payload Registry.stateFile Registry.payload
  rw [hrules, hsessions]
  rfl

/-! ### Round trip of the registry -/

/-- A registry read back: the rules are the same; the sessions are those of the
file, finished; each identity leads to its session. -/
theorem load_payload {r : Registry} (hv : r.Valid)
    (hk : ∀ rule ∈ r.rules, rule.kind.valid = true)
    (hlen : r.sessions.values.length ≤ r.maxFinished) :
    let l := Registry.load r.maxFinished (some r.payload)
    l.rules = r.rules ∧
    l.sessions.items = r.sessions.items.map (fun e =>
      (e.1, e.2.persisted.adopted)) ∧
    ∀ ident sid, l.byIdentity.get? ident = some sid ↔
      ∃ sess, r.sessions.get? sid = some sess ∧
        (sess.pid, sess.startTimeNs) = ident := by
  intro l
  have hwindow : lastSlice r.maxFinished r.sessions.values =
      r.sessions.values :=
    lastSlice_of_length_le hlen
  have hsync : (⟨r, some r.payload⟩ : Store).InSync :=
    Store.save_inSync (s := ⟨r, none⟩) hk
  obtain ⟨hlv, hcores, hrules, -⟩ :=
    load_spec (s := ⟨r, some r.payload⟩) hv hsync
  have hcores : l.cores = r.cores := by
    have hall : lastSlice r.maxFinished r.cores = r.cores := by
      unfold Registry.cores
      rw [← map_lastSlice, hwindow]
    exact hcores.trans hall
  have hvalues :
      l.sessions.values =
      r.sessions.values.map (fun e => e.persisted.adopted) := by
    have hfold : ∀ (saved : List Session) (acc : Registry),
        (acc.sessions.keys ++ saved.map (·.sessionId)).Nodup →
        (saved.foldl Registry.adopt acc).sessions.values
          = acc.sessions.values ++ saved.map Session.adopted := by
      intro saved
      induction saved with
      | nil => intro acc _; simp
      | cons x saved ih =>
          intro acc hnd
          have hfresh : x.sessionId ∉ acc.sessions.keys := by
            intro hmem
            exact (List.nodup_append.mp hnd).2.2 _ hmem x.sessionId
              (by simp) rfl
          have hkeys :
              (acc.adopt x).sessions.keys =
              acc.sessions.keys ++ [x.sessionId] := by
            simp [Registry.adopt, OrderedDict.keys,
              OrderedDict.items_insert_of_notMem hfresh]
          have hvals :
              (acc.adopt x).sessions.values = acc.sessions.values ++
              [x.adopted] :=
            OrderedDict.values_insert_of_notMem hfresh
          rw [List.foldl_cons, ih (acc.adopt x) (by simpa [hkeys] using hnd),
            hvals]
          simp
    have hids : (r.sessions.values.map (·.sessionId)).Nodup := by
      have := hv.ids_nodup
      simpa [Registry.cores, Function.comp_def, Session.core] using this
    have := hfold (r.sessions.values.map Session.persisted)
      ⟨r.maxFinished, r.payload.rules.filter (fun rule => rule.kind.valid),
        .empty, .empty⟩
      (by simpa [Function.comp_def, Session.persisted] using hids)
    have hpay : r.payload.sessions =
        r.sessions.values.map Session.persisted := by
      unfold Registry.payload
      dsimp only
      rw [hwindow]
      rfl
    have hload :
        l.sessions.values = ((r.sessions.values.map Session.persisted).foldl
        Registry.adopt ⟨r.maxFinished,
          r.payload.rules.filter (fun rule => rule.kind.valid),
          .empty, .empty⟩).sessions.values := by
      rw [← hpay]
      rfl
    rw [hload, this]
    simp [OrderedDict.values, Function.comp_def]
  have hkeys : l.sessions.keys = r.sessions.keys := by
    rw [hlv.keyed, hv.keyed, hcores]
  refine ⟨hrules, ?_, ?_⟩
  · have hzip : ∀ d : OrderedDict PyText Session,
        d.items = d.keys.zip d.values := by
      intro d
      unfold OrderedDict.keys OrderedDict.values
      exact List.zip_of_prod rfl rfl
    rw [hzip l.sessions, hkeys, hvalues, List.zip_map_right, ← hzip]
    rfl
  · intro ident sid
    rw [hlv.identified, hcores]
    constructor
    · rintro ⟨c, hc, hident, hsid⟩
      obtain ⟨sess, hsess, rfl⟩ := hv.exists_session hc
      exact ⟨sess, by rw [← hsid]; exact hsess, hident⟩
    · rintro ⟨sess, hsess, hident⟩
      exact ⟨sess.core, (hv.core_mem hsess).1, hident, (hv.core_mem hsess).2⟩

/-! ### The rules as a dictionary -/

/-- The adapters of the rules, by kind and value, in insertion order. -/
abbrev RuleMap := OrderedDict RuleKey (Option PyText)

/-- What an operation means on the dictionary. -/
def RegistryOp.onRules (d : RuleMap) : RegistryOp → RuleMap
  | .addRule rule =>
      if rule.kind.valid then d.insert rule.key rule.adapter else d
  | .removeRule kind value => d.erase (kind, value)
  | .clearRules => .empty
  | .refresh _ _ _ => d
  | .restart => d

/-- The list of rules has the entries of the dictionary. -/
def Represents (rules : List TargetRule) (d : RuleMap) : Prop :=
  rules.map (fun r => (r.key, r.adapter)) = d.items

/-- Adding a rule puts it into the map. -/
theorem upsertRule_represents {rules : List TargetRule} {d : RuleMap}
    (h : Represents rules d)
    (rule : TargetRule) :
    Represents (upsertRule rule rules) (d.insert rule.key rule.adapter) := by
  have hlist : ∀ l : List TargetRule,
      (upsertRule rule l).map (fun r => (r.key, r.adapter))
      = OrderedDict.upsert rule.key rule.adapter
        (l.map (fun r => (r.key, r.adapter))) := by
    intro l
    induction l with
    | nil => rfl
    | cons r l ih =>
        simp only [upsertRule, List.map_cons, OrderedDict.upsert]
        by_cases hkey : r.key = rule.key
        · rw [if_pos hkey, if_pos hkey, List.map_cons, ← hkey]
          rfl
        · rw [if_neg hkey, if_neg hkey, List.map_cons, ih]
  unfold Represents at h ⊢
  rw [hlist, h]
  rfl

/-- Removing a rule takes it out of the map. -/
theorem filter_represents {rules : List TargetRule} {d : RuleMap}
    (h : Represents rules d)
    (k : RuleKey) :
    Represents (rules.filter (fun r => decide (r.key ≠ k))) (d.erase k) := by
  unfold Represents at h ⊢
  unfold OrderedDict.erase
  dsimp only
  rw [← h, List.filter_map]
  rfl

/-- The rules have the keys of the map. -/
theorem mem_ruleKeys_iff {rules : List TargetRule} {d : RuleMap}
    (h : Represents rules d)
    (k : RuleKey) : k ∈ ruleKeys rules ↔ k ∈ d.keys := by
  unfold OrderedDict.keys ruleKeys
  rw [← h, List.map_map]
  rfl

/-- One operation. -/
theorem apply_represents {plug : Plugins} {s : Store} (hs : s.Good)
    {d : RuleMap}
    (h : Represents s.reg.rules d) {op : RegistryOp} (hop : op.DistinctPids) :
    Represents (op.apply plug s).reg.rules (op.onRules d) := by
  cases op with
  | addRule rule =>
      simp only [RegistryOp.apply, RegistryOp.onRules, addRule]
      by_cases hv : rule.kind.valid = true
      · rw [if_pos hv, if_pos hv]
        exact upsertRule_represents h rule
      · rw [if_neg hv, if_neg hv]
        exact h
  | removeRule kind value =>
      unfold RegistryOp.apply RegistryOp.onRules
      dsimp only
      rw [removeRule_rules]
      exact filter_represents h (kind, value)
  | clearRules => exact rfl
  | refresh clock processes stats =>
      have hrules := (refreshSessions_spec plug clock stats hs hop).1.rules
      exact (congrArg (Represents · d) hrules).mpr h
  | restart =>
      have hrules := (load_spec hs.valid hs.inSync).2.2.1
      exact (congrArg (Represents · d) hrules).mpr h

/-- **After all operations** the rules are those of the map. -/
theorem runOps_represents {plug : Plugins} {s : Store} (hs : s.Good)
    {d : RuleMap}
    (h : Represents s.reg.rules d) {ops : List RegistryOp}
    (hops : ∀ op ∈ ops, op.DistinctPids) :
    Represents (runOps plug s ops).reg.rules
      (ops.foldl RegistryOp.onRules d) := by
  induction ops generalizing s d with
  | nil => exact h
  | cons op ops ih =>
      have hop := hops op List.mem_cons_self
      exact ih (apply_good hs hop) (apply_represents hs h hop)
        (fun o ho => hops o (List.mem_cons_of_mem _ ho))

/-- No operation changes how many sessions are kept. -/
theorem runOps_maxFinished {plug : Plugins} {s : Store} (hs : s.Good)
    {ops : List RegistryOp}
    (hops : ∀ op ∈ ops, op.DistinctPids) :
    (runOps plug s ops).reg.maxFinished = s.reg.maxFinished := by
  induction ops generalizing s with
  | nil => rfl
  | cons op ops ih =>
      have hop := hops op List.mem_cons_self
      refine (ih (apply_good hs hop) fun o ho =>
        hops o (List.mem_cons_of_mem _ ho)).trans ?_
      by_cases h : op = .restart
      · subst h
        exact (apply_restart plug hs).2.2
      · exact (apply_grows plug hs hop h).2.2

/-- **The state file round trip.**  Start where no state file exists and apply
any rule changes, refreshes and restarts.  If the sessions in memory are no more
than the file holds, a registry constructed on the file written now has the same
rules, the same sessions in the same order, finished and without groups and
aggregate, and the identity map of just these sessions.  And the rules are those
of a dictionary that knows nothing of files: adding a rule assigns its adapter,
removing one deletes its key and reports whether it was there, and a rule of an
unknown kind is refused and changes nothing. -/
theorem state_file_round_trip (plug : Plugins) (maxFinished : Nat)
    (ops : List RegistryOp)
    (hops : ∀ op ∈ ops, op.DistinctPids) :
    let s := runOps plug (Store.fresh maxFinished) ops
    let d := ops.foldl RegistryOp.onRules .empty
    (s.reg.sessions.values.length ≤ maxFinished →
      let l := Registry.load maxFinished (some s.reg.stateFile.payload)
      l.rules = s.reg.rules ∧
      l.sessions.items = s.reg.sessions.items.map (fun e =>
        (e.1, { e.2 with status := .finished, logicalGroups := [], aggregate := none })) ∧
      ∀ ident sid, l.byIdentity.get? ident = some sid ↔
        ∃ sess, s.reg.sessions.get? sid = some sess ∧
          (sess.pid, sess.startTimeNs) = ident) ∧
    s.reg.rules.map (fun r => (r.key, r.adapter)) = d.items ∧
    (∀ kind value, (removeRule kind value s).2 =
      decide ((kind, value) ∈ d.keys)) ∧
    ∀ rule, rule.kind.valid = false →
      addRule rule s = .error rule.kind.text ∧
        (RegistryOp.addRule rule).apply plug s = s := by
  intro s d
  have hs : s.Good := runOps_good plug (Store.fresh_good maxFinished) hops
  have hmax : s.reg.maxFinished = maxFinished :=
    runOps_maxFinished (Store.fresh_good maxFinished) hops
  have hrules : Represents s.reg.rules d :=
    runOps_represents (Store.fresh_good maxFinished)
      (show Represents (Store.fresh maxFinished).reg.rules .empty from rfl) hops
  refine ⟨?_, hrules, ?_, ?_⟩
  · intro hlen
    rw [payload_stateFile hs.inSync.kinds]
    have h := load_payload hs.valid hs.inSync.kinds (by rw [hmax]; exact hlen)
    rw [hmax] at h
    exact h
  · intro kind value
    rw [removeRule_snd, decide_eq_decide]
    exact mem_ruleKeys_iff hrules (kind, value)
  · intro rule hv
    have herr : addRule rule s = .error rule.kind.text := by
      unfold addRule
      rw [hv]
      rfl
    refine ⟨herr, ?_⟩
    unfold RegistryOp.apply
    dsimp only
    rw [herr]

/-- A rule added twice and another one, a process observed, and a registry
constructed on the file. -/
theorem state_file_round_trip_readded :
    let ops : List RegistryOp := [.addRule ⟨.name, "fio".toList, none⟩,
      .addRule ⟨.pid, "7".toList, none⟩,
      .addRule ⟨.name, "fio".toList, some "generic".toList⟩,
      .refresh (stillClock 100) [{ pid := 7, comm := "fio".toList, startTimeNs := 1 }] []]
    let s := runOps plainPlugins (Store.fresh 50) ops
    (Registry.load 50 (some s.reg.stateFile.payload)).rules = s.reg.rules ∧
      s.reg.rules.map (fun r => (r.key, r.adapter))
        = [((.name, "fio".toList), some "generic".toList),
          ((.pid, "7".toList), none)] := by
  intro ops s
  have hops : ∀ op ∈ ops, op.DistinctPids := by
    simp [ops, RegistryOp.DistinctPids, DistinctPids]
  have h := state_file_round_trip plainPlugins 50 ops hops
  exact ⟨(h.1 (by decide +kernel)).1, h.2.1.trans (by decide)⟩

end Telemetryd
