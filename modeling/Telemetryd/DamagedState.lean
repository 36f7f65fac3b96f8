import Telemetryd.Lib.Fallible
import Telemetryd.Lib.JsonValue
import Telemetryd.Lib.TwoIndexes
import Telemetryd.StateFile

/-!
# Reading a damaged state file

`_load` on any content of the file, not only on what `_save` writes.  Nothing
checks the types of the fields, so the rules and sessions in memory hold what
JSON had in their place; the operations that come later meet it there.

The rules in memory are those of the entries with a valid kind, and the sessions
are a dictionary by id beside one by identity, filled by the same entries.
-/

namespace Telemetryd

open PyText TwoIndexes

/-- The exceptions of this part of the daemon. -/
inductive RegistryError where
  | attributeError
  | keyError
  | typeError
  | overflowError
  | recursionError
  | unicodeEncodeError
  deriving DecidableEq

/-- A value, or the error that stands for its absence. -/
def orRaise {α : Type} (e : RegistryError) : Option α → Except RegistryError α
  | some a => .ok a
  | none => .error e

/-- What `open` and `json.load` make of the file: an `OSError`, a `ValueError`,
a `RecursionError` for what is nested too deep, or a document. -/
inductive StateContent where
  | unreadable
  | malformed
  | tooDeep
  | document (d : JsonValue)

/-- The fields of a JSON object. -/
abbrev JsonFields := List (JsonText × JsonValue)

/-- `d.get(name)` -/
def fieldOf (fields : JsonFields) (name : String) : Option JsonValue :=
  (fields.find? (fun f => decide (f.1 = JsonText.ofText name.toList))).map
    Prod.snd

/-! ### Rules and sessions with the values of the file -/

/-- A rule of a valid kind. -/
structure LooseRule where
  kind : RuleKind
  value : JsonValue
  adapter : JsonValue

/-- The measured workload of a session: what the file had there, or what a
refresh has put there. -/
inductive LooseAggregate where
  | read (v : JsonValue)
  | measured (m : MeasuredWorkload)

/-- A session as it is read from a file, unchecked. -/
structure LooseSession where
  sessionId : JsonValue
  pid : JsonValue
  comm : JsonValue
  cmdline : JsonValue
  exePath : JsonValue
  adapter : JsonValue
  status : SessionStatus
  startTimeNs : JsonValue
  sessionStartNs : JsonValue
  sessionEndNs : JsonValue
  devices : JsonValue
  threadCountActive : JsonValue
  aggregate : LooseAggregate
  logicalGroups : List LogicalGroup
  matchedRule : JsonValue

/-- The registry over such sessions and rules. -/
structure LooseRegistry where
  maxFinished : Nat
  rules : List LooseRule
  sessions : OrderedDict JsonValue.Key LooseSession
  byIdentity : OrderedDict (JsonValue.Key × JsonValue.Key) JsonValue.Key

/-- `(sess.pid, sess.start_time_ns)` as a key. -/
def LooseSession.identity? (s : LooseSession) :
    Option (JsonValue.Key × JsonValue.Key) := do
  let pid ← s.pid.key?
  let start ← s.startTimeNs.key?
  return (pid, start)

/-- `r.get("kind") in VALID_KINDS` -/
def validKind (fields : JsonFields) : Option RuleKind := do
  let v ← fieldOf fields "kind"
  let t ← v.str?
  let t ← JsonText.toText? t
  if (RuleKind.ofText t).valid then return RuleKind.ofText t else none

/-- The body of the loop over the rules: an entry of another kind is passed
over. -/
def LooseRule.ofEntry (entry : JsonValue) :
    Except RegistryError (Option LooseRule) := do
  let fields ← orRaise .attributeError entry.fields?
  match validKind fields with
  | none => return none
  | some kind =>
      let value ← orRaise .keyError (fieldOf fields "value")
      return some ⟨kind, value, (fieldOf fields "adapter").getD .null⟩

/-- `Session(**fields)` on the fields the dataclass has, brought back as
finished and without its groups. -/
def LooseSession.ofFields (fields : JsonFields) : Option LooseSession := do
  let sessionId ← fieldOf fields "session_id"
  let pid ← fieldOf fields "pid"
  let comm ← fieldOf fields "comm"
  let cmdline ← fieldOf fields "cmdline"
  return { sessionId, pid, comm, cmdline
           exePath := (fieldOf fields "exe_path").getD (.ofText [])
           adapter := (fieldOf fields "adapter").getD (.ofText "generic".toList)
           status := .finished
           startTimeNs := (fieldOf fields "start_time_ns").getD (.int 0)
           sessionStartNs := (fieldOf fields "session_start_ns").getD (.int 0)
           sessionEndNs := (fieldOf fields "session_end_ns").getD .null
           devices := (fieldOf fields "devices").getD (.arr [])
           threadCountActive :=
             (fieldOf fields "thread_count_active").getD (.int 0)
           aggregate := .read ((fieldOf fields "aggregate").getD .null)
           logicalGroups := []
           matchedRule := (fieldOf fields "matched_rule").getD .null }

/-- A session is stored under its id, if that can be a key, before its identity
is looked at. -/
def LooseRegistry.adopt (r : LooseRegistry) (sess : LooseSession) :
    LooseRegistry :=
  match sess.sessionId.key? with
  | none => r
  | some sid =>
      { r with
        sessions := r.sessions.insert sid sess
        byIdentity := match sess.identity? with
          | none => r.byIdentity
          | some ident => r.byIdentity.insert ident sid }

/-- The body of the loop over the sessions: a `TypeError` is caught, that of a
missing field as well as that of a value that cannot be a key. -/
def LooseRegistry.adoptEntry (r : LooseRegistry) (entry : JsonValue) :
    Except RegistryError LooseRegistry := do
  let fields ← orRaise .attributeError entry.fields?
  match LooseSession.ofFields fields with
  | none => return r
  | some sess => return r.adopt sess

/-- What `for x in data.get(name, [])` goes through. -/
def listed (fields : JsonFields) (name : String) : Option (List JsonValue) :=
  ((fieldOf fields name).getD (.arr [])).elements?

/-- `TargetRegistry(path)` -/
def LooseRegistry.load (maxFinished : Nat) :
    StateContent → Except RegistryError LooseRegistry
  | .unreadable => .ok ⟨maxFinished, [], .empty, .empty⟩
  | .malformed => .ok ⟨maxFinished, [], .empty, .empty⟩
  | .tooDeep => .error .recursionError
  | .document d => do
      let fields ← orRaise .attributeError d.fields?
      let ruleEntries ← orRaise .typeError (listed fields "rules")
      let rules ← ruleEntries.mapM LooseRule.ofEntry
      let sessionEntries ← orRaise .typeError (listed fields "sessions")
      sessionEntries.foldlM LooseRegistry.adoptEntry ⟨maxFinished,
        rules.filterMap id, .empty, .empty⟩

/-! ### What the entries say -/

/-- The rule of an entry, if it is one. -/
def ruleOf (entry : JsonValue) : Option LooseRule := do
  let fields ← entry.fields?
  let kind ← validKind fields
  let value ← fieldOf fields "value"
  return ⟨kind, value, (fieldOf fields "adapter").getD .null⟩

/-- The session of an entry, with the id it is stored under. -/
def sessionOf (entry : JsonValue) : Option (JsonValue.Key × LooseSession) := do
  let fields ← entry.fields?
  let sess ← LooseSession.ofFields fields
  let sid ← sess.sessionId.key?
  return (sid, sess)

/-- The sessions of a file, of the entries that can be read as one. -/
def sessionsOf (entries : List JsonValue) :
    List (JsonValue.Key × LooseSession) :=
  entries.filterMap sessionOf

/-- The registry of the entries of a document. -/
def registryOf (maxFinished : Nat)
    (ruleEntries sessionEntries : List JsonValue) : LooseRegistry where
  maxFinished := maxFinished
  rules := ruleEntries.filterMap ruleOf
  sessions := byKey (sessionsOf sessionEntries)
  byIdentity := byIndex LooseSession.identity? (sessionsOf sessionEntries)

/-! ### Which documents are read -/

/-- An entry the loop over the rules gets past. -/
def ReadableRule (entry : JsonValue) : Prop :=
  ∃ fields, entry.fields? = some fields ∧
    ((validKind fields).isSome → (fieldOf fields "value").isSome)

theorem orRaise_eq_ok {α : Type} {e : RegistryError} {o : Option α} {a : α} :
    orRaise e o = .ok a ↔ o = some a := by
  cases o with
  | none => exact ⟨nofun, nofun⟩
  | some b =>
      exact ⟨fun h => congrArg some (Except.ok.inj h), fun h =>
        congrArg _ (Option.some.inj h)⟩

theorem ofEntry_eq_ok (entry : JsonValue) (o : Option LooseRule) :
    LooseRule.ofEntry entry = .ok o ↔ ReadableRule entry ∧
      o = ruleOf entry := by
  unfold LooseRule.ofEntry ReadableRule ruleOf
  rw [Fallible.bind_eq_ok]
  simp only [orRaise_eq_ok]
  cases hfields : entry.fields? with
  | none => simp
  | some fields =>
      simp only [Option.some.injEq, exists_eq_left', Option.bind_eq_bind,
        Option.bind_some]
      cases hkind : validKind fields with
      | none =>
          exact ⟨fun h => ⟨nofun, (Except.ok.inj h).symm⟩, fun h =>
            congrArg _ h.2.symm⟩
      | some kind =>
          dsimp only
          rw [Fallible.bind_eq_ok]
          simp only [orRaise_eq_ok]
          cases hvalue : fieldOf fields "value" with
          | none => simp
          | some value =>
              simp only [Option.some.injEq, exists_eq_left', Option.bind_some]
              exact ⟨fun h => ⟨fun _ => rfl, (Except.ok.inj h).symm⟩, fun h =>
                congrArg _ h.2.symm⟩

/-- The registry after an entry. -/
def LooseRegistry.adopted (r : LooseRegistry) (entry : JsonValue) :
    LooseRegistry :=
  match sessionOf entry with
  | none => r
  | some e =>
      { r with
        sessions := r.sessions.insert e.1 e.2
        byIdentity := match e.2.identity? with
          | none => r.byIdentity
          | some ident => r.byIdentity.insert ident e.1 }

theorem adoptEntry_eq_ok (r : LooseRegistry) (entry : JsonValue)
    (r' : LooseRegistry) :
    r.adoptEntry entry = .ok r' ↔ entry.fields?.isSome = true ∧
      r' = r.adopted entry := by
  unfold LooseRegistry.adoptEntry LooseRegistry.adopted sessionOf
  cases hfields : entry.fields? with
  | none => simp [orRaise, bind, Except.bind]
  | some fields =>
      cases hsess : LooseSession.ofFields fields with
      | none =>
          simp [orRaise, bind, Except.bind, pure, Except.pure, hsess, eq_comm]
      | some sess =>
          cases hid : sess.sessionId.key? with
          | none =>
              simp [orRaise, bind, Except.bind, pure, Except.pure, hsess, hid,
                LooseRegistry.adopt, eq_comm]
          | some sid =>
              simp [orRaise, bind, Except.bind, pure, Except.pure, hsess, hid,
                LooseRegistry.adopt, eq_comm]

/-- The sessions of the entries, one after the other. -/
theorem foldl_adopted (entries : List JsonValue) (r : LooseRegistry) :
    entries.foldl LooseRegistry.adopted r = { r with
      sessions := r.sessions.insertAll (sessionsOf entries)
      byIdentity :=
        r.byIdentity.insertAll
        (pairs LooseSession.identity? (sessionsOf entries)) } := by
  induction entries generalizing r with
  | nil => rfl
  | cons entry entries ih =>
      rw [List.foldl_cons, ih]
      unfold LooseRegistry.adopted sessionsOf
      cases hentry : sessionOf entry with
      | none => rw [List.filterMap_cons_none hentry]
      | some e =>
          rw [List.filterMap_cons_some hentry]
          cases hident : e.2.identity? with
          | none => simp [pairs, hident, OrderedDict.insertAll]
          | some ident => simp [pairs, hident, OrderedDict.insertAll]

/-- **What is read.**  A document is read when it is an object, its rules and
sessions can be gone through, and no entry raises; the registry is that of the
entries. -/
theorem load_document_eq_ok {m : Nat} {d : JsonValue} {reg : LooseRegistry} :
    LooseRegistry.load m (.document d) = .ok reg ↔ ∃ fields rules sessions,
      d.fields? = some fields ∧ listed fields "rules" = some rules ∧
      listed fields "sessions" = some sessions ∧ (∀ r ∈ rules, ReadableRule r) ∧
      (∀ s ∈ sessions, s.fields?.isSome = true) ∧
        reg = registryOf m rules sessions := by
  have hresult : ∀ rules sessions : List JsonValue,
      sessions.foldl LooseRegistry.adopted
        ⟨m, (rules.map ruleOf).filterMap id, .empty, .empty⟩ =
          registryOf m rules sessions := by
    intro rules sessions
    rw [foldl_adopted]
    unfold registryOf byKey byIndex
    rw [List.filterMap_map]
    rfl
  unfold LooseRegistry.load
  simp only [Fallible.bind_eq_ok, orRaise_eq_ok,
    Fallible.mapM_eq_ok_map ofEntry_eq_ok,
    Fallible.foldlM_eq_ok_foldl adoptEntry_eq_ok]
  constructor
  · intro h
    obtain ⟨fields, hfields, rules, hrules, _, ⟨hread, rfl⟩, sessions,
      hsessions, hobjects, rfl⟩ := h
    exact ⟨fields, rules, sessions, hfields, hrules, hsessions, hread, hobjects,
      hresult _ _⟩
  · intro h
    obtain ⟨fields, rules, sessions, hfields, hrules, hsessions, hread,
      hobjects, rfl⟩ := h
    exact ⟨fields, hfields, rules, hrules, _, ⟨hread, rfl⟩, sessions, hsessions,
      hobjects,
      (hresult _ _).symm⟩

end Telemetryd
