import Telemetryd.DamagedRecovery

/-!
# The state file of the daemon itself

What `_save` writes is a document with sound entries, so the daemon recovers
from its own file; only a pattern that makes the engine raise can still stop a
refresh. What is read from it, with the values of the file in place of texts and
numbers, is what the registry with typed fields reads.
-/

namespace Telemetryd

open PyText TwoIndexes

/-! ### The file as JSON -/

/-- A value that is written; the two kinds that are left out are in no field of
the file. -/
def FieldValue.json? : FieldValue → Option JsonValue
  | .none => some .null
  | .int i => some (.int i)
  | .text t => some (.ofText t)
  | .texts ts => some (.ofTexts ts)
  | .measured _ => Option.none
  | .groups _ => Option.none

/-- An integer is a number of the file. -/
@[simp] theorem json_int (i : Int) : (FieldValue.int i).json? = some (.int i) :=
  rfl

/-- A text is a string of the file. -/
@[simp] theorem json_text (t : PyText) :
    (FieldValue.text t).json? = some (.ofText t) := rfl

/-- A list of texts is an array of strings. -/
@[simp] theorem json_texts (ts : List PyText) :
    (FieldValue.texts ts).json? = some (.ofTexts ts) := rfl

/-- The fields of an object, as the encoder writes them. -/
def Fields.written (fs : Fields) : JsonFields :=
  fs.filterMap (fun f =>
    f.2.json?.map (fun v => (JsonText.ofText f.1.toList, v)))

/-- The object that the encoder writes for some fields. -/
def Fields.json (fs : Fields) : JsonValue := .obj fs.written

/-- The whole file, as the encoder writes it. -/
def StateFile.json (f : StateFile) : JsonValue :=
  .obj [(JsonText.ofText "rules".toList, .arr (f.rules.map Fields.json)),
    (JsonText.ofText "sessions".toList, .arr (f.sessions.map Fields.json))]

/-- A text that may be missing: a string or null. -/
def optionalJson : Option PyText → JsonValue
  | none => .null
  | some t => .ofText t

/-- A rule, as it is read back without checks. -/
def TargetRule.loose (r : TargetRule) : LooseRule :=
  ⟨r.kind, .ofText r.value, optionalJson r.adapter⟩

/-- A session, as it is read back without checks. -/
def Session.loose (s : Session) : LooseSession where
  sessionId := .ofText s.sessionId
  pid := .int s.pid
  comm := .ofText s.comm
  cmdline := .ofText s.cmdline
  exePath := .ofText s.exePath
  adapter := .ofText s.adapter
  status := s.status
  startTimeNs := .int s.startTimeNs
  sessionStartNs := .int s.sessionStartNs
  sessionEndNs := (s.sessionEndNs.map JsonValue.int).getD .null
  devices := .ofTexts s.devices
  threadCountActive := .int s.threadCountActive
  aggregate := match s.aggregate with
    | none => .read .null
    | some m => .measured m
  logicalGroups := s.logicalGroups
  matchedRule := optionalJson s.matchedRule

/-- Two keys are the same text exactly when they are the same name. -/
theorem name_eq_iff {a b : String} :
    JsonText.ofText a.toList = JsonText.ofText b.toList ↔ a = b :=
  ⟨fun h => String.toList_injective (JsonText.ofText_injective h),
    fun h => by rw [h]⟩

/-- The fields of the file are found under their names. -/
theorem fieldOf_written {fs : Fields} (h : (fs.map Prod.fst).Nodup)
    (name : String) :
    fieldOf fs.written name = (fs.lookup name).bind FieldValue.json? := by
  unfold fieldOf Fields.written
  induction fs with
  | nil => rfl
  | cons f fs ih =>
      obtain ⟨hfresh, hnd⟩ := List.nodup_cons.mp h
      obtain ⟨field, value⟩ := f
      have hrest := ih hnd
      by_cases hname : name = field
      · subst hname
        have hnone : fs.lookup name = none := by
          refine List.lookup_eq_none_iff.mpr ?_
          intro e he
          have hmem : e.1 ∈ fs.map Prod.fst := List.mem_map_of_mem he
          have hne : name ≠ e.1 := by
            intro heq
            rw [← heq] at hmem
            exact hfresh hmem
          simpa using hne
        rw [hnone, Option.bind_none] at hrest
        cases hvalue : value.json? with
        | none =>
            rw [List.filterMap_cons_none (by rw [hvalue]; rfl), hrest]
            simp [hvalue]
        | some v =>
            rw [List.filterMap_cons_some (by rw [hvalue]; rfl)]
            simp [hvalue]
      · have hlookup : ((field, value) :: fs).lookup name = fs.lookup name := by
          rw [List.lookup_cons, beq_false_of_ne hname]
        rw [hlookup, ← hrest]
        cases hvalue : value.json? with
        | none => rw [List.filterMap_cons_none (by rw [hvalue]; rfl)]
        | some v =>
            have hkey : JsonText.ofText field.toList ≠
                JsonText.ofText name.toList :=
              fun heq => hname (name_eq_iff.mp heq).symm
            rw [List.filterMap_cons_some (by rw [hvalue]; rfl),
              List.find?_cons_of_neg (by simpa using hkey)]

/-- A text that may be missing is written as it is read. -/
theorem json_optionalText (t : Option PyText) :
    (optionalText t).json? = some (optionalJson t) := by
  cases t <;> rfl

/-- A rule that is written is read back. -/
theorem ruleOf_asdict {r : TargetRule} (hk : r.kind.valid = true) :
    ruleOf r.asdict.json = some r.loose := by
  have hfield : ∀ name, fieldOf r.asdict.written name =
      (r.asdict.lookup name).bind FieldValue.json? :=
    fieldOf_written (by simp [TargetRule.asdict])
  have hkind : validKind r.asdict.written = some r.kind := by
    unfold validKind
    rw [hfield]
    simp [TargetRule.asdict, JsonValue.str?, JsonValue.ofText,
      ofText_text hk, hk]
  refine ruleOf_eq_some.mpr ⟨r.asdict.written, rfl, hkind, ?_, ?_⟩
  · rw [hfield]
    simp [TargetRule.asdict, List.lookup_cons, TargetRule.loose]
  · rw [hfield]
    simp [TargetRule.asdict, List.lookup_cons, json_optionalText,
      TargetRule.loose]

/-- A session that is written is read back, finished. -/
theorem sessionOf_saved (s : Session) :
    sessionOf s.saved.json =
      some (textKey s.sessionId, s.persisted.adopted.loose) := by
  have hfield : ∀ name, fieldOf s.saved.written name =
      (s.saved.lookup name).bind FieldValue.json? :=
    fieldOf_written (by simp [Session.saved, Session.asdict, unsavedFields])
  have hend : ((s.sessionEndNs.map FieldValue.int).getD .none).json?
      = some ((s.sessionEndNs.map JsonValue.int).getD .null) := by
    cases s.sessionEndNs <;> rfl
  have hsess : LooseSession.ofFields s.saved.written =
      some s.persisted.adopted.loose := by
    unfold LooseSession.ofFields
    simp only [hfield]
    simp [Session.saved, Session.asdict, unsavedFields, List.lookup_cons,
      json_optionalText, hend,
      Session.loose, Session.persisted, Session.adopted]
  unfold sessionOf
  have hfields : s.saved.json.fields? = some s.saved.written := rfl
  simp [hfields, hsess, Session.loose, Session.persisted, Session.adopted,
    JsonValue.key?,
    JsonValue.ofText, textKey]

/-! ### The daemon and its own file -/

/-- A text that may be missing is always written. -/
theorem saves_optionalJson (env : Surroundings) (t : Option PyText) :
    env.Saves (optionalJson t) := by
  cases t with
  | none => exact saves_null env
  | some t => exact saves_ofText env t

/-- A rule that was read from a rule can be saved again. -/
theorem rule_savable (env : Surroundings) (r : TargetRule) :
    r.loose.Savable env := by
  unfold LooseRule.Savable LooseRule.written TargetRule.loose
  simp only [List.forall_mem_cons, saves_ofText, saves_optionalJson, true_and]
  exact List.forall_mem_nil _

/-- So can a session. -/
theorem session_savable (env : Surroundings) (s : Session) :
    s.loose.Savable env := by
  have hend : env.Saves ((s.sessionEndNs.map JsonValue.int).getD .null) := by
    cases s.sessionEndNs with
    | none => exact saves_null env
    | some n => exact saves_int env n
  have hwritten : ∀ v ∈ s.loose.written, env.Saves v := by
    unfold LooseSession.written Session.loose
    simp only [List.forall_mem_cons, saves_ofText, saves_int, saves_ofTexts,
      saves_optionalJson,
      hend, true_and]
    exact List.forall_mem_nil _
  refine ⟨hwritten, ?_⟩
  unfold LooseSession.copied
  cases haggregate : s.aggregate with
  | none =>
      have hread : s.loose.aggregate = .read .null := by
        unfold Session.loose
        rw [haggregate]
      rw [hread]
      exact List.forall_mem_cons.mpr ⟨(saves_null env).1, fun v hv =>
        (hwritten v hv).1⟩
  | some m =>
      have hmeasured : s.loose.aggregate = .measured m := by
        unfold Session.loose
        rw [haggregate]
      rw [hmeasured]
      exact fun v hv => (hwritten v hv).1

section

variable {r : Registry}

/-- The sessions in the file, each under its id. -/
theorem sessionsOf_stateFile (r : Registry) :
    sessionsOf (r.stateFile.sessions.map Fields.json)
      = (lastSlice r.maxFinished r.sessions.values).map
          (fun s => (textKey s.sessionId, s.persisted.adopted.loose)) := by
  unfold sessionsOf Registry.stateFile
  rw [List.map_map, List.filterMap_map, ← List.filterMap_eq_map]
  exact List.filterMap_congr fun s _ => sessionOf_saved s

/-- The rules of a written file are read as they were. -/
theorem rules_stateFile (hk : ∀ rule ∈ r.rules, rule.kind.valid = true) :
    (r.stateFile.rules.map Fields.json).filterMap ruleOf =
      r.rules.map TargetRule.loose := by
  unfold Registry.stateFile
  rw [List.map_map, List.filterMap_map, ← List.filterMap_eq_map]
  exact List.filterMap_congr fun rule hrule => ruleOf_asdict (hk rule hrule)

/-- Two sessions in the file with one id or one identity are one session. -/
theorem saved_unique (hv : r.Valid) {s t : Session}
    (hs : s ∈ lastSlice r.maxFinished r.sessions.values)
    (ht : t ∈ lastSlice r.maxFinished r.sessions.values) :
    (s.sessionId = t.sessionId ↔
      (s.pid, s.startTimeNs) = (t.pid, t.startTimeNs)) ∧
      (s.sessionId = t.sessionId → s = t) := by
  have hmem : ∀ u ∈ lastSlice r.maxFinished r.sessions.values,
      u.core ∈ r.cores :=
    fun u hu => List.mem_map_of_mem ((lastSlice_suffix _ _).subset hu)
  have hid : s.sessionId = t.sessionId → s = t := by
    intro heq
    obtain ⟨k, hk⟩ :=
      OrderedDict.mem_values_iff.mp ((lastSlice_suffix _ _).subset hs)
    obtain ⟨j, hj⟩ :=
      OrderedDict.mem_values_iff.mp ((lastSlice_suffix _ _).subset ht)
    have hkj : k = j := by rw [← hv.sessionId_eq hk, ← hv.sessionId_eq hj, heq]
    rw [hkj, hj] at hk
    exact (Option.some.inj hk).symm
  refine ⟨⟨fun heq => by rw [hid heq], ?_⟩, hid⟩
  intro heq
  have hcore : s.core = t.core :=
    hv.core_eq_of_identity (hmem s hs) (hmem t ht) heq
  exact congrArg SessionCore.sessionId hcore

/-- Different texts are different keys. -/
theorem textKey_injective : Function.Injective textKey :=
  fun _ _ h => JsonText.ofText_injective (JsonValue.Key.text.inj h)

/-- **The file of the daemon itself** has sound entries, if the engine takes the
patterns of the rules. -/
theorem soundContent_stateFile {env : Surroundings} (hv : r.Valid)
    (hk : ∀ rule ∈ r.rules, rule.kind.valid = true)
    (hengine : ∀ rule ∈ r.rules, ∃ rx,
      env.reCompile (JsonText.ofText rule.value) = .ok rx)
    (m : Nat) : SoundContent env m (.document r.stateFile.json) := by
  have hsessions := sessionsOf_stateFile r
  have hrules := rules_stateFile hk
  have hmem : ∀ a ∈ sessionsOf (r.stateFile.sessions.map Fields.json),
      ∃ s ∈ lastSlice r.maxFinished r.sessions.values,
        a = (textKey s.sessionId, s.persisted.adopted.loose) := by
    intro a ha
    rw [hsessions] at ha
    obtain ⟨s, hs, rfl⟩ := List.mem_map.mp ha
    exact ⟨s, hs, rfl⟩
  have hident : ∀ s : Session, s.persisted.adopted.loose.identity?
      = some (.num s.pid, .num s.startTimeNs) := fun s => rfl
  refine ⟨_, _, _, rfl, rfl, rfl, ?_⟩
  refine
    { typed := ?_, objects := ?_, keyed := ?_, timed := ?_, agree := ?_,
      last := ?_,
      guarded := ?_, savable := ?_ }
  · intro entry hentry
    obtain ⟨fields, hfields, rfl⟩ := List.mem_map.mp hentry
    obtain ⟨rule, hrule, rfl⟩ := List.mem_map.mp hfields
    obtain ⟨fs, hfs, -, hvalue, -⟩ :=
      ruleOf_eq_some.mp (ruleOf_asdict (hk rule hrule))
    exact ⟨fs, hfs, fun _ => ⟨_, hvalue⟩⟩
  · intro entry hentry
    obtain ⟨fields, -, rfl⟩ := List.mem_map.mp hentry
    rfl
  · intro a ha
    obtain ⟨s, -, rfl⟩ := hmem a ha.mem
    rfl
  · intro a ha
    obtain ⟨s, -, rfl⟩ := hmem a ha.mem
    rfl
  · intro a b ha hb
    obtain ⟨s, hs, rfl⟩ := hmem a ha.mem
    obtain ⟨t, ht, rfl⟩ := hmem b hb.mem
    rw [textKey_injective.eq_iff, (saved_unique hv hs ht).1, hident, hident]
    simp
  · intro entry hentry _ e he
    have hin : e ∈ sessionsOf (r.stateFile.sessions.map Fields.json) :=
      List.mem_filterMap.mpr ⟨entry, hentry, he⟩
    obtain ⟨a, ha, heq⟩ := exists_lastByKey hin
    obtain ⟨s, hs, rfl⟩ := hmem a ha.mem
    obtain ⟨t, ht, rfl⟩ := hmem e hin
    obtain rfl := (saved_unique hv hs ht).2 (textKey_injective heq)
    exact ha
  · intro before rule after heq htrips
    have hin : rule ∈ r.rules.map TargetRule.loose := by
      rw [← hrules, heq]
      simp
    obtain ⟨typed, htyped, rfl⟩ := List.mem_map.mp hin
    obtain ⟨-, t, e, ht, he⟩ := htrips
    obtain ⟨rx, hrx⟩ := hengine typed htyped
    obtain rfl := JsonValue.str.inj ht
    rw [hrx] at he
    cases he
  · intro _
    rw [hrules]
    refine ⟨?_, ?_⟩
    · intro rule hrule
      obtain ⟨typed, -, rfl⟩ := List.mem_map.mp hrule
      exact rule_savable env typed
    · intro s hs
      obtain ⟨k, hk⟩ := OrderedDict.mem_values_iff.mp (recent_subset _ _ hs)
      obtain ⟨t, -, heq⟩ := hmem _ (get?_byKey.mp hk).mem
      rw [(Prod.mk.inj heq).2]
      exact session_savable env _

/-- The dictionaries of a typed registry that takes sessions over. -/
theorem adopt_insertAll (saved : List Session) (acc : Registry) :
    (saved.foldl Registry.adopt acc).sessions
        = acc.sessions.insertAll (saved.map (fun s =>
          (s.sessionId, s.adopted))) ∧
      (saved.foldl Registry.adopt acc).byIdentity
        = acc.byIdentity.insertAll (saved.map (fun s =>
          ((s.pid, s.startTimeNs), s.sessionId))) ∧
      (saved.foldl Registry.adopt acc).rules = acc.rules := by
  induction saved generalizing acc with
  | nil => exact ⟨rfl, rfl, rfl⟩
  | cons s saved ih => exact ih (acc.adopt s)

/-- The sessions of a file differ in their ids and in their identities. -/
theorem saved_nodup (hv : r.Valid) :
    ((lastSlice r.maxFinished r.sessions.values).map (·.sessionId)).Nodup ∧
      ((lastSlice r.maxFinished r.sessions.values).map (fun s =>
        (s.pid, s.startTimeNs))).Nodup := by
  have hsub : List.Sublist
      ((lastSlice r.maxFinished r.sessions.values).map Session.core) r.cores :=
    ((lastSlice_suffix r.maxFinished r.sessions.values).sublist).map _
  have hids := hv.ids_nodup.sublist (hsub.map (·.sessionId))
  have hidents := hv.identities_nodup.sublist (hsub.map (·.identity))
  rw [List.map_map] at hids hidents
  exact ⟨hids, hidents⟩

/-- What the registry with typed fields reads from the file. -/
theorem typed_load_stateFile (hv : r.Valid)
    (hk : ∀ rule ∈ r.rules, rule.kind.valid = true) :
    let typed := Registry.load r.maxFinished (some r.payload)
    typed.rules = r.rules ∧
    typed.sessions.items = (lastSlice r.maxFinished r.sessions.values).map
      (fun s => (s.sessionId, s.persisted.adopted)) ∧
    typed.byIdentity.items = (lastSlice r.maxFinished r.sessions.values).map
      (fun s => ((s.pid, s.startTimeNs), s.sessionId)) := by
  intro typed
  obtain ⟨hids, hidents⟩ := saved_nodup hv
  have hpayload : r.payload.sessions
      = (lastSlice r.maxFinished r.sessions.values).map Session.persisted := rfl
  obtain ⟨hsess, hident, hrules⟩ := adopt_insertAll r.payload.sessions
    ⟨r.maxFinished, r.payload.rules.filter (fun rule => rule.kind.valid),
      .empty, .empty⟩
  rw [hpayload, List.map_map] at hsess hident
  refine ⟨hrules.trans (List.filter_eq_self.mpr hk), ?_, ?_⟩
  · refine (congrArg OrderedDict.items hsess).trans
      (OrderedDict.items_insertAll_empty ?_)
    rw [List.map_map]
    exact hids
  · refine (congrArg OrderedDict.items hident).trans
      (OrderedDict.items_insertAll_empty ?_)
    rw [List.map_map]
    exact hidents

/-- The identities under which the sessions in the file are entered. -/
theorem pairs_stateFile (r : Registry) :
    pairs LooseSession.identity?
      (sessionsOf (r.stateFile.sessions.map Fields.json))
      = (lastSlice r.maxFinished r.sessions.values).map
          (fun s => ((.num s.pid, .num s.startTimeNs),
            textKey s.sessionId)) := by
  unfold pairs
  rw [sessionsOf_stateFile, List.filterMap_map, ← List.filterMap_eq_map]
  rfl

/-- Different identities are different keys. -/
theorem identityKey_injective : Function.Injective (fun i : Int × Int =>
    ((.num i.1, .num i.2) : JsonValue.Key × JsonValue.Key)) := by
  intro a b h
  obtain ⟨hpid, hstart⟩ := Prod.mk.inj h
  exact Prod.ext (by exact_mod_cast JsonValue.Key.num.inj hpid)
    (by exact_mod_cast JsonValue.Key.num.inj hstart)

/-- **Both ways of reading it.**  From the file of the daemon itself the
registry with the values of the file is read as the one with typed fields. -/
theorem load_stateFile (hv : r.Valid)
    (hk : ∀ rule ∈ r.rules, rule.kind.valid = true) :
    let typed := Registry.load r.maxFinished (some r.payload)
    ∃ l, LooseRegistry.load r.maxFinished (.document r.stateFile.json) = .ok l ∧
      l.rules = typed.rules.map TargetRule.loose ∧
      l.sessions.items = typed.sessions.items.map (fun e =>
        (textKey e.1, e.2.loose)) ∧
      l.byIdentity.items
        = typed.byIdentity.items.map (fun e =>
          ((.num e.1.1, .num e.1.2), textKey e.2)) := by
  intro typed
  obtain ⟨hrules, hsessions, hbyIdentity⟩ := typed_load_stateFile hv hk
  obtain ⟨hids, hidents⟩ := saved_nodup hv
  have hread : ∀ entry ∈ r.stateFile.rules.map Fields.json,
      ReadableRule entry := by
    intro entry hentry
    obtain ⟨fields, hfields, rfl⟩ := List.mem_map.mp hentry
    obtain ⟨rule, hrule, rfl⟩ := List.mem_map.mp hfields
    obtain ⟨fs, hfs, -, hvalue, -⟩ :=
      ruleOf_eq_some.mp (ruleOf_asdict (hk rule hrule))
    refine ⟨fs, hfs, fun _ => ?_⟩
    rw [hvalue]
    rfl
  have hobjects : ∀ entry ∈ r.stateFile.sessions.map Fields.json,
      entry.fields?.isSome = true := by
    intro entry hentry
    obtain ⟨fields, -, rfl⟩ := List.mem_map.mp hentry
    rfl
  refine ⟨_, load_document_eq_ok.mpr ⟨_, _, _, rfl, rfl, rfl, hread, hobjects,
    rfl⟩, ?_, ?_, ?_⟩
  · rw [hrules]
    exact rules_stateFile hk
  · rw [hsessions, List.map_map]
    unfold registryOf byKey
    rw [sessionsOf_stateFile]
    refine OrderedDict.items_insertAll_empty ?_
    have hkeys := hids.map textKey_injective
    rw [List.map_map] at hkeys ⊢
    exact hkeys
  · rw [hbyIdentity, List.map_map]
    unfold registryOf byIndex
    rw [pairs_stateFile]
    refine OrderedDict.items_insertAll_empty ?_
    have hkeys := hidents.map identityKey_injective
    rw [List.map_map] at hkeys ⊢
    exact hkeys

end

end Telemetryd
