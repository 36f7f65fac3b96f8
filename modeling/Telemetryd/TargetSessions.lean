import Telemetryd.SessionIds

/-!
# Sessions over whole runs of the registry

A session has a *core* that is fixed when it is created: its id, the identity
`(pid, start time)` of its process, the command line, the executable and the
start of the observation.  Everything else about a session is refreshed.  The
list of cores in insertion order is the abstract state of a registry, and each
operation has a one-line meaning on it:

* a rule change keeps the list;
* a refresh appends the cores of the matched processes it has not met;
* a restart keeps the last `maxFinished` cores, the window the file holds.

`Registry.Valid` ties the two dictionaries to the list of cores, and
`Store.InSync` ties the file to it.  Both are preserved by every operation, so
the laws about sessions follow for every run.
-/

namespace Telemetryd

open PyText

/-- What never changes about a session. -/
structure SessionCore where
  sessionId : PyText
  pid : Int
  startTimeNs : Int
  cmdline : PyText
  exePath : PyText
  sessionStartNs : Int
  deriving DecidableEq

/-- The identity of the process a session observes. -/
def SessionCore.identity (c : SessionCore) : Int × Int := (c.pid, c.startTimeNs)

/-- What of a session a refresh does not change. -/
def Session.core (s : Session) : SessionCore :=
  ⟨s.sessionId, s.pid, s.startTimeNs, s.cmdline, s.exePath, s.sessionStartNs⟩

/-- A process by its pid and its start. -/
def ProcessInfo.identity (p : ProcessInfo) : Int × Int := (p.pid, p.startTimeNs)

/-- The cores of all sessions in memory, oldest first. -/
def Registry.cores (r : Registry) : List SessionCore :=
  r.sessions.values.map Session.core

/-- The dictionaries of a registry say the same as its list of cores. -/
structure Registry.Valid (r : Registry) : Prop where
  keyed : r.sessions.keys = r.cores.map (·.sessionId)
  identified : ∀ ident sid, r.byIdentity.get? ident = some sid ↔
    ∃ c ∈ r.cores, c.identity = ident ∧ c.sessionId = sid

namespace Registry

variable {r r' : Registry}

theorem mem_cores_iff {c : SessionCore} :
    c ∈ r.cores ↔ ∃ sid sess, r.sessions.get? sid = some sess ∧
      sess.core = c := by
  simp only [cores, List.mem_map, OrderedDict.mem_values_iff]
  constructor
  · rintro ⟨sess, ⟨sid, hs⟩, rfl⟩
    exact ⟨sid, sess, hs, rfl⟩
  · rintro ⟨sid, sess, hs, rfl⟩
    exact ⟨sess, ⟨sid, hs⟩, rfl⟩

theorem Valid.ids_nodup (h : r.Valid) : (r.cores.map (·.sessionId)).Nodup := by
  rw [← h.keyed]
  exact r.sessions.keys_nodup

/-- Two sessions with one id are one session. -/
theorem Valid.core_eq_of_id (h : r.Valid) {c d : SessionCore} (hc : c ∈ r.cores)
    (hd : d ∈ r.cores) (heq : c.sessionId = d.sessionId) : c = d :=
  List.inj_on_of_nodup_map h.ids_nodup hc hd heq

/-- Two sessions of one process are one session. -/
theorem Valid.core_eq_of_identity (h : r.Valid) {c d : SessionCore}
    (hc : c ∈ r.cores)
    (hd : d ∈ r.cores) (heq : c.identity = d.identity) : c = d := by
  have h1 := (h.identified _ _).mpr ⟨c, hc, heq, rfl⟩
  have h2 := (h.identified _ _).mpr ⟨d, hd, rfl, rfl⟩
  exact h.core_eq_of_id hc hd (Option.some.inj (h1.symm.trans h2))

theorem Valid.identities_nodup (h : r.Valid) :
    (r.cores.map (·.identity)).Nodup :=
  (List.nodup_map_iff_inj_on (List.Nodup.of_map _ h.ids_nodup)).mpr
    (fun _ hc _ hd heq => h.core_eq_of_identity hc hd heq)

/-- A session is stored under its own id. -/
theorem Valid.sessionId_eq (h : r.Valid) {sid : PyText} {sess : Session}
    (hs : r.sessions.get? sid = some sess) : sess.sessionId = sid := by
  have hmem := OrderedDict.get?_eq_some_iff.mp hs
  have hkeys : r.sessions.items.map Prod.fst
      = r.sessions.items.map (fun e => e.2.sessionId) := by
    have := h.keyed
    simpa [OrderedDict.keys, cores, OrderedDict.values, Session.core,
      Function.comp_def] using this
  have := List.map_inj_left.mp hkeys _ hmem
  exact this.symm

theorem Valid.core_mem (h : r.Valid) {sid : PyText} {sess : Session}
    (hs : r.sessions.get? sid = some sess) :
    sess.core ∈ r.cores ∧ sess.core.sessionId = sid :=
  ⟨mem_cores_iff.mpr ⟨sid, sess, hs, rfl⟩, h.sessionId_eq hs⟩

theorem Valid.exists_session (h : r.Valid) {c : SessionCore}
    (hc : c ∈ r.cores) :
    ∃ sess, r.sessions.get? c.sessionId = some sess ∧ sess.core = c := by
  obtain ⟨sid, sess, hs, rfl⟩ := mem_cores_iff.mp hc
  obtain rfl := h.sessionId_eq hs
  exact ⟨sess, hs, rfl⟩

/-- Sessions of one process are stored under one id. -/
theorem Valid.id_eq_of_identity (h : r.Valid) {sid sid' : PyText}
    {sess sess' : Session}
    (hs : r.sessions.get? sid = some sess)
    (hs' : r.sessions.get? sid' = some sess')
    (heq : sess.core.identity = sess'.core.identity) : sid = sid' := by
  rw [← h.sessionId_eq hs, ← h.sessionId_eq hs']
  exact congrArg SessionCore.sessionId
    (h.core_eq_of_identity (h.core_mem hs).1 (h.core_mem hs').1 heq)

/-- A session is filed under its identity and under no other. -/
theorem Valid.byIdentity_iff (h : r.Valid) {sid : PyText} {sess : Session}
    (hs : r.sessions.get? sid = some sess) {ident : Int × Int} :
    r.byIdentity.get? ident = some sid ↔ sess.core.identity = ident := by
  obtain ⟨hmem, hid⟩ := h.core_mem hs
  rw [h.identified]
  constructor
  · intro hfiled
    obtain ⟨c, hc, hident, hcs⟩ := hfiled
    rw [h.core_eq_of_id hmem hc (hid.trans hcs.symm)]
    exact hident
  · intro hident
    exact ⟨sess.core, hmem, hident, hid⟩

/-- An id that is filed is that of a session. -/
theorem Valid.exists_of_byIdentity (h : r.Valid) {ident : Int × Int}
    {sid : PyText}
    (hfiled : r.byIdentity.get? ident = some sid) :
    ∃ sess, r.sessions.get? sid = some sess ∧ sess.core.identity = ident := by
  obtain ⟨c, hc, hident, rfl⟩ := (h.identified _ _).mp hfiled
  obtain ⟨sess, hs, rfl⟩ := h.exists_session hc
  exact ⟨sess, hs, hident⟩

/-- A change that keeps keys, cores and identities keeps validity. -/
theorem Valid.congr (h : r.Valid) (hk : r'.sessions.keys = r.sessions.keys)
    (hc : r'.cores = r.cores) (hi : r'.byIdentity = r.byIdentity) : r'.Valid :=
  ⟨by rw [hk, hc, h.keyed], by rw [hi, hc]; exact h.identified⟩

/-- A new session under a new id for a process not met before. -/
theorem Valid.append (h : r.Valid) {c : SessionCore}
    (hnew : ∀ d ∈ r.cores, d.identity ≠ c.identity)
    (hk : r'.sessions.keys = r.sessions.keys ++ [c.sessionId])
    (hc : r'.cores = r.cores ++ [c])
    (hi : r'.byIdentity = r.byIdentity.insert c.identity c.sessionId) :
    r'.Valid := by
  refine ⟨by simp [hk, hc, h.keyed], ?_⟩
  intro ident sid
  rw [hi, hc, OrderedDict.get?_insert]
  by_cases hident : ident = c.identity
  · subst hident
    simp only [if_true, Option.some.injEq, List.mem_append, List.mem_singleton]
    constructor
    · rintro rfl
      exact ⟨c, Or.inr rfl, rfl, rfl⟩
    · rintro ⟨d, hd | rfl, hdi, hds⟩
      · exact absurd hdi (hnew d hd)
      · exact hds
  · rw [if_neg hident, h.identified]
    simp only [List.mem_append, List.mem_singleton]
    constructor
    · rintro ⟨d, hd, hrest⟩
      exact ⟨d, Or.inl hd, hrest⟩
    · rintro ⟨d, hd | rfl, hdi, hds⟩
      · exact ⟨d, hd, hdi, hds⟩
      · exact absurd hdi.symm hident

/-- Identities stay assigned while the list of cores grows. -/
theorem Valid.byIdentity_mono (h : r.Valid) (h' : r'.Valid)
    (hpre : r.cores <+: r'.cores)
    {ident : Int × Int} {sid : PyText}
    (hs : r.byIdentity.get? ident = some sid) :
    r'.byIdentity.get? ident = some sid := by
  obtain ⟨c, hc, hrest⟩ := (h.identified _ _).mp hs
  exact (h'.identified _ _).mpr ⟨c, hpre.subset hc, hrest⟩

end Registry

/-! ### The file -/

/-- The file holds the rules and the last cores of the registry. -/
structure Store.InSync (s : Store) : Prop where
  kinds : ∀ r ∈ s.reg.rules, r.kind.valid = true
  absent : s.file = none → s.reg.rules = [] ∧ s.reg.cores = []
  present : ∀ p, s.file = some p → p.rules = s.reg.rules ∧
    p.sessions.map Session.core = lastSlice s.reg.maxFinished s.reg.cores

/-- Saving brings the file in sync. -/
theorem Store.save_inSync {s : Store}
    (hk : ∀ r ∈ s.reg.rules, r.kind.valid = true) :
    s.save.InSync := by
  refine ⟨hk, fun h => by simp [Store.save] at h, ?_⟩
  rintro p hp
  obtain rfl : s.reg.payload = p := by simpa [Store.save] using hp
  refine ⟨rfl, ?_⟩
  simp only [Registry.payload, List.map_map, Store.save]
  have hcore : (Session.core ∘ fun s : Session =>
      { s with logicalGroups := [], aggregate := none }) = Session.core := rfl
  rw [hcore, map_lastSlice]
  rfl

/-- A change of the registry that keeps rules and cores keeps the file in
sync without saving. -/
theorem Store.InSync.congr {s : Store} (h : s.InSync) {r : Registry}
    (hm : r.maxFinished = s.reg.maxFinished) (hr : r.rules = s.reg.rules)
    (hc : r.cores = s.reg.cores) : ({ s with reg := r } : Store).InSync := by
  refine ⟨by rw [hr]; exact h.kinds, ?_, ?_⟩
  · intro hf
    rw [hr, hc]
    exact h.absent hf
  · intro p hp
    rw [hr, hc, hm]
    exact h.present p hp

/-- Bringing back sessions with new ids and new identities appends them. -/
private theorem foldl_adopt (saved : List Session) :
    ∀ r : Registry, r.Valid →
      (r.cores.map (·.sessionId) ++
        saved.map (fun s => s.core.sessionId)).Nodup →
      (r.cores.map (·.identity) ++ saved.map (fun s => s.core.identity)).Nodup →
      (saved.foldl Registry.adopt r).Valid ∧
        (saved.foldl Registry.adopt r).cores =
          r.cores ++ saved.map Session.core ∧
        (saved.foldl Registry.adopt r).rules = r.rules ∧
        (saved.foldl Registry.adopt r).maxFinished = r.maxFinished := by
  induction saved with
  | nil => intro r hv _ _; simp [hv]
  | cons s saved ih =>
      intro r hv hids hidents
      have hfresh : s.sessionId ∉ r.sessions.keys := by
        rw [hv.keyed]
        intro hmem
        exact (List.nodup_append.mp hids).2.2 _ hmem s.sessionId
          (by simp [Session.core]) rfl
      have hcores : (r.adopt s).cores = r.cores ++ [s.core] := by
        simp [Registry.cores, Registry.adopt,
          OrderedDict.values_insert_of_notMem hfresh,
          Session.core]
      have hkeys :
          (r.adopt s).sessions.keys =
          r.sessions.keys ++ [s.core.sessionId] := by
        simp [Registry.adopt, OrderedDict.keys,
          OrderedDict.items_insert_of_notMem hfresh,
          Session.core]
      have hnew : ∀ d ∈ r.cores, d.identity ≠ s.core.identity := by
        intro d hd heq
        exact (List.nodup_append.mp hidents).2.2 _ (List.mem_map_of_mem hd)
          s.core.identity
          (by simp) heq
      have hvalid : (r.adopt s).Valid := hv.append hnew hkeys hcores rfl
      obtain ⟨h1, h2, h3, h4⟩ := ih (r.adopt s) hvalid
        (by simpa [hcores] using hids) (by simpa [hcores] using hidents)
      refine ⟨h1, ?_, h3, h4⟩
      rw [List.foldl_cons, h2, hcores]
      simp

/-- **Restart.**  A registry constructed on a file in sync has the same rules
and keeps the window of cores the file holds. -/
theorem load_spec {s : Store} (hv : s.reg.Valid) (hs : s.InSync) :
    (Registry.load s.reg.maxFinished s.file).Valid ∧
      (Registry.load s.reg.maxFinished s.file).cores
        = lastSlice s.reg.maxFinished s.reg.cores ∧
      (Registry.load s.reg.maxFinished s.file).rules = s.reg.rules ∧
      (Registry.load s.reg.maxFinished s.file).maxFinished =
        s.reg.maxFinished := by
  have hempty :
      (⟨s.reg.maxFinished, s.reg.rules, .empty, .empty⟩ : Registry).Valid :=
    ⟨rfl, by simp [Registry.cores, OrderedDict.values]⟩
  cases hf : s.file with
  | none =>
      obtain ⟨hr, hc⟩ := hs.absent hf
      rw [hr] at hempty
      refine ⟨hempty, ?_, hr.symm, rfl⟩
      rw [hc]
      simp [Registry.load, Registry.cores, OrderedDict.values, lastSlice]
  | some p =>
      obtain ⟨hr, hc⟩ := hs.present p hf
      have hfilter : p.rules.filter (fun r => r.kind.valid) = s.reg.rules := by
        rw [hr]
        exact List.filter_eq_self.mpr hs.kinds
      have hsub : List.Sublist (p.sessions.map Session.core) s.reg.cores := by
        rw [hc]
        exact (lastSlice_suffix _ _).sublist
      have hids : (p.sessions.map (fun s => s.core.sessionId)).Nodup := by
        have := hv.ids_nodup.sublist (hsub.map (·.sessionId))
        simpa [Function.comp_def] using this
      have hidents : (p.sessions.map (fun s => s.core.identity)).Nodup := by
        have := hv.identities_nodup.sublist (hsub.map (·.identity))
        simpa [Function.comp_def] using this
      obtain ⟨h1, h2, h3, h4⟩ := foldl_adopt p.sessions _ hempty
        (by simpa [Registry.cores, OrderedDict.values] using hids)
        (by simpa [Registry.cores, OrderedDict.values] using hidents)
      have hload : Registry.load s.reg.maxFinished (some p) =
          p.sessions.foldl Registry.adopt ⟨s.reg.maxFinished, s.reg.rules,
            .empty, .empty⟩ := by
        simp [Registry.load, hfilter]
      rw [hload]
      refine ⟨h1, ?_, h3, h4⟩
      rw [h2, hc]
      simp [Registry.cores, OrderedDict.values]

/-! ### What one operation does to the cores -/

/-- Dictionaries, cores and file agree. -/
structure Store.Good (s : Store) : Prop where
  valid : s.reg.Valid
  inSync : s.InSync

/-- The cores of `s` are still there, in the same places, in `s'`, and what
came after them was started at `now`. -/
structure Store.Grows (now : Int) (s s' : Store) : Prop where
  good : s'.Good
  cores : s.reg.cores <+: s'.reg.cores
  started : ∀ c ∈ s'.reg.cores, c ∈ s.reg.cores ∨ c.sessionStartNs = now
  maxFinished : s'.reg.maxFinished = s.reg.maxFinished
  rules : s'.reg.rules = s.reg.rules

theorem Store.Grows.refl {now : Int} {s : Store} (h : s.Good) : s.Grows now s :=
  ⟨h, List.prefix_rfl, fun _ hc => Or.inl hc, rfl, rfl⟩

theorem Store.Grows.trans {now : Int} {s t u : Store} (h : s.Grows now t)
    (h' : t.Grows now u) : s.Grows now u := by
  refine ⟨h'.good, h.cores.trans h'.cores, ?_,
    h'.maxFinished.trans h.maxFinished,
    h'.rules.trans h.rules⟩
  intro c hc
  rcases h'.started c hc with hc | hc
  · exact h.started c hc
  · exact Or.inr hc

/-- Sessions of other processes are untouched between `s` and `s'`. -/
def Store.FramesPid (pid : Int) (s s' : Store) : Prop :=
  ∀ k sess, s.reg.sessions.get? k = some sess → sess.pid ≠ pid →
    s'.reg.sessions.get? k = some sess

section Refresh

variable {plug : Plugins} {clock : Clock} {proc : ProcessInfo}
    {rule : TargetRule}
variable {s : Store}

theorem Session.core_finish (now : Int) (sess : Session) :
    (sess.finish now).core = sess.core :=
  rfl

theorem core_observe (plug : Plugins) (proc : ProcessInfo) (rule : TargetRule)
    (stats : List ProcessIoStat) (sess : Session) :
    (observe plug proc rule stats sess).core = sess.core := rfl

theorem keys_closeReused (now : Int) (proc : ProcessInfo)
    (sessions : OrderedDict PyText Session) :
    (closeReused now proc sessions).keys = sessions.keys :=
  OrderedDict.keys_mapValues _ _

theorem cores_closeReused (now : Int) (proc : ProcessInfo)
    (sessions : OrderedDict PyText Session) :
    (closeReused now proc sessions).values.map Session.core
      = sessions.values.map Session.core := by
  rw [closeReused, OrderedDict.values_mapValues, OrderedDict.values,
    List.map_map, List.map_map]
  apply List.map_congr_left
  intro e _
  simp only [Function.comp_apply]
  split
  · exact Session.core_finish now e.2
  · rfl

/-- The first meeting with a process: its core is appended under a fresh id. -/
theorem openSession_spec (hs : s.Good)
    (hnew : s.reg.byIdentity.get? proc.identity = none) :
    let out := openSession plug clock proc rule s
    s.Grows clock.timeNs out.1 ∧ out.1.reg.byIdentity.get? proc.identity =
      some out.2 ∧
      (∃ sess, out.1.reg.sessions.get? out.2 = some sess ∧
        sess.core.identity = proc.identity) ∧
      s.FramesPid proc.pid out.1 := by
  intro out
  have hfresh : out.2 ∉ (closeReused clock.timeNs proc s.reg.sessions).keys :=
    sessionId_notMem _ _ _ _
  have hsess :
      out.1.reg.sessions = (closeReused clock.timeNs proc s.reg.sessions).insert
      out.2 (newSession plug clock.timeNs out.2 proc rule) := rfl
  have hcores : out.1.reg.cores
      = s.reg.cores ++
        [(newSession plug clock.timeNs out.2 proc rule).core] := by
    rw [Registry.cores, hsess, OrderedDict.values_insert_of_notMem hfresh,
      List.map_append,
      cores_closeReused]
    rfl
  have hkeys : out.1.reg.sessions.keys = s.reg.sessions.keys ++ [out.2] := by
    rw [hsess, OrderedDict.keys, OrderedDict.items_insert_of_notMem hfresh,
      List.map_append]
    exact congrArg (· ++ [out.2]) (keys_closeReused _ _ _)
  have hvalid : out.1.reg.Valid := by
    refine hs.valid.append ?_ hkeys hcores rfl
    intro d hd heq
    have hident : d.identity = proc.identity := heq
    have := (hs.valid.identified _ _).mpr ⟨d, hd, hident, rfl⟩
    rw [hnew] at this
    cases this
  have hsync : out.1.InSync := Store.save_inSync hs.inSync.kinds
  have hstarted : ∀ c ∈ out.1.reg.cores, c ∈ s.reg.cores ∨
      c.sessionStartNs = clock.timeNs := by
    intro c hc
    rw [hcores, List.mem_append, List.mem_singleton] at hc
    rcases hc with hc | rfl
    · exact Or.inl hc
    · exact Or.inr rfl
  refine ⟨⟨⟨hvalid, hsync⟩, ⟨_, hcores.symm⟩, hstarted, rfl, rfl⟩, ?_, ?_, ?_⟩
  · exact OrderedDict.get?_insert_self _ _ _
  · exact ⟨_, by rw [hsess]; exact OrderedDict.get?_insert_self _ _ _, rfl⟩
  · intro k sess hk hpid
    have hne : k ≠ out.2 := by
      rintro rfl
      apply hfresh
      rw [keys_closeReused]
      exact OrderedDict.mem_keys_iff.mpr ⟨sess, hk⟩
    rw [hsess, OrderedDict.get?_insert_of_ne hne, closeReused,
      OrderedDict.get?_mapValues, hk]
    simp [hpid]

theorem sessionFor_of_unknown {proc : ProcessInfo}
    (hid : s.reg.byIdentity.get? proc.identity = none) (plug : Plugins)
    (clock : Clock)
    (rule : TargetRule) :
    sessionFor plug clock proc rule s = openSession plug clock proc rule s := by
  simp only [ProcessInfo.identity] at hid
  simp [sessionFor, hid]

theorem sessionFor_of_known {proc : ProcessInfo} {sid : PyText} {sess : Session}
    (hid : s.reg.byIdentity.get? proc.identity = some sid)
    (hsess : s.reg.sessions.get? sid = some sess) (plug : Plugins)
    (clock : Clock)
    (rule : TargetRule) : sessionFor plug clock proc rule s = (s, sid) := by
  have hmem : sid ∈ s.reg.sessions.keys :=
    OrderedDict.mem_keys_iff.mpr ⟨sess, hsess⟩
  simp only [ProcessInfo.identity] at hid
  simp [sessionFor, hid, hmem]

/-- The session of a process is the one filed under its identity; it exists
afterwards, and sessions of other pids are as before. -/
theorem sessionFor_spec (plug : Plugins) (clock : Clock) (proc : ProcessInfo)
    (rule : TargetRule) (hs : s.Good) :
    let out := sessionFor plug clock proc rule s
    s.Grows clock.timeNs out.1 ∧ out.1.reg.byIdentity.get? proc.identity =
      some out.2 ∧
      (∃ sess, out.1.reg.sessions.get? out.2 = some sess ∧
        sess.core.identity = proc.identity) ∧
      s.FramesPid proc.pid out.1 := by
  cases hid : s.reg.byIdentity.get? proc.identity with
  | none =>
      rw [sessionFor_of_unknown hid]
      exact openSession_spec hs hid
  | some sid =>
      obtain ⟨sess, hsess, hident⟩ := hs.valid.exists_of_byIdentity hid
      rw [sessionFor_of_known hid hsess]
      exact ⟨.refl hs, hid, ⟨sess, hsess, hident⟩, fun _ _ h _ => h⟩

/-- Overwriting a session by one with the same core. -/
theorem setSession_grows (now : Int) (hs : s.Good) {sid : PyText}
    {old new : Session}
    (hold : s.reg.sessions.get? sid = some old) (hcore : new.core = old.core) :
    s.Grows now { s with reg :=
  { s.reg with sessions := s.reg.sessions.insert sid new } } := by
  have hcores :
      ({ s.reg with sessions := s.reg.sessions.insert sid new } :
      Registry).cores
      = s.reg.cores := OrderedDict.map_values_insert Session.core hold hcore
  have hkeys : (s.reg.sessions.insert sid new).keys = s.reg.sessions.keys :=
    OrderedDict.keys_insert_of_mem (OrderedDict.mem_keys_iff.mpr ⟨old, hold⟩)
  exact ⟨⟨hs.valid.congr hkeys hcores rfl, hs.inSync.congr rfl rfl hcores⟩,
    hcores ▸ List.prefix_rfl, fun c hc => Or.inl (hcores ▸ hc), rfl, rfl⟩

/-- **One matched process.**  Its session is filed under its identity, is
active and measured, and is recorded; sessions of other pids are as before. -/
theorem refreshTarget_spec (plug : Plugins) (clock : Clock)
    {byPid : OrderedDict Int ProcessInfo} (stats : List ProcessIoStat)
    {acc : Store × List PyText} {hit : Int × TargetRule} (hs : acc.1.Good)
    (hproc : byPid.get? hit.1 = some proc) :
    let out := refreshTarget plug clock byPid stats acc hit
    ∃ sid, out.2 = sid :: acc.2 ∧ acc.1.Grows clock.timeNs out.1 ∧
      out.1.reg.byIdentity.get? proc.identity = some sid ∧
      (∃ sess, out.1.reg.sessions.get? sid = some sess ∧ sess.status = .active ∧
        sess.core.identity = proc.identity ∧
        sess.aggregate = some (measuredFromStats (statsOf stats hit.1) none)) ∧
      acc.1.FramesPid proc.pid out.1 := by
  obtain ⟨hgrow, hid, ⟨sess, hsess, hident⟩, hframe⟩ :=
    sessionFor_spec plug clock proc hit.2 hs
  have hout : refreshTarget plug clock byPid stats acc hit =
      ({ (sessionFor plug clock proc hit.2 acc.1).1 with
          reg := { (sessionFor plug clock proc hit.2 acc.1).1.reg with
            sessions := (sessionFor plug clock proc hit.2
              acc.1).1.reg.sessions.insert
              (sessionFor plug clock proc hit.2 acc.1).2
              (observe plug proc hit.2 (statsOf stats hit.1) sess) } },
        (sessionFor plug clock proc hit.2 acc.1).2 :: acc.2) := by
    simp [refreshTarget, hproc, hsess]
  rw [hout]
  refine ⟨_, rfl,
    hgrow.trans (setSession_grows clock.timeNs hgrow.good hsess
    (core_observe _ _ _ _ _)),
    hid, ⟨_, OrderedDict.get?_insert_self _ _ _, rfl, hident, rfl⟩, ?_⟩
  intro k sess' hk hpid
  have hafter := hframe k sess' hk hpid
  have hne : k ≠ (sessionFor plug clock proc hit.2 acc.1).2 := by
    rintro rfl
    rw [hafter] at hsess
    obtain rfl := Option.some.inj hsess
    exact hpid (congrArg Prod.fst hident)
  exact (OrderedDict.get?_insert_of_ne hne).trans hafter

/-- **The loop over the matched pids.**  Every hit ends with an active session
filed under its identity and recorded; nothing else is recorded; sessions of
unmatched pids are as before. -/
theorem foldl_refreshTarget (plug : Plugins) (clock : Clock)
    {byPid : OrderedDict Int ProcessInfo} (stats : List ProcessIoStat)
    (hits : List (Int × TargetRule)) :
    ∀ acc : Store × List PyText, acc.1.Good → (hits.map Prod.fst).Nodup →
      (∀ hit ∈ hits, ∃ p, byPid.get? hit.1 = some p ∧ p.pid = hit.1) →
      let out := hits.foldl (refreshTarget plug clock byPid stats) acc
      acc.1.Grows clock.timeNs out.1 ∧ acc.2 ⊆ out.2 ∧
      (∀ hit ∈ hits, ∀ p, byPid.get? hit.1 = some p → ∃ sid ∈ out.2, ∃ sess,
        out.1.reg.sessions.get? sid = some sess ∧ sess.status = .active ∧
        sess.core.identity = p.identity ∧
        sess.aggregate = some (measuredFromStats (statsOf stats hit.1) none)) ∧
      (∀ sid ∈ out.2, sid ∈ acc.2 ∨ ∃ hit ∈ hits, ∃ p,
        byPid.get? hit.1 = some p ∧
        out.1.reg.byIdentity.get? p.identity = some sid) ∧
      (∀ k sess, acc.1.reg.sessions.get? k = some sess →
        sess.pid ∉ hits.map Prod.fst →
        out.1.reg.sessions.get? k = some sess) := by
  induction hits with
  | nil =>
      intro acc hs _ _
      exact ⟨.refl hs, fun _ h => h, by simp, fun _ h => Or.inl h,
        fun _ _ h _ => h⟩
  | cons hit rest ih =>
      intro acc hs hnd hall out
      simp only [List.map_cons, List.nodup_cons] at hnd
      obtain ⟨p, hp, hpid⟩ := hall hit (by simp)
      obtain ⟨sid, hids, hgrow, hident, ⟨sess, hsess, hact, hcore, hmeasured⟩,
          hframe⟩ :=
        refreshTarget_spec plug clock stats hs hp
      obtain ⟨hgrow', hsub, hlive, honly, hframe'⟩ :=
        ih (refreshTarget plug clock byPid stats acc hit) hgrow.good hnd.2
          (fun h hm => hall h (by simp [hm]))
      have hmono :=
        hgrow.good.valid.byIdentity_mono hgrow'.good.valid hgrow'.cores hident
      have hsesspid : sess.pid ∉ rest.map Prod.fst := by
        have : sess.pid = hit.1 := (congrArg Prod.fst hcore).trans hpid
        rw [this]
        exact hnd.1
      have hsid : sid ∈ out.2 := hsub (by rw [hids]; simp)
      refine ⟨hgrow.trans hgrow', fun k hk => hsub (by rw [hids]; simp [hk]),
        ?_, ?_, ?_⟩
      · intro h hm p' hp'
        rcases List.mem_cons.mp hm with rfl | hm
        · obtain rfl : p = p' := Option.some.inj (hp.symm.trans hp')
          exact ⟨sid, hsid, sess, hframe' sid sess hsess hsesspid, hact, hcore,
            hmeasured⟩
        · exact hlive h hm p' hp'
      · intro k hk
        rcases honly k hk with hk | ⟨h, hm, p', hp', hi⟩
        · rw [hids] at hk
          rcases List.mem_cons.mp hk with rfl | hk
          · exact Or.inr ⟨hit, by simp, p, hp, hmono⟩
          · exact Or.inl hk
        · exact Or.inr ⟨h, by simp [hm], p', hp', hi⟩
      · intro k sess' hk hno
        simp only [List.map_cons, List.mem_cons, not_or] at hno
        exact hframe' k sess' (hframe k sess' hk (by rw [hpid]; exact hno.1))
          hno.2

/-- How the last loop of `refresh` changes a session. -/
def vanish (now : Int) (activeIds : List PyText) (sid : PyText)
    (sess : Session) : Session :=
  if sess.status = .active ∧ sid ∉ activeIds then sess.finish now else sess

theorem core_vanish (now : Int) (ids : List PyText) (sid : PyText)
    (sess : Session) :
    (vanish now ids sid sess).core = sess.core := by
  unfold vanish
  split <;> rfl

theorem vanish_vanish (now : Int) (ids : List PyText) (sid : PyText)
    (sess : Session) :
    vanish now ids sid (vanish now ids sid sess) = vanish now ids sid sess := by
  unfold vanish
  split
  · simp [Session.finish]
  · rfl

/-- The last loop, over any ids: the store grows and each listed session is
ended if it was not seen. -/
theorem foldl_finishUnseen (now : Int) (ids ks : List PyText) (hs : s.Good) :
    let out := ks.foldl (finishUnseen now ids) s
    s.Grows now out ∧ ∀ k, out.reg.sessions.get? k =
      if k ∈ ks then (s.reg.sessions.get? k).map (vanish now ids k)
      else s.reg.sessions.get? k := by
  induction ks generalizing s with
  | nil => exact ⟨.refl hs, by simp⟩
  | cons sid ks ih =>
      simp only [List.foldl_cons, finishUnseen]
      cases hget : s.reg.sessions.get? sid with
      | none =>
          obtain ⟨hg, hk⟩ := ih hs
          refine ⟨hg, fun k => ?_⟩
          rw [hk k]
          by_cases hks : k = sid
          · simp [hks, hget]
          · simp [hks]
      | some sess =>
          by_cases hv : sess.status = .active ∧ sid ∉ ids
          · have hset :=
              setSession_grows now hs hget (Session.core_finish now sess)
            have hsave : s.Grows now ({ s with reg := { s.reg with
                sessions := s.reg.sessions.insert sid (sess.finish now) } } :
                  Store).save :=
              ⟨⟨hset.good.valid, Store.save_inSync hs.inSync.kinds⟩, hset.cores,
                hset.started, rfl, rfl⟩
            obtain ⟨hg, hk⟩ := ih hsave.good
            simp only [if_pos hv]
            refine ⟨hsave.trans hg, fun k => ?_⟩
            rw [hk k]
            by_cases hks : k = sid
            · subst hks
              have hvan : sess.finish now = vanish now ids k sess := by
                simp [vanish, hv]
              simp only [Store.save, OrderedDict.get?_insert_self, hget,
                List.mem_cons,
                true_or, if_true, Option.map_some, hvan, vanish_vanish,
                ite_self]
            · simp [Store.save, OrderedDict.get?_insert_of_ne hks, hks]
          · obtain ⟨hg, hk⟩ := ih hs
            simp only [if_neg hv]
            refine ⟨hg, fun k => ?_⟩
            rw [hk k]
            by_cases hks : k = sid
            · subst hks
              simp [hget, vanish, hv]
            · simp [hks]

/-- Ending the sessions that were not seen. -/
theorem finishVanished_spec (now : Int) (ids : List PyText) (hs : s.Good) :
    s.Grows now (finishVanished now ids s) ∧
      ∀ k, (finishVanished now ids s).reg.sessions.get? k
        = (s.reg.sessions.get? k).map (vanish now ids k) := by
  obtain ⟨hg, hk⟩ := foldl_finishUnseen now ids s.reg.sessions.keys hs
  refine ⟨hg, fun k => ?_⟩
  have := hk k
  by_cases hmem : k ∈ s.reg.sessions.keys
  · rw [if_pos hmem] at this
    exact this
  · rw [if_neg hmem] at this
    have hnone := OrderedDict.get?_eq_none_iff.mpr hmem
    rw [hnone] at this ⊢
    exact this

/-! ### Which processes are matched -/

/-- No two processes of a list have the same pid. -/
def DistinctPids (processes : List ProcessInfo) : Prop :=
  (processes.map (·.pid)).Nodup

instance (processes : List ProcessInfo) : Decidable (DistinctPids processes) :=
  inferInstanceAs (Decidable (processes.map (·.pid)).Nodup)

theorem get?_indexByPid {processes : List ProcessInfo}
    (h : DistinctPids processes)
    {pid : Int} {p : ProcessInfo} :
    (indexByPid processes).get? pid = some p ↔ p ∈ processes ∧ p.pid = pid := by
  have hkeys : (processes.map (fun p => (p.pid, p))).map Prod.fst =
      processes.map (·.pid) := by
    simp [Function.comp_def]
  have hitems :
      (indexByPid processes).items = processes.map (fun p => (p.pid, p)) :=
    OrderedDict.items_insertAll_empty (hkeys ▸ h)
  rw [OrderedDict.get?_eq_some_iff, hitems]
  constructor
  · intro hm
    obtain ⟨q, hq, heq⟩ := List.mem_map.mp hm
    obtain ⟨rfl, rfl⟩ := Prod.mk.inj heq
    exact ⟨hq, rfl⟩
  · rintro ⟨hq, rfl⟩
    exact List.mem_map.mpr ⟨p, hq, rfl⟩

/-- The hits of one process list, in its order. -/
theorem resolve_eq_insertAll (plug : Plugins) (rules : List TargetRule)
    (processes : List ProcessInfo) :
    resolve plug rules processes = OrderedDict.empty.insertAll
      (processes.filterMap (fun p =>
        (firstRule plug rules p).map (fun r => (p.pid, r)))) := by
  unfold resolve
  generalize OrderedDict.empty = d
  induction processes generalizing d with
  | nil => rfl
  | cons p processes ih =>
      cases hr : firstRule plug rules p with
      | none => simp [hr, ih]
      | some rule => simp [hr, ih, OrderedDict.insertAll]

/-- **Resolution.**  With distinct pids the hits are exactly the processes with
a matching rule, each with the first such rule. -/
theorem get?_resolve {rules : List TargetRule} {processes : List ProcessInfo}
    (h : DistinctPids processes) {pid : Int} {rule : TargetRule} :
    (resolve plug rules processes).get? pid = some rule ↔
      ∃ p ∈ processes, p.pid = pid ∧ firstRule plug rules p = some rule := by
  have hsub : ∀ ps : List ProcessInfo, List.Sublist
      ((ps.filterMap (fun p => (firstRule plug rules p).map
        (fun r => (p.pid, r)))).map Prod.fst) (ps.map (·.pid)) := by
    intro ps
    induction ps with
    | nil => simp
    | cons p ps ih =>
        cases hr : firstRule plug rules p with
        | none => simpa [hr] using ih.cons p.pid
        | some r => simpa [hr] using ih.cons_cons p.pid
  have hkeys : ((processes.filterMap (fun p => (firstRule plug rules p).map
      (fun r => (p.pid, r)))).map Prod.fst).Nodup :=
        List.Nodup.sublist (hsub processes) h
  rw [resolve_eq_insertAll, OrderedDict.get?_eq_some_iff,
    OrderedDict.items_insertAll_empty hkeys]
  simp only [List.mem_filterMap, Option.map_eq_some_iff, Prod.mk.injEq]
  constructor
  · rintro ⟨p, hp, r, hr, rfl, rfl⟩
    exact ⟨p, hp, rfl, hr⟩
  · rintro ⟨p, hp, rfl, hr⟩
    exact ⟨p, hp, rule, hr, rfl, rfl⟩

/-- The processes a refresh finds a rule for. -/
def matchedProcesses (plug : Plugins) (rules : List TargetRule)
    (processes : List ProcessInfo) : List ProcessInfo :=
  processes.filter (fun p =>
    decide (p.pid ∈ (resolve plug rules processes).keys))

theorem mem_matchedProcesses {rules : List TargetRule}
    {processes : List ProcessInfo}
    (h : DistinctPids processes) {p : ProcessInfo} :
    p ∈ matchedProcesses plug rules processes ↔
      p ∈ processes ∧ (firstRule plug rules p).isSome := by
  simp only [matchedProcesses, List.mem_filter, decide_eq_true_eq,
    OrderedDict.mem_keys_iff,
    get?_resolve h, Option.isSome_iff_exists]
  constructor
  · rintro ⟨hp, rule, q, hq, hpid, hr⟩
    obtain rfl := List.inj_on_of_nodup_map h hq hp hpid
    exact ⟨hp, rule, hr⟩
  · rintro ⟨hp, rule, hr⟩
    exact ⟨hp, rule, p, hp, rfl, hr⟩

/-- The hits of a refresh, in the order in which it takes them. -/
def sortedHits (plug : Plugins) (rules : List TargetRule)
    (processes : List ProcessInfo) :
    List (Int × TargetRule) :=
  (resolve plug rules processes).items.insertionSort (fun a b => a.1 ≤ b.1)

theorem nodup_sortedHits (plug : Plugins) (rules : List TargetRule)
    (processes : List ProcessInfo) :
    ((sortedHits plug rules processes).map Prod.fst).Nodup :=
  ((List.perm_insertionSort _ _).map Prod.fst).nodup_iff.mpr
    (resolve plug rules processes).nodup

/-- The hits are the processes with a rule. -/
theorem mem_sortedHits {rules : List TargetRule} {processes : List ProcessInfo}
    (h : DistinctPids processes) {hit : Int × TargetRule} :
    hit ∈ sortedHits plug rules processes ↔
      ∃ p ∈ processes, p.pid = hit.1 ∧ firstRule plug rules p = some hit.2 := by
  rw [sortedHits, (List.perm_insertionSort _ _).mem_iff, ← get?_resolve h]
  exact OrderedDict.get?_eq_some_iff.symm

theorem process_of_hit {rules : List TargetRule} {processes : List ProcessInfo}
    (h : DistinctPids processes) {hit : Int × TargetRule}
    (hm : hit ∈ sortedHits plug rules processes) :
    ∃ p, (indexByPid processes).get? hit.1 = some p ∧ p.pid = hit.1 := by
  obtain ⟨p, hp, hpid, -⟩ := (mem_sortedHits h).mp hm
  exact ⟨p, (get?_indexByPid h).mpr ⟨hp, hpid⟩, hpid⟩

theorem hit_of_matched {rules : List TargetRule} {processes : List ProcessInfo}
    (h : DistinctPids processes) {p : ProcessInfo}
    (hp : p ∈ matchedProcesses plug rules processes) :
    ∃ hit ∈ sortedHits plug rules processes, hit.1 = p.pid ∧
      (indexByPid processes).get? hit.1 = some p := by
  obtain ⟨hmem, hr⟩ := (mem_matchedProcesses h).mp hp
  obtain ⟨rule, hrule⟩ := Option.isSome_iff_exists.mp hr
  exact ⟨(p.pid, rule), (mem_sortedHits h).mpr ⟨p, hmem, rfl, hrule⟩, rfl,
    (get?_indexByPid h).mpr ⟨hmem, rfl⟩⟩

/-- The process of a hit is matched. -/
theorem matched_of_hit {rules : List TargetRule} {processes : List ProcessInfo}
    (h : DistinctPids processes) {hit : Int × TargetRule}
    (hm : hit ∈ sortedHits plug rules processes) {p : ProcessInfo}
    (hp : (indexByPid processes).get? hit.1 = some p) :
    p ∈ matchedProcesses plug rules processes ∧ p.pid = hit.1 ∧
      firstRule plug rules p = some hit.2 := by
  obtain ⟨q, hq, hqpid, hrule⟩ := (mem_sortedHits h).mp hm
  obtain rfl : p = q :=
    Option.some.inj (hp.symm.trans ((get?_indexByPid h).mpr ⟨hq, hqpid⟩))
  exact ⟨(mem_matchedProcesses h).mpr ⟨hq,
    Option.isSome_iff_exists.mpr ⟨_, hrule⟩⟩, hqpid, hrule⟩

/-- **Refresh.**  The cores grow; afterwards a session is active exactly when
it observes a matched process, and every matched process has one, measured from
its own statistics. -/
theorem refreshSessions_spec (plug : Plugins) (clock : Clock)
    {processes : List ProcessInfo}
    (stats : List ProcessIoStat)
    (hs : s.Good) (h : DistinctPids processes) :
    let out := refreshSessions plug clock processes stats s
    s.Grows clock.timeNs out ∧
      (∀ sid sess, out.reg.sessions.get? sid = some sess →
        (sess.status = .active ↔
        ∃ p ∈ matchedProcesses plug s.reg.rules processes,
          sess.core.identity = p.identity)) ∧
      (∀ p ∈ matchedProcesses plug s.reg.rules processes, ∃ sid sess,
        out.reg.sessions.get? sid = some sess ∧
          sess.core.identity = p.identity ∧
        sess.aggregate =
          some (measuredFromStats (statsOf stats p.pid) none)) := by
  obtain ⟨hgrow, -, hlive, honly, -⟩ := foldl_refreshTarget plug clock stats
    (sortedHits plug s.reg.rules processes) (s, []) hs (nodup_sortedHits _ _ _)
    fun hit hm => process_of_hit h hm
  have hout : refreshSessions plug clock processes stats s =
      finishVanished clock.timeNs
      ((sortedHits plug s.reg.rules processes).foldl
        (refreshTarget plug clock (indexByPid processes) stats) (s, [])).2
      ((sortedHits plug s.reg.rules processes).foldl
        (refreshTarget plug clock (indexByPid processes) stats) (s, [])).1 :=
          rfl
  generalize (sortedHits plug s.reg.rules processes).foldl
    (refreshTarget plug clock (indexByPid processes) stats) (s, []) =
      loop at hgrow hlive honly hout
  obtain ⟨hvan, hget⟩ := finishVanished_spec clock.timeNs loop.2 hgrow.good
  have hseen : ∀ p ∈ matchedProcesses plug s.reg.rules processes,
      ∃ sid ∈ loop.2, ∃ sess,
      loop.1.reg.sessions.get? sid = some sess ∧ sess.status = .active ∧
      sess.core.identity = p.identity ∧
      sess.aggregate = some (measuredFromStats (statsOf stats p.pid) none) := by
    intro p hp
    obtain ⟨hit, hm, hpid, hindex⟩ := hit_of_matched h hp
    rw [← hpid]
    exact hlive hit hm p hindex
  rw [hout]
  refine ⟨hgrow.trans hvan, ?_, ?_⟩
  · intro sid sess hs'
    rw [hget, Option.map_eq_some_iff] at hs'
    obtain ⟨before, hbefore, rfl⟩ := hs'
    constructor
    · intro hact
      have hmem : sid ∈ loop.2 := by
        by_contra hno
        by_cases hb : before.status = .active
        · simp [vanish, hb, hno, Session.finish] at hact
        · simp [vanish, hb] at hact
      rcases honly sid hmem with hnil | ⟨hit, hm, p, hp, hident⟩
      · cases hnil
      · refine ⟨p, (matched_of_hit h hm hp).1, ?_⟩
        rw [core_vanish]
        exact (hgrow.good.valid.byIdentity_iff hbefore).mp hident
    · rintro ⟨p, hp, hident⟩
      obtain ⟨k, hk, live, hlive', hact, hlident, -⟩ := hseen p hp
      rw [core_vanish] at hident
      obtain rfl :=
        hgrow.good.valid.id_eq_of_identity hbefore hlive'
        (hident.trans hlident.symm)
      obtain rfl := Option.some.inj (hbefore.symm.trans hlive')
      simp [vanish, hk, hact]
  · intro p hp
    obtain ⟨sid, hk, sess, hsess, -, hident, hmeasured⟩ := hseen p hp
    have hkept : vanish clock.timeNs loop.2 sid sess = sess := by
      simp [vanish, hk]
    refine ⟨sid, sess, ?_, hident, hmeasured⟩
    rw [hget, hsess, Option.map_some, hkept]

end Refresh

/-! ### Runs -/

/-- One operation on a registry and its file. -/
inductive RegistryOp where
  | addRule (rule : TargetRule)
  | removeRule (kind : RuleKind) (value : PyText)
  | clearRules
  | refresh (clock : Clock) (processes : List ProcessInfo)
    (stats : List ProcessIoStat)
  | restart

/-- The process list of a refresh has distinct pids. -/
def RegistryOp.DistinctPids : RegistryOp → Prop
  | .refresh _ processes _ => Telemetryd.DistinctPids processes
  | _ => True

/-- A refused rule leaves the store as it was. -/
def RegistryOp.apply (plug : Plugins) (s : Store) : RegistryOp → Store
  | .addRule rule => match Telemetryd.addRule rule s with
    | .ok s' => s'
    | .error _ => s
  | .removeRule kind value => (Telemetryd.removeRule kind value s).1
  | .clearRules => Telemetryd.clearRules s
  | .refresh clock processes stats =>
      (Telemetryd.refresh plug clock processes stats s).1
  | .restart => { s with reg := Registry.load s.reg.maxFinished s.file }

/-- A sequence of operations, first to last. -/
def runOps (plug : Plugins) (s : Store) (ops : List RegistryOp) : Store :=
  ops.foldl (RegistryOp.apply plug) s

/-- A registry constructed where no state file exists yet. -/
def Store.fresh (maxFinished : Nat) : Store :=
  ⟨Registry.load maxFinished none, none⟩

theorem Store.fresh_good (maxFinished : Nat) : (Store.fresh maxFinished).Good :=
  ⟨⟨rfl, by simp [Store.fresh, Registry.load, Registry.cores, OrderedDict.values]⟩,
    ⟨by simp [Store.fresh, Registry.load], fun _ =>
      ⟨rfl, rfl⟩, by simp [Store.fresh]⟩⟩

theorem mem_upsertRule {rule r : TargetRule} {rules : List TargetRule}
    (h : r ∈ upsertRule rule rules) :
    r.kind = rule.kind ∨ ∃ r' ∈ rules, r.kind = r'.kind := by
  induction rules with
  | nil =>
      obtain rfl : r = rule := by simpa [upsertRule] using h
      exact Or.inl rfl
  | cons r' rules ih =>
      simp only [upsertRule] at h
      split at h
      · rcases List.mem_cons.mp h with rfl | h
        · exact Or.inr ⟨r', by simp, rfl⟩
        · exact Or.inr ⟨r, by simp [h], rfl⟩
      · rcases List.mem_cons.mp h with rfl | h
        · exact Or.inr ⟨r, by simp, rfl⟩
        · rcases ih h with h | ⟨q, hq, hk⟩
          · exact Or.inl h
          · exact Or.inr ⟨q, by simp [hq], hk⟩

/-- New rules, written to the file, with the sessions as they are. -/
theorem setRules_good {s : Store} (hs : s.Good) {rules : List TargetRule}
    (hk : ∀ r ∈ rules, r.kind.valid = true) :
    ({ s with reg := { s.reg with rules := rules } } : Store).save.Good :=
  ⟨hs.valid.congr rfl rfl rfl, Store.save_inSync hk⟩

/-- The effect of one operation other than a restart: the store stays good and
the cores grow. -/
theorem apply_grows (plug : Plugins) {s : Store} {op : RegistryOp} (hs : s.Good)
    (hop : op.DistinctPids) (hno : op ≠ .restart) :
    (op.apply plug s).Good ∧ s.reg.cores <+: (op.apply plug s).reg.cores ∧
      (op.apply plug s).reg.maxFinished = s.reg.maxFinished := by
  cases op with
  | addRule rule =>
      simp only [RegistryOp.apply, addRule]
      by_cases hv : rule.kind.valid = true
      · simp only [hv, if_true]
        refine ⟨setRules_good hs ?_, List.prefix_rfl, rfl⟩
        intro r hr
        rcases mem_upsertRule hr with h | ⟨r', hr', h⟩
        · rw [h]
          exact hv
        · rw [h]
          exact hs.inSync.kinds r' hr'
      · simp only [hv]
        exact ⟨hs, List.prefix_rfl, rfl⟩
  | removeRule kind value =>
      simp only [RegistryOp.apply, removeRule]
      split
      case isTrue hne =>
        refine ⟨setRules_good hs ?_, List.prefix_rfl, rfl⟩
        intro r hr
        exact hs.inSync.kinds r (List.mem_filter.mp hr).1
      case isFalse heq =>
        have hsame :
            s.reg.rules.filter (fun r => decide (r.key ≠ (kind, value)))
            = s.reg.rules :=
          List.filter_sublist.eq_of_length (by simpa using heq)
        rw [hsame]
        exact ⟨hs, List.prefix_rfl, rfl⟩
  | clearRules => exact ⟨setRules_good hs (by simp), List.prefix_rfl, rfl⟩
  | refresh clock processes stats =>
      have h := (refreshSessions_spec plug clock stats hs hop).1
      exact ⟨h.good, h.cores, h.maxFinished⟩
  | restart => exact absurd rfl hno

/-- The effect of a restart: the store stays good and the last cores are
kept. -/
theorem apply_restart (plug : Plugins) {s : Store} (hs : s.Good) :
    (RegistryOp.restart.apply plug s).Good ∧
      (RegistryOp.restart.apply plug s).reg.cores =
        lastSlice s.reg.maxFinished s.reg.cores ∧
      (RegistryOp.restart.apply plug s).reg.maxFinished =
        s.reg.maxFinished := by
  obtain ⟨hv, hc, hr, hm⟩ := load_spec hs.valid hs.inSync
  refine ⟨⟨hv, ?_⟩, hc, hm⟩
  refine ⟨by rw [RegistryOp.apply, hr]; exact hs.inSync.kinds, ?_, ?_⟩
  · intro hf
    obtain ⟨h1, h2⟩ := hs.inSync.absent hf
    simp only [RegistryOp.apply, hr, hc, h1, h2]
    simp [lastSlice]
  · intro p hp
    obtain ⟨h1, h2⟩ := hs.inSync.present p hp
    simp only [RegistryOp.apply, hr, hc, hm, lastSlice_idem]
    exact ⟨h1, h2⟩

theorem apply_good {plug : Plugins} {s : Store} {op : RegistryOp} (hs : s.Good)
    (hop : op.DistinctPids) : (op.apply plug s).Good := by
  by_cases h : op = .restart
  · subst h
    exact (apply_restart plug hs).1
  · exact (apply_grows plug hs hop h).1

/-- **Every reachable store is good.** -/
theorem runOps_good (plug : Plugins) {s : Store} {ops : List RegistryOp}
    (hs : s.Good)
    (hops : ∀ op ∈ ops, op.DistinctPids) : (runOps plug s ops).Good := by
  induction ops generalizing s with
  | nil => exact hs
  | cons op ops ih =>
      exact ih (apply_good hs (hops op (by simp))) (fun o ho =>
        hops o (by simp [ho]))

/-- Between restarts the cores only grow. -/
theorem runOps_grows (plug : Plugins) {s : Store} {ops : List RegistryOp}
    (hs : s.Good)
    (hops : ∀ op ∈ ops, op.DistinctPids) (hno : RegistryOp.restart ∉ ops) :
    s.reg.cores <+: (runOps plug s ops).reg.cores := by
  induction ops generalizing s with
  | nil => exact List.prefix_rfl
  | cons op ops ih =>
      have hop : op ≠ .restart := fun h => hno (by simp [h])
      obtain ⟨hg, hp, -⟩ := apply_grows plug hs (hops op (by simp)) hop
      exact hp.trans (ih hg (fun o ho =>
        hops o (by simp [ho])) (fun h => hno (by simp [h])))

/-- The cores with one id before and after an operation are the same. -/
theorem apply_core_eq {plug : Plugins} {s : Store} {op : RegistryOp}
    (hs : s.Good)
    (hop : op.DistinctPids) {c d : SessionCore} (hc : c ∈ s.reg.cores)
    (hd : d ∈ (op.apply plug s).reg.cores) (hid : c.sessionId = d.sessionId) :
    c = d := by
  by_cases h : op = .restart
  · subst h
    obtain ⟨-, hcores, -⟩ := apply_restart plug hs
    rw [hcores] at hd
    exact hs.valid.core_eq_of_id hc ((lastSlice_suffix _ _).subset hd) hid
  · obtain ⟨hg, hp, -⟩ := apply_grows plug hs hop h
    exact hg.valid.core_eq_of_id (hp.subset hc) hd hid

/-- A session that stays in memory over a run keeps its core. -/
theorem runOps_core_eq {plug : Plugins} {s : Store} {ops : List RegistryOp}
    (hs : s.Good)
    (hops : ∀ op ∈ ops, op.DistinctPids) {c d : SessionCore}
    (hc : c ∈ s.reg.cores)
    (hd : d ∈ (runOps plug s ops).reg.cores) (hid : c.sessionId = d.sessionId)
    (hstay : ∀ pre, pre <+: ops →
      ∃ e ∈ (runOps plug s pre).reg.cores, e.sessionId = c.sessionId) : c =
        d := by
  induction ops generalizing s c with
  | nil => exact hs.valid.core_eq_of_id hc hd hid
  | cons op ops ih =>
      obtain ⟨e, he, heid⟩ := hstay [op] ⟨ops, rfl⟩
      have hstep : c = e := apply_core_eq hs (hops op (by simp)) hc he heid.symm
      subst hstep
      refine ih (apply_good hs (hops op (by simp))) (fun o ho =>
        hops o (by simp [ho])) he hd
        hid ?_
      intro pre hpre
      exact hstay (op :: pre) (List.cons_prefix_cons.mpr ⟨rfl, hpre⟩)

/-! ### The laws of sessions -/

/-- The sessions in memory whose status is active. -/
def Registry.activeSessions (r : Registry) : List Session :=
  r.sessions.values.filter (fun sess => decide (sess.status = .active))

theorem mem_activeSessions {r : Registry} {sess : Session} :
    sess ∈ r.activeSessions ↔
      ∃ sid, r.sessions.get? sid = some sess ∧ sess.status = .active := by
  simp [Registry.activeSessions, OrderedDict.mem_values_iff]

/-- The processes of the active sessions are pairwise different. -/
theorem Registry.Valid.active_nodup {r : Registry} (h : r.Valid) :
    (r.activeSessions.map (fun sess => sess.core.identity)).Nodup := by
  have hall : (r.sessions.values.map (fun sess =>
      sess.core.identity)).Nodup := by
    have := h.identities_nodup
    simpa [Registry.cores, Function.comp_def] using this
  exact hall.sublist (List.filter_sublist.map _)

/-- The active sessions after a refresh observe exactly the matched processes,
one each. -/
theorem active_perm_matched (plug : Plugins) (clock : Clock)
    {processes : List ProcessInfo}
    (stats : List ProcessIoStat) {s : Store} (hs : s.Good)
    (h : DistinctPids processes) :
    ((refresh plug clock processes stats s).1.reg.activeSessions.map
        (fun sess => sess.core.identity)).Perm
      ((matchedProcesses plug s.reg.rules processes).map (·.identity)) := by
  obtain ⟨hgrow, hiff, hex⟩ := refreshSessions_spec plug clock stats hs h
  have hmatched :
      ((matchedProcesses plug s.reg.rules processes).map
      (·.identity)).Nodup := by
    refine List.Nodup.of_map Prod.fst ?_
    rw [List.map_map]
    exact (show List.Nodup _ from h).sublist (List.filter_sublist.map _)
  refine (List.perm_ext_iff_of_nodup hgrow.good.valid.active_nodup hmatched).mpr
    ?_
  intro ident
  simp only [List.mem_map, mem_activeSessions]
  constructor
  · rintro ⟨sess, ⟨sid, hsess, hact⟩, rfl⟩
    obtain ⟨p, hp, hident⟩ := (hiff sid sess hsess).mp hact
    exact ⟨p, hp, hident.symm⟩
  · rintro ⟨p, hp, rfl⟩
    obtain ⟨sid, sess, hsess, hident, -⟩ := hex p hp
    exact ⟨sess, ⟨sid, hsess, (hiff sid sess hsess).mpr ⟨p, hp, hident⟩⟩,
      hident⟩

/-- **Sessions over every run.**  Start where no state file exists and apply
any rule changes, refreshes and restarts.  Ids and identities are filed
correctly and are unique; without a restart no session is lost and, restarts
included, the core of a session that stays in memory never changes; and right
after a refresh the active sessions and the matched processes correspond one to
one by pid and start time, so that no pid has two active sessions. -/
theorem session_invariant (plug : Plugins) (maxFinished : Nat)
    (ops : List RegistryOp)
    (hops : ∀ op ∈ ops, op.DistinctPids) :
    let s := runOps plug (Store.fresh maxFinished) ops
    (∀ sid sess, s.reg.sessions.get? sid = some sess → sess.sessionId = sid) ∧
    (∀ pid start sid, s.reg.byIdentity.get? (pid, start) = some sid →
      ∃ sess, s.reg.sessions.get? sid = some sess ∧
        sess.pid = pid ∧ sess.startTimeNs = start) ∧
    (∀ sid sid' sess sess', s.reg.sessions.get? sid = some sess →
      s.reg.sessions.get? sid' = some sess' → sess.pid = sess'.pid →
      sess.startTimeNs = sess'.startTimeNs → sid = sid') ∧
    (∀ more : List RegistryOp, (∀ op ∈ more, op.DistinctPids) →
      RegistryOp.restart ∉ more →
      ∀ sid sess, s.reg.sessions.get? sid = some sess →
      ∃ sess', (runOps plug s more).reg.sessions.get? sid = some sess' ∧
        sess'.core = sess.core) ∧
    (∀ more : List RegistryOp, (∀ op ∈ more, op.DistinctPids) →
      ∀ sid sess sess', s.reg.sessions.get? sid = some sess →
      (∀ pre, pre <+: more → sid ∈ (runOps plug s pre).reg.sessions.keys) →
      (runOps plug s more).reg.sessions.get? sid = some sess' →
        sess'.core = sess.core) ∧
    (∀ clock processes stats, DistinctPids processes →
      ((refresh plug clock processes stats s).1.reg.activeSessions.map
          (fun sess => (sess.pid, sess.startTimeNs))).Perm
        ((matchedProcesses plug s.reg.rules processes).map
          (fun p => (p.pid, p.startTimeNs))) ∧
      ((refresh plug clock processes stats s).1.reg.activeSessions.map
        (·.pid)).Nodup) := by
  intro s
  have hs : s.Good := runOps_good plug (Store.fresh_good maxFinished) hops
  refine ⟨fun sid sess h => hs.valid.sessionId_eq h, ?_, ?_, ?_, ?_, ?_⟩
  · intro pid start sid h
    obtain ⟨sess, hsess, hident⟩ := hs.valid.exists_of_byIdentity h
    exact ⟨sess, hsess, congrArg Prod.fst hident, congrArg Prod.snd hident⟩
  · intro sid sid' sess sess' h h' hpid hstart
    exact hs.valid.id_eq_of_identity h h' (Prod.ext hpid hstart)
  · intro more hmore hno sid sess h
    have hgrow := runOps_grows plug hs hmore hno
    obtain ⟨hmem, hid⟩ := hs.valid.core_mem h
    obtain ⟨sess', hsess', hc'⟩ :=
      (runOps_good plug hs hmore).valid.exists_session (hgrow.subset hmem)
    exact ⟨sess', by rw [← hid]; exact hsess', hc'⟩
  · intro more hmore sid sess sess' h hstay h'
    have ht := runOps_good plug hs hmore
    refine (runOps_core_eq hs hmore (hs.valid.core_mem h).1
      (ht.valid.core_mem h').1 ?_ ?_).symm
    · rw [(hs.valid.core_mem h).2, (ht.valid.core_mem h').2]
    · intro pre hpre
      have hgood : (runOps plug s pre).Good :=
        runOps_good plug hs (fun op hop => hmore op (hpre.subset hop))
      obtain ⟨e, he⟩ := OrderedDict.mem_keys_iff.mp (hstay pre hpre)
      exact ⟨e.core,
        (hgood.valid.core_mem he).1, by
          rw [(hgood.valid.core_mem he).2, (hs.valid.core_mem h).2]⟩
  · intro clock processes stats hd
    have hperm := active_perm_matched plug clock stats hs hd
    refine ⟨hperm, ?_⟩
    have hpids :
        ((matchedProcesses plug s.reg.rules processes).map (·.pid)).Nodup :=
      (show List.Nodup _ from hd).sublist (List.filter_sublist.map _)
    have hfst := hperm.map Prod.fst
    rw [List.map_map, List.map_map] at hfst
    exact hfst.nodup_iff.mpr hpids

/-- Plugins with the fallback adapter only. -/
def plainPlugins : Plugins where
  reCompile _ := none
  adapters := []
  generic := ⟨"generic".toList, fun _ => .ok true, fun _ _ => .ok []⟩

/-- A clock that stands still, with local time `t`. -/
def stillClock (timeNs : Int) : Clock := ⟨timeNs, fun _ => "t".toList⟩

/-- A process observed, then a restart. -/
def observedOnce : List RegistryOp :=
  [.addRule { kind := .pid, value := "7".toList },
    .refresh (stillClock 100) [{ pid := 7, comm := "fio".toList, startTimeNs := 1 }] [],
    .restart]

theorem observedOnce_distinct : ∀ op ∈ observedOnce, op.DistinctPids := by
  simp [observedOnce, RegistryOp.DistinctPids, DistinctPids]

/-- A second process that reuses the pid gets the only active session. -/
theorem session_invariant_pid_reuse :
    let s := runOps plainPlugins (Store.fresh 50) observedOnce
    let reused : List ProcessInfo :=
      [{ pid := 7, comm := "fio".toList, startTimeNs := 9 }]
    let t := (refresh plainPlugins (stillClock 200) reused [] s).1
    t.reg.sessions.values.map (fun sess => (sess.sessionId, sess.startTimeNs))
      = [("sess_t_7".toList, 1), ("sess_t_7_0009".toList, 9)] ∧
    (t.reg.activeSessions.map (fun sess => (sess.pid, sess.startTimeNs))).Perm [(7, 9)] :=
  ⟨by decide +kernel,
    ((session_invariant plainPlugins 50 observedOnce observedOnce_distinct).2.2.2.2.2
      (stillClock 200) _ [] (by decide)).1⟩

end Telemetryd
