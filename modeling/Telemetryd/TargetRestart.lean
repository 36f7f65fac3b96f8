import Telemetryd.TargetSessions

/-!
# Resuming sessions after a restart

The state file holds the last `maxFinished` sessions in insertion order,
whatever their status.  A live process whose session has left that window is
not recognised after a restart and gets a second session.  The main theorem
says that this is the only way to lose one: every matched process is resumed,
whatever the clock reads, exactly when every active session is in the window.
-/

namespace Telemetryd

open PyText

/-- A new registry on the file of `s`. -/
def Store.restarted (s : Store) : Store :=
  { s with reg := Registry.load s.reg.maxFinished s.file }

/-- After a restart and a refresh with the same processes, each matched process
has an active session with the id and the start it had before. -/
def Resumes (plug : Plugins) (processes : List ProcessInfo) (s : Store)
    (clock : Clock)
    (stats : List ProcessIoStat) : Prop :=
  ∀ p ∈ matchedProcesses plug s.reg.rules processes, ∃ sid before after,
    s.reg.sessions.get? sid = some before ∧
    before.pid = p.pid ∧ before.startTimeNs = p.startTimeNs ∧
    (refresh plug clock processes stats s.restarted).1.reg.sessions.get? sid =
      some after ∧
    after.status = .active ∧ after.pid = p.pid ∧
      after.startTimeNs = p.startTimeNs ∧
    after.sessionStartNs = before.sessionStartNs

/-- Every active session is among those the file keeps. -/
def ActiveInWindow (r : Registry) : Prop :=
  ∀ sess ∈ r.activeSessions, sess ∈ lastSlice r.maxFinished r.sessions.values

/-- In a valid registry a session is in the window when its core is. -/
theorem mem_window_iff {r : Registry} (h : r.Valid) {sid : PyText}
    {sess : Session}
    (hs : r.sessions.get? sid = some sess) :
    sess ∈ lastSlice r.maxFinished r.sessions.values ↔
      sess.core ∈ lastSlice r.maxFinished r.cores := by
  rw [Registry.cores, ← map_lastSlice]
  constructor
  · exact fun hm => List.mem_map_of_mem hm
  · intro hm
    obtain ⟨other, ho, hcore⟩ := List.mem_map.mp hm
    obtain ⟨k, hk⟩ :=
      OrderedDict.mem_values_iff.mp ((lastSlice_suffix _ _).subset ho)
    obtain rfl :=
      h.id_eq_of_identity hk hs (congrArg SessionCore.identity hcore)
    obtain rfl := Option.some.inj (hk.symm.trans hs)
    exact ho

section

variable {plug : Plugins} {processes : List ProcessInfo} {s : Store}

/-- After the restart the rules match the same processes. -/
theorem restarted_spec (hs : s.Good) :
    s.restarted.Good ∧
      s.restarted.reg.cores = lastSlice s.reg.maxFinished s.reg.cores ∧
      s.restarted.reg.rules = s.reg.rules := by
  obtain ⟨hgood, hcores, -⟩ := apply_restart plainPlugins hs
  exact ⟨hgood, hcores, (load_spec hs.valid hs.inSync).2.2.1⟩

/-- A process whose core is in the window keeps its session. -/
theorem resumes_of_window (hs : s.Good) (h : DistinctPids processes)
    {p : ProcessInfo} (hp : p ∈ matchedProcesses plug s.reg.rules processes)
    {c : SessionCore} (hc : c ∈ lastSlice s.reg.maxFinished s.reg.cores)
    (hident : c.identity = p.identity) (clock : Clock)
    (stats : List ProcessIoStat) :
    ∃ after, (refresh plug clock processes stats
      s.restarted).1.reg.sessions.get? c.sessionId
        = some after ∧ after.status = .active ∧ after.core = c := by
  obtain ⟨hgood, hcores, hrules⟩ := restarted_spec hs
  obtain ⟨hgrow, hiff, -⟩ :=
    refreshSessions_spec plug clock stats hgood h
  have hmem :=
    hgrow.cores.subset (show c ∈ s.restarted.reg.cores by rw [hcores]; exact hc)
  obtain ⟨after, hafter, rfl⟩ := hgrow.good.valid.exists_session hmem
  refine ⟨after, hafter, (hiff _ _ hafter).mpr ⟨p, ?_, hident⟩, rfl⟩
  rw [hrules]
  exact hp

/-- A process whose core is outside the window starts again at the clock's
reading. -/
theorem restarts_anew (hs : s.Good) (h : DistinctPids processes)
    {c : SessionCore} (hc : c ∈ s.reg.cores)
    (hno : c ∉ lastSlice s.reg.maxFinished s.reg.cores)
    {clock : Clock} {stats : List ProcessIoStat} {sid : PyText}
    {after : Session}
    (hafter : (refresh plug clock processes stats
      s.restarted).1.reg.sessions.get? sid
      = some after) (hident : after.core.identity = c.identity) :
    after.sessionStartNs = clock.timeNs := by
  obtain ⟨hgood, hcores, -⟩ := restarted_spec hs
  obtain ⟨hgrow, -, -⟩ :=
    refreshSessions_spec plug clock stats hgood h
  rcases hgrow.started _ (hgrow.good.valid.core_mem hafter).1 with hold | hnew
  · rw [hcores] at hold
    have := hs.valid.core_eq_of_identity ((lastSlice_suffix _ _).subset hold)
      hc hident
    exact absurd (this ▸ hold) hno
  · exact hnew

/-- A session that was active and is resumed at another reading of the clock is
in the window. -/
theorem mem_window_of_resumes (hs : s.Good) (h : DistinctPids processes)
    {clock : Clock} {stats : List ProcessIoStat}
    (hres : Resumes plug processes s clock stats)
    {sid : PyText} {sess : Session}
    (hsess : s.reg.sessions.get? sid = some sess)
    {p : ProcessInfo} (hp : p ∈ matchedProcesses plug s.reg.rules processes)
    (hident : sess.core.identity = p.identity)
    (hclock : sess.sessionStartNs ≠ clock.timeNs) :
    sess ∈ lastSlice s.reg.maxFinished s.reg.sessions.values := by
  rw [mem_window_iff hs.valid hsess]
  by_contra hno
  obtain ⟨k, before, after, hbefore, hpid, hst, hafter, -, hpid', hst', heq⟩ :=
    hres p hp
  have hsame : before.core = sess.core := hs.valid.core_eq_of_identity
    (hs.valid.core_mem hbefore).1 (hs.valid.core_mem hsess).1
    ((Prod.ext hpid hst : before.core.identity = p.identity).trans hident.symm)
  have hnew : after.sessionStartNs = clock.timeNs :=
    restarts_anew hs h (hs.valid.core_mem hsess).1 hno hafter
      ((Prod.ext hpid' hst' : after.core.identity =
        p.identity).trans hident.symm)
  have hb : before.sessionStartNs = sess.sessionStartNs :=
    congrArg SessionCore.sessionStartNs hsame
  apply hclock
  rw [← hb, ← heq, hnew]

end

/-- **When a restart resumes every live session.**  In every state right after
a refresh, all matched processes are resumed, whatever clock and statistics
the next refresh has, if and only if every active session is among the last
`maxFinished` sessions. -/
theorem restart_resumes_iff (plug : Plugins) (maxFinished : Nat)
    (ops : List RegistryOp)
    (clock : Clock) (processes : List ProcessInfo) (stats : List ProcessIoStat)
    (hops : ∀ op ∈ ops, op.DistinctPids) (h : DistinctPids processes) :
    let s := (refresh plug clock processes stats
      (runOps plug (Store.fresh maxFinished) ops)).1
    (∀ clock' stats', Resumes plug processes s clock' stats') ↔
      ActiveInWindow s.reg := by
  intro s
  have hstart : (runOps plug (Store.fresh maxFinished) ops).Good :=
    runOps_good plug (Store.fresh_good maxFinished) hops
  obtain ⟨hgrow, hiff, hex⟩ := refreshSessions_spec plug clock stats hstart h
  have hs : s.Good := hgrow.good
  have hrules :
      s.reg.rules = (runOps plug (Store.fresh maxFinished) ops).reg.rules :=
    hgrow.rules
  constructor
  · intro hres sess hact
    obtain ⟨sid, hsess, hstatus⟩ := mem_activeSessions.mp hact
    obtain ⟨p, hp, hident⟩ := (hiff sid sess hsess).mp hstatus
    rw [← hrules] at hp
    refine mem_window_of_resumes hs h
      (hres (stillClock (sess.sessionStartNs + 1)) [])
      hsess hp hident ?_
    simp [stillClock]
  · intro hwin clock' stats' p hp
    rw [hrules] at hp
    obtain ⟨sid, sess, hsess, hident, -⟩ := hex p hp
    have hstatus : sess.status = .active :=
      (hiff sid sess hsess).mpr ⟨p, hp, hident⟩
    have hmem := (mem_window_iff hs.valid hsess).mp
      (hwin sess (mem_activeSessions.mpr ⟨sid, hsess, hstatus⟩))
    obtain ⟨after, hafter, hact, hcore⟩ :=
      resumes_of_window hs h (hrules ▸ hp) hmem hident clock' stats'
    rw [(hs.valid.core_mem hsess).2] at hafter
    refine ⟨sid, sess, after, hsess, congrArg Prod.fst hident,
      congrArg Prod.snd hident, hafter,
      hact, ?_, ?_, congrArg SessionCore.sessionStartNs hcore⟩
    · exact (congrArg SessionCore.pid hcore).trans (congrArg Prod.fst hident)
    · exact (congrArg SessionCore.startTimeNs hcore).trans
        (congrArg Prod.snd hident)

/-- One process fits the window, and its session survives the restart. -/
theorem restart_resumes_single :
    Resumes plainPlugins [{ pid := 7, comm := "fio".toList, startTimeNs := 1 }]
      (runOps plainPlugins (Store.fresh 50) (observedOnce.take 2))
        (stillClock 200) [] := by
  have hops : ∀ op ∈ observedOnce.take 1, op.DistinctPids := fun op hop =>
    observedOnce_distinct op (List.mem_of_mem_take hop)
  refine (restart_resumes_iff plainPlugins 50 (observedOnce.take 1)
    (stillClock 100)
    [{ pid := 7, comm := "fio".toList, startTimeNs := 1 }] [] hops
      (by decide)).mpr ?_ _ _
  unfold ActiveInWindow
  decide +kernel

/-- One more job than the default `max_finished`. -/
def crowd : List ProcessInfo :=
  (List.range 51).map (fun n =>
    { pid := n, comm := "fio".toList, startTimeNs := n })

/-- The registry that is to observe the crowd. -/
def beforeCrowd : Store :=
  runOps plainPlugins (Store.fresh 50) [.addRule { kind := .name, value := "fio".toList }]

/-- The registry after a single refresh over the crowd. -/
def crowded : Store :=
  (refresh plainPlugins (stillClock 100) crowd [] beforeCrowd).1

/-- With 51 live jobs and the default window of 50, a restart a little later
does not resume them all. -/
theorem crowd_not_resumed :
    ¬ Resumes plainPlugins crowd crowded (stillClock 200) [] := by
  intro hres
  have hd : DistinctPids crowd := by decide +kernel
  have hstart : beforeCrowd.Good :=
    runOps_good plainPlugins (Store.fresh_good 50) (by simp [RegistryOp.DistinctPids])
  have hspec := refreshSessions_spec plainPlugins (stillClock 100) [] hstart hd
  have hcrowded :
      crowded = refreshSessions plainPlugins (stillClock 100) crowd
      [] beforeCrowd := by
    rw [crowded, refresh]
  rw [← hcrowded] at hspec
  obtain ⟨hgrow, hiff, -⟩ := hspec
  have hs : crowded.Good := hgrow.good
  have hsub : crowded.reg.activeSessions ⊆
      lastSlice 50 crowded.reg.sessions.values := by
    intro sess hact
    obtain ⟨sid, hsess, hstatus⟩ := mem_activeSessions.mp hact
    obtain ⟨p, hp, hident⟩ := (hiff sid sess hsess).mp hstatus
    have hmax : crowded.reg.maxFinished = 50 := hgrow.maxFinished
    rw [← hmax]
    rw [← hgrow.rules] at hp
    refine mem_window_of_resumes hs hd hres hsess hp hident ?_
    rcases hgrow.started _ (hs.valid.core_mem hsess).1 with hold | hnew
    · have hnone : beforeCrowd.reg.cores = [] := rfl
      rw [hnone] at hold
      exact absurd hold List.not_mem_nil
    · rw [show sess.sessionStartNs = 100 from hnew]
      decide
  have hperm := active_perm_matched plainPlugins (stillClock 100) [] hstart hd
  have hmany : crowded.reg.activeSessions.length = 51 := by
    have hcount :
        (matchedProcesses plainPlugins beforeCrowd.reg.rules crowd).length =
        51 := by
      decide +kernel
    have hlen := hperm.length_eq
    rw [List.length_map, List.length_map, hcount] at hlen
    exact hlen
  have hfew := (List.subperm_of_subset
    (List.Nodup.of_map _ hs.valid.active_nodup) hsub).length_le
  have hwin : (lastSlice 50 crowded.reg.sessions.values).length ≤ 50 := by
    unfold lastSlice
    rw [if_neg (by decide), List.length_drop]
    omega
  omega

end Telemetryd
