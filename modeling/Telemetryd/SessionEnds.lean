import Telemetryd.SessionRules

/-!
# The end of a session

A session ends when its process is gone or its pid is taken over, and the end
is recorded then.  One that was active when the daemon stopped has no end in
the state file; a restart brings it back as finished, and it stays without an
end unless its process is met again.
-/

namespace Telemetryd

open PyText

/-- Sessions of the report end where they should: a finished one has an end
after its start, an active one has none. -/
def LawfulEnds (plug : Plugins) (clock : Clock) (processes : List ProcessInfo)
    (stats : List ProcessIoStat) (s : Store) : Prop :=
  ∀ sess ∈ (refresh plug clock processes stats s).2.sessions,
    (sess.status = .finished →
      ∃ stop, sess.sessionEndNs = some stop ∧ sess.sessionStartNs ≤ stop) ∧
    (sess.status = .active → sess.sessionEndNs = none)

/-- Every session that a restart cut off, finished and without an end, observes
a process that is matched now. -/
def InterruptedReturn (plug : Plugins) (_clock : Clock)
    (processes : List ProcessInfo)
    (_stats : List ProcessIoStat) (s : Store) : Prop :=
  ∀ sid sess, s.reg.sessions.get? sid = some sess → sess.status = .finished →
    sess.sessionEndNs = none →
    ∃ p ∈ matchedProcesses plug s.reg.rules processes,
      sess.core.identity = p.identity

/-- The condition on the sessions, one by one. -/
theorem interruptedReturn_iff {plug : Plugins} {clock : Clock}
    {processes : List ProcessInfo}
    {stats : List ProcessIoStat} {s : Store} :
    InterruptedReturn plug clock processes stats s ↔
      ∀ e ∈ s.reg.sessions.items, e.2.status = .finished →
        e.2.sessionEndNs = none →
        ∃ p ∈ matchedProcesses plug s.reg.rules processes,
          e.2.core.identity = p.identity := by
  simp only [InterruptedReturn, OrderedDict.get?_eq_some_iff, Prod.forall]

instance decidableInterruptedReturn (plug : Plugins) (clock : Clock)
    (processes : List ProcessInfo) (stats : List ProcessIoStat) (s : Store) :
    Decidable (InterruptedReturn plug clock processes stats s) :=
  decidable_of_iff' _ interruptedReturn_iff

/-- From `t` on, the clock does not go back from one refresh to the next. -/
def TimesForward : Int → List RegistryOp → Prop
  | _, [] => True
  | t, .refresh clock _ _ :: ops =>
      t ≤ clock.timeNs ∧ TimesForward clock.timeNs ops
  | t, .addRule _ :: ops => TimesForward t ops
  | t, .removeRule _ _ :: ops => TimesForward t ops
  | t, .clearRules :: ops => TimesForward t ops
  | t, .restart :: ops => TimesForward t ops

/-- At time `t` the session has started and, if it has ended, not before; an
active session has not ended. -/
structure Session.Timely (t : Int) (sess : Session) : Prop where
  started : sess.sessionStartNs ≤ t
  ended : ∀ stop, sess.sessionEndNs = some stop → sess.sessionStartNs ≤ stop
  running : sess.status = .active → sess.sessionEndNs = none

variable {plug : Plugins} {clock : Clock} {processes : List ProcessInfo}
  {stats : List ProcessIoStat} {s : Store} {t : Int}

/-- A timely session stays so. -/
theorem Session.Timely.mono {t t' : Int} {sess : Session} (h : sess.Timely t)
    (ht : t ≤ t') :
    sess.Timely t' :=
  ⟨h.started.trans ht, h.ended, h.running⟩

/-- Ending a session keeps it timely. -/
theorem Session.Timely.finish {sess : Session} (h : sess.Timely t) :
    (sess.finish t).Timely t := by
  refine ⟨h.started, ?_, nofun⟩
  intro stop hstop
  obtain rfl : t = stop := Option.some.inj hstop
  exact h.started

/-- Adopting it does, too. -/
theorem Session.Timely.adopted {sess : Session} (h : sess.Timely t) :
    sess.adopted.Timely t :=
  ⟨h.started, h.ended, nofun⟩

/-- So does reading it back. -/
theorem Session.Timely.persisted {sess : Session} (h : sess.Timely t) :
    sess.persisted.Timely t :=
  ⟨h.started, h.ended, h.running⟩

/-- A session that is brought up to date has no end. -/
theorem end_observe {base : Session} (h : base.Timely t) (p : ProcessInfo)
    (rule : TargetRule)
    (mine : List ProcessIoStat) :
    (observe plug p rule mine base).sessionEndNs = none := by
  unfold observe
  cases hst : base.status with
  | active => simpa using h.running hst
  | finished => simp

/-- **A refresh** keeps all sessions timely. -/
theorem timely_refreshKeeps (plug : Plugins) (rules : List TargetRule)
    (clock : Clock)
    (processes : List ProcessInfo) (stats : List ProcessIoStat) :
    RefreshKeeps plug rules clock.timeNs processes stats
      (Session.Timely clock.timeNs) where
  saved _ h := h.persisted
  finished _ h := h.finish
  opened _ _ _ _ _ := ⟨le_rfl, nofun, fun _ => rfl⟩
  observed p _ rule _ base h := by
    have hend : (observe plug p rule (statsOf stats p.pid) base).sessionEndNs =
        none :=
      end_observe h p rule (statsOf stats p.pid)
    refine ⟨h.started, ?_, fun _ => hend⟩
    intro stop hstop
    rw [hend] at hstop
    cases hstop

/-- One refresh. -/
theorem lawfulEnds_iff (hs : s.Good)
    (hevery : s.Every (Session.Timely clock.timeNs))
    (h : DistinctPids processes) :
    LawfulEnds plug clock processes stats s ↔
      InterruptedReturn plug clock processes stats s := by
  constructor
  · intro hlaw sid sess hsess hst hend
    by_contra hno
    have hgrow := (refreshSessions_spec plug clock stats hs h).1
    obtain ⟨after, hafter, hcore⟩ :=
      hgrow.good.valid.exists_session
        (hgrow.cores.subset (hs.valid.core_mem hsess).1)
    rw [(hs.valid.core_mem hsess).2] at hafter
    rcases refresh_cases hs h hafter with ⟨p, hp, rule, base, hrule, hbase,
      rfl⟩ | ⟨old, hold, rfl, -⟩
    · refine hno ⟨p, (mem_matchedProcesses h).mpr ⟨hp, by rw [hrule]; rfl⟩, ?_⟩
      have hident : base.core.identity = p.identity := hbase.identity
      rw [← hcore]
      exact hident
    · obtain rfl := Option.some.inj (hold.symm.trans hsess)
      have hsame : old.conclude clock.timeNs = old := by
        simp [Session.conclude, hst]
      rw [hsame] at hafter
      obtain ⟨stop, hstop, -⟩ :=
        (hlaw old (mem_sessions_snapshot.mpr ⟨sid, hafter⟩)).1 hst
      rw [hend] at hstop
      cases hstop
  · intro hreturn sess hsess
    obtain ⟨sid, hget⟩ := mem_sessions_snapshot.mp hsess
    have hafter :=
      refreshSessions_every (timely_refreshKeeps plug _ clock processes stats) h
      hevery
    have htimely := hafter.memory sid sess hget
    refine ⟨fun hst => ?_, htimely.running⟩
    rcases refresh_cases hs h hget with hup | ⟨old, hold, rfl, hno⟩
    · have hactive := status_refreshed hup
      rw [hst] at hactive
      cases hactive
    · cases hend : (old.conclude clock.timeNs).sessionEndNs with
      | some stop => exact ⟨stop, rfl, htimely.ended stop hend⟩
      | none =>
          exfalso
          unfold Session.conclude at hend
          split at hend
          · cases hend
          · next hst' =>
            have hfin : old.status = .finished := by
              cases hos : old.status with
              | active => exact absurd hos hst'
              | finished => rfl
            obtain ⟨p, hp, hident⟩ := hreturn sid old hold hfin hend
            exact hno p hp hident

/-- **Which runs report proper ends.**  Along a run of rule changes, refreshes
and restarts on a clock that does not go back, every report has an end for each
finished session, not before its start, and none for an active one, if and only
if at every refresh each session that a restart has cut off observes a process
that is matched. -/
theorem sessions_end_iff (plug : Plugins) (maxFinished : Nat) (t : Int)
    (ops : List RegistryOp)
    (hops : ∀ op ∈ ops, op.DistinctPids) (hclock : TimesForward t ops) :
    Runs.Each (RegistryOp.apply plug) (OnRefresh (LawfulEnds plug))
      (Store.fresh maxFinished) ops ↔
      Runs.Each (RegistryOp.apply plug) (OnRefresh (InterruptedReturn plug))
        (Store.fresh maxFinished) ops := by
  have hkeep : ∀ (ops : List RegistryOp) (s : Store) (t : Int), s.Good →
      s.Every (Session.Timely t) → (∀ op ∈ ops, op.DistinctPids) →
        TimesForward t ops →
      (Runs.Each (RegistryOp.apply plug) (OnRefresh (LawfulEnds plug)) s ops ↔
        Runs.Each (RegistryOp.apply plug) (OnRefresh (InterruptedReturn plug)) s
          ops) := by
    intro ops
    induction ops with
    | nil => exact fun _ _ _ _ _ _ => Iff.rfl
    | cons op ops ih =>
        intro s t hs hevery hops hclock
        have hop := hops op List.mem_cons_self
        have hgood : (op.apply plug s).Good := apply_good hs hop
        have hrest := fun o ho => hops o (List.mem_cons_of_mem _ ho)
        have hother :
            (∀ clock processes stats, op ≠ .refresh clock processes stats) →
            (op.apply plug s).Every (Session.Timely t) := fun hne =>
          apply_every (fun _ h => h.persisted) (fun _ h => h.adopted) hevery hne
        cases op with
        | refresh clock processes stats =>
            obtain ⟨ht, hclock⟩ := hclock
            have hnow := hevery.mono fun _ h => h.mono ht
            exact and_congr (lawfulEnds_iff hs hnow hop) (ih _ _ hgood
              (refreshSessions_every
                (timely_refreshKeeps plug _ clock processes stats) hop hnow)
              hrest hclock)
        | addRule rule =>
            exact and_congr Iff.rfl (ih _ t hgood (hother nofun) hrest hclock)
        | removeRule kind value =>
            exact and_congr Iff.rfl (ih _ t hgood (hother nofun) hrest hclock)
        | clearRules =>
            exact and_congr Iff.rfl (ih _ t hgood (hother nofun) hrest hclock)
        | restart =>
            exact and_congr Iff.rfl (ih _ t hgood (hother nofun) hrest hclock)
  exact hkeep ops _ t (Store.fresh_good maxFinished)
    (Store.fresh_every _ maxFinished) hops hclock

/-- A process that outlives the daemon is met again. -/
theorem sessions_end_iff_resumed :
    Runs.Each (RegistryOp.apply plainPlugins)
      (OnRefresh (LawfulEnds plainPlugins))
      (Store.fresh 50) observedByName :=
  (sessions_end_iff plainPlugins 50 0 observedByName observedByName_distinct
    ⟨by decide, by decide, trivial⟩).mpr (by decide +kernel)

/-- **A session without an end.**  The process of an active session dies while
the daemon is down.  The next report has the session as finished, with no
end. -/
theorem interrupted_session_no_end :
    (refresh plainPlugins (stillClock 200) [] []
        (runOps plainPlugins (Store.fresh 50) observedOnce)).2.sessions.map
      (fun sess => (sess.status, sess.sessionStartNs, sess.sessionEndNs))
      = [(.finished, 100, none)] := by
  decide +kernel

end Telemetryd
