import Telemetryd.ProfilingHost
import Telemetryd.SubmissionCache

/-!
# Whose I/O a session shows

A profile is put together from sources of different age: the statistics of the
last complete tick, the process list, which may come from the cache, and the
stored sessions.  The statistics are joined with the processes by the pid alone,
while a session is of one process, known by its pid and its start time.  So the
I/O of a session is its own as long as its pid did not change hands between the
commands that the tick counts and the moment the processes were listed.
-/

namespace Telemetryd

open PyText PyError Counters GroupedSums

/-! ### The property and its condition -/

/-- The I/O of every active session of the last profile was submitted by the
process of the session. -/
def Host.OwnIo (s : Host) : Prop :=
  ∀ a ∈ s.answer, ∀ sess ∈ a.snapshot.sessions, sess.status = .active →
    ∀ w ∈ sess.aggregate, w.iops ≠ 0 →
      ∀ c ∈ a.tick.commands, c.cmd.pid.toInt = sess.pid →
        c.startTimeNs = sess.startTimeNs

instance (s : Host) : Decidable s.OwnIo :=
  inferInstanceAs (Decidable (∀ a ∈ s.answer, _))

/-- A pid of the processes that has commands in a tick and is observed did not
change hands between: the process that is listed is the one that submitted
them. -/
def HoldersKept (plug : Plugins) (rules : List TargetRule) (tick : Tick)
    (procs : List ProcessInfo) : Prop :=
  ∀ p ∈ procs, (firstRule plug rules p).isSome = true →
    tick.maps.opsOfPid p.pid ≠ 0 →
    ∀ c ∈ tick.commands, c.cmd.pid.toInt = p.pid → c.startTimeNs = p.startTimeNs

instance (plug : Plugins) (rules : List TargetRule) (tick : Tick)
    (procs : List ProcessInfo) :
    Decidable (HoldersKept plug rules tick procs) :=
  inferInstanceAs (Decidable (∀ p ∈ procs, _))

/-- Every profile is put together from a tick and processes of the same
holders. -/
def Host.JoinsHolders (o : PrintOrder) (plug : Plugins) (s : Host)
    (step : HostStep) : Prop :=
  ∀ j ∈ s.joins o step, HoldersKept plug s.store.reg.rules j.1 j.2

instance (o : PrintOrder) (plug : Plugins) (s : Host) (step : HostStep) :
    Decidable (s.JoinsHolders o plug step) :=
  inferInstanceAs (Decidable (∀ j ∈ s.joins o step, _))

/-! ### One profile -/

section Profile

variable {o : PrintOrder} (plug : Plugins) (clock : Clock)
    {procs : List ProcessInfo}
  {stats : List ProcessIoStat} {tick : Tick}

/-- The session of an observed process that is listed. -/
def ShowsProcess (tick : Tick) (proc : ProcessInfo) (sess : Session) : Prop :=
  sess.pid = proc.pid ∧ sess.startTimeNs = proc.startTimeNs ∧
    ∃ w, sess.aggregate = some w ∧ w.iops = tick.maps.opsOfPid proc.pid

/-- **The active sessions** are those of the observed processes, each with what
the tick counts under the pid. -/
theorem active_sessions {st : Store} (hs : st.Good)
    (hprocs : DistinctPids procs)
    (hstats : tickStats o tick.maps = .ok stats) :
    (∀ sess ∈ (refresh plug clock procs stats st).2.sessions,
      sess.status = .active →
      ∃ proc ∈ procs, (firstRule plug st.reg.rules proc).isSome = true ∧
        ShowsProcess tick proc sess) ∧
    ∀ proc ∈ procs, (firstRule plug st.reg.rules proc).isSome = true →
      ∃ sess ∈ (refresh plug clock procs stats st).2.sessions,
        sess.status = .active ∧ ShowsProcess tick proc sess := by
  have hshows : ∀ sess ∈ (refresh plug clock procs stats st).2.sessions,
      sess.status = .active →
      ∀ proc ∈ procs, sess.pid = proc.pid → ShowsProcess tick proc sess := by
    intro sess hsess hact proc hproc hpid
    obtain ⟨rule, base, -, hident, rfl⟩ :=
      active_session_of_pid hs hprocs hproc hsess hact hpid
    refine ⟨hpid, congrArg Prod.snd hident, _, rfl, ?_⟩
    rw [iops_measuredFromStats]
    exact iopsOf_tickStats hstats proc.pid
  constructor
  · intro sess hsess hact
    obtain ⟨-, hiff, -⟩ := refreshSessions_spec plug clock stats hs hprocs
    obtain ⟨sid, hget⟩ := mem_sessions_snapshot.mp hsess
    obtain ⟨proc, hmatched, hident⟩ := (hiff sid sess hget).mp hact
    obtain ⟨hproc, hrule⟩ := (mem_matchedProcesses hprocs).mp hmatched
    exact ⟨proc, hproc, hrule,
      hshows sess hsess hact proc hproc (congrArg Prod.fst hident)⟩
  · intro proc hproc hrule
    obtain ⟨sess, hsess, hact, hpid⟩ :=
      exists_active_session hs hprocs hproc hrule
    exact ⟨sess, hsess, hact, hshows sess hsess hact proc hproc hpid⟩

/-- **A profile shows own I/O** exactly if the holders were kept. -/
theorem ownIo_iff_of_answer {s : Host} {st : Store} (hs : st.Good)
    (hprocs : DistinctPids procs)
    (hstats : tickStats o tick.maps = .ok stats)
    (hanswer : s.answer =
      some ⟨tick, (getProfile plug clock true stats procs st).2⟩) :
    s.OwnIo ↔ HoldersKept plug st.reg.rules tick procs := by
  obtain ⟨hactive, hexists⟩ := active_sessions plug clock hs hprocs hstats
  constructor
  · intro hown proc hproc hrule hcounted c hc hpid
    obtain ⟨sess, hsess, hact, hsame, hstart, w, hw, hiops⟩ :=
      hexists proc hproc hrule
    have hzero : w.iops ≠ 0 := by
      rw [hiops]
      exact Nat.cast_ne_zero.mpr hcounted
    rw [← hstart]
    exact hown _ hanswer sess hsess hact w hw hzero c hc (hpid.trans hsame.symm)
  · intro hkept a ha sess hsess hact w hw hzero c hc hpid
    obtain rfl := Option.some.inj (hanswer.symm.trans ha)
    obtain ⟨proc, hproc, hrule, hsame, hstart, w', hw', hiops⟩ :=
      hactive sess hsess hact
    obtain rfl := Option.some.inj (hw.symm.trans hw')
    rw [hiops, Nat.cast_ne_zero] at hzero
    rw [hstart]
    exact hkept proc hproc hrule hzero c hc (hpid.trans hsame)

end Profile

/-! ### What a step answers -/

section Answers

variable {o : PrintOrder} {plug : Plugins} {s next : Host} {step : HostStep}

/-- What a step is for the callers: it puts nothing together, and then nothing
new is answered; or it puts a tick and processes together, and the answer is the
profile of these. -/
inductive Host.Answers (o : PrintOrder) (plug : Plugins) (s : Host)
    (step : HostStep) (next : Host) : Prop
  | idle (hjoins : s.joins o step = none) (hanswer : next.answer = s.answer ∨
    next.answer = none)
  | profile (clock : Clock) (tick : Tick) (stats : List ProcessIoStat)
      (procs : List ProcessInfo)
      (hjoins : s.joins o step =
        some (tick, procs)) (hstats : tickStats o tick.maps = .ok stats)
      (hprocs : DistinctPids procs)
      (hanswer : next.answer =
        some ⟨tick, (getProfile plug clock true stats procs s.store).2⟩)

theorem Host.Moves.answers (hmove : s.Moves o plug step next) (h : s.Ready o) :
    s.Answers o plug step next := by
  cases hmove with
  | same hjoins => exact .idle hjoins (Or.inl rfl)
  | start | exit | submit | record | tick | wait | list =>
      exact .idle rfl (Or.inl rfl)
  | raised hjoins => exact .idle hjoins (Or.inr rfl)
  | asked hjoins => exact .idle hjoins (Or.inl rfl)
  | cached hjoins hstats hentry =>
      exact .profile _ _ _ _ hjoins hstats (h.lists.cached _ hentry) rfl
  | finished hjoins hpolling hprocs =>
      exact .profile _ _ _ _ hjoins (h.measured _ hpolling)
        (h.lists.listed _ hpolling _ hprocs) rfl

/-- A step leaves the sessions with their own I/O exactly if it joins the same
holders. -/
theorem Host.Answers.ownIo_iff (h : s.Answers o plug step next)
    (hs : s.store.Good) (hown : s.OwnIo) :
    next.OwnIo ↔ s.JoinsHolders o plug step := by
  unfold Host.JoinsHolders
  cases h with
  | idle hjoins hanswer =>
      refine iff_of_true ?_ ?_
      · intro a ha
        rcases hanswer with hsame | hnone
        · exact hown a (hsame ▸ ha)
        · rw [hnone] at ha
          exact absurd ha (by simp)
      · rw [hjoins]
        exact fun _ hj => absurd hj (by simp)
  | profile clock tick stats procs hjoins hstats hprocs hanswer =>
      rw [ownIo_iff_of_answer plug clock hs hprocs hstats hanswer, hjoins]
      simp

end Answers

/-! ### Runs -/

/-- **Sessions show their own I/O** throughout a run, whatever starts, exits,
submits, completes and is counted in between, and whenever profiles are made: if
and only if no profile joins a tick with processes of which an observed one has
taken over a pid that the tick counts, or has lost it. -/
theorem own_io_iff (o : PrintOrder) (plug : Plugins) (minTtl durationFactor : ℚ)
    (maxFinished : Nat)
    (ops : List RegistryOp) (hops : ∀ op ∈ ops, op.DistinctPids)
    (steps : List HostStep) :
    let host := Host.booted minTtl durationFactor
      (runOps plug (Store.fresh maxFinished) ops)
    Runs.Always (Host.step o plug) Host.OwnIo host steps ↔
      Runs.Each (Host.step o plug) (Host.JoinsHolders o plug) host steps := by
  intro host
  have hgood := runOps_good plug (Store.fresh_good maxFinished) hops
  have hnone : host.OwnIo := fun _ ha => absurd ha (by simp [host, Host.booted])
  have hiff : ∀ (s : Host) (step : HostStep), s.Ready o → s.OwnIo →
      ((s.step o plug step).OwnIo ↔ s.JoinsHolders o plug step) :=
        fun s step h hown =>
    ((Host.moves h.missed step).answers h).ownIo_iff h.good hown
  refine Runs.always_iff_each (I := fun s : Host => s.Ready o ∧
    s.OwnIo) (fun _ h => h.2) ?_ ?_
    ⟨Host.booted_ready minTtl durationFactor hgood, hnone⟩
  · intro s step h hjoins
    exact ⟨h.1.moves (Host.moves h.1.missed step),
      (hiff s step h.1 h.2).mpr hjoins⟩
  · intro s step h hown
    exact (hiff s step h.1 h.2).mp hown

/-! ### What an aggregate counts -/

/-- The ledger without the processes. -/
def Issues.ledger (i : Issues) : Ledger where
  pending k := (i.inFlight k).map Issued.cmd
  submitted := i.submitted.map Issued.cmd
  completed := i.completed.map Issued.cmd

theorem Issues.ledger_step (i : Issues) (startTimeNs : Int) (p : Probe) :
    (i.step startTimeNs p).ledger = i.ledger.step p := by
  have hpending : ∀ (k k' : Key3) (c : Option Issued),
      (if k' = k then c else i.inFlight k').map Issued.cmd
        = if k' = k then c.map Issued.cmd
          else (i.inFlight k').map Issued.cmd := by
    intro k k' c
    split <;> rfl
  cases p with
  | setupCmd a =>
      unfold Issues.step Issues.ledger Ledger.step
      simp only [hpending, List.map_append]
      rfl
  | completeRq a =>
      unfold Issues.step Issues.ledger Ledger.step
      simp only [hpending, List.map_append, Option.map_none, Option.toList_map]
  | nvmeTimeout a => rfl
  | interval => rfl

/-- The counters of a tick count its commands. -/
def Tick.Counted (t : Tick) : Prop := Tallied t.maps t.issues.ledger

/-- The rate of an active session is what its tick counts under its pid. -/
def Profiled.Measured (a : Profiled) : Prop :=
  ∀ sess ∈ a.snapshot.sessions, sess.status = .active →
    ∃ w, sess.aggregate = some w ∧ w.iops = a.tick.maps.opsOfPid sess.pid

theorem Host.Answers.measured {o : PrintOrder} {plug : Plugins} {s next : Host}
    {step : HostStep}
    (h : s.Answers o plug step next) (hs : s.store.Good)
    (hmeasured : ∀ a ∈ s.answer, a.Measured) :
    ∀ a ∈ next.answer, a.Measured := by
  intro a ha
  cases h with
  | idle hjoins hanswer =>
      rcases hanswer with hsame | hnone
      · exact hmeasured a (hsame ▸ ha)
      · rw [hnone] at ha
        exact absurd ha (by simp)
  | profile clock tick stats procs hjoins hstats hprocs hanswer =>
      obtain rfl := Option.some.inj (hanswer.symm.trans ha)
      intro sess hsess hact
      obtain ⟨proc, -, -, hsame, -, w, hw, hiops⟩ :=
        (active_sessions plug clock hs hprocs hstats).1 sess hsess hact
      exact ⟨w, hw, by rw [hiops, hsame]⟩

/-- The counter of a pid is the number of its commands, unless it ran over. -/
theorem Tick.Counted.opsOfPid {t : Tick} (h : t.Counted)
    (hfew : t.issues.submitted.length < 2 ^ 64)
    (pid : Int) : t.maps.opsOfPid pid
      = (t.issues.submitted.filter (fun c =>
        decide (c.cmd.pid.toInt = pid))).length := by
  have hfit : ∀ k,
      groupSum SetupCmd.named (fun _ => 1) t.issues.ledger.submitted k <
      2 ^ 64 := by
    intro k
    have hle : groupSum SetupCmd.named (fun _ => 1) t.issues.ledger.submitted k
        ≤ t.issues.ledger.submitted.length * 1 :=
          groupSum_le_length (fun _ => Nat.le_refl 1) _ k
    have hlen : t.issues.ledger.submitted.length = t.issues.submitted.length :=
      List.length_map _
    omega
  have hgroup := h.procOps.groupSum_items hfit (fun k => k.2.1.toInt) pid
  rw [groupSum_one, Issues.ledger, List.filter_map, List.length_map] at hgroup
  exact hgroup

/-- The probe of the step, if it is one, has a time. -/
def HostStep.Timed : HostStep → Prop
  | .probe p => p.Timed
  | _ => True

/-- Every active session has as many operations as its tick has commands
submitted under its pid. -/
def Host.CountsCommands (s : Host) : Prop :=
  ∀ a ∈ s.answer, a.tick.issues.submitted.length < 2 ^ 64 →
    ∀ sess ∈ a.snapshot.sessions,
    sess.status = .active → ∃ w, sess.aggregate = some w ∧ w.iops
      = (a.tick.issues.submitted.filter (fun c =>
        decide (c.cmd.pid.toInt = sess.pid))).length

/-- The invariant of a run whose probes have a time. -/
structure Host.Counting (o : PrintOrder) (s : Host) : Prop where
  ready : s.Ready o
  kept : s.issues.ledger.Kept s.collector
  ticks : s.Ticks Tick.Counted
  measured : ∀ a ∈ s.answer, a.Measured

theorem Host.Counting.countsCommands {o : PrintOrder} {s : Host}
    (h : s.Counting o) :
    s.CountsCommands := by
  intro a ha hfew sess hsess hact
  obtain ⟨w, hw, hiops⟩ := h.measured a ha sess hsess hact
  refine ⟨w, hw, ?_⟩
  rw [hiops, (h.ticks.answer a ha).opsOfPid hfew]

/-- The collector counts what is recorded. -/
theorem Host.Moves.kept {o : PrintOrder} {plug : Plugins} {s next : Host}
    {step : HostStep}
    (hmove : s.Moves o plug step next) (h : s.issues.ledger.Kept s.collector)
    (htimed : step.Timed) :
    next.issues.ledger.Kept next.collector := by
  have hrecord : ∀ start p, p.Timed →
      (s.record o start p).issues.ledger.Kept
      (s.record o start p).collector := by
    intro start p hp
    unfold Host.record
    dsimp only
    rw [Issues.ledger_step]
    exact h.step o hp
  cases hmove with
  | submit | record => exact hrecord _ _ htimed
  | tick => exact hrecord 0 .interval htimed
  | same | start | exit | wait | list | raised | asked | cached | finished =>
      exact h

theorem Host.Counting.step {o : PrintOrder} {plug : Plugins} {s : Host}
    (h : s.Counting o)
    {step : HostStep} (htimed : step.Timed) :
    (s.step o plug step).Counting o := by
  have hmove : s.Moves o plug step (s.step o plug step) :=
    Host.moves h.ready.missed step
  exact ⟨h.ready.moves hmove, hmove.kept h.kept htimed,
    h.ticks.moves hmove h.kept.tallied,
    (hmove.answers h.ready).measured h.ready.good h.measured⟩

/-- **An aggregate counts commands.**  Throughout a run, the rate of every
active session of a profile is the number of commands that were submitted under
its pid in the tick the profile was made from. -/
theorem aggregate_counts_commands (o : PrintOrder) (plug : Plugins)
    (minTtl durationFactor : ℚ)
    {store : Store} (hs : store.Good) {steps : List HostStep}
    (hsteps : Runs.Each (Host.step o plug) (fun _ step => step.Timed)
      (Host.booted minTtl durationFactor store) steps) :
    Runs.Always (Host.step o plug) Host.CountsCommands
      (Host.booted minTtl durationFactor store) steps := by
  refine Runs.always_of_each (I := Host.Counting o) (fun _ h =>
    h.countsCommands)
    (fun s step h htimed => h.step htimed) ?_ hsteps
  have hkept : ({} : Issues).ledger.Kept {} :=
    Ledger.kept_run o (List.forall_mem_nil Probe.Timed)
  exact ⟨Host.booted_ready minTtl durationFactor hs, hkept, ⟨hkept.tallied,
    fun _ hp => absurd hp (by simp [Host.booted]), fun _ ha =>
      absurd ha (by simp [Host.booted])⟩,
    fun _ ha => absurd ha (by simp [Host.booted])⟩

/-! ### Hosts that do not reuse pids -/

/-- The commands of a ledger are of processes that ran. -/
structure Issues.Known (ids : List (Int × Int)) (i : Issues) : Prop where
  inFlight : ∀ k, ∀ c ∈ i.inFlight k, c.identity ∈ ids
  submitted : ∀ c ∈ i.submitted, c.identity ∈ ids
  completed : ∀ c ∈ i.completed, c.identity ∈ ids

/-- A process that starts has a pid that no process ever had. -/
def Host.NewPid (s : Host) : HostStep → Prop
  | .start p => p.pid ∉ s.identities.map Prod.fst
  | _ => True

/-- The invariant of a host that never gives a pid away twice. -/
structure Host.Unshared (o : PrintOrder) (s : Host) : Prop where
  ready : s.Ready o
  own : s.OwnIo
  distinct : (s.identities.map Prod.fst).Nodup
  lists : s.Lists (fun procs => ∀ p ∈ procs, p.identity ∈ s.identities)
  issues : s.issues.Known s.identities
  ticks : s.Ticks (fun t => t.issues.Known s.identities)

section Unshared

variable {o : PrintOrder} {plug : Plugins} {s next : Host} {act : HostStep}

theorem Issues.Known.mono {ids ids' : List (Int × Int)} {i : Issues}
    (h : i.Known ids) (hids : ids ⊆ ids') :
    i.Known ids' :=
  ⟨fun k c hc => hids (h.inFlight k c hc), fun c hc => hids (h.submitted c hc),
    fun c hc => hids (h.completed c hc)⟩

theorem Issues.Known.recorded {ids : List (Int × Int)} {i : Issues}
    (h : i.Known ids) {start : Int} {p : Probe}
    (hsubmit : ∀ a, p = .setupCmd a → (a.pid.toInt, start) ∈ ids) :
    (i.step start p).Known ids := by
  cases p with
  | setupCmd a =>
      have hnew := hsubmit a rfl
      refine ⟨fun k c hc => ?_, fun c hc => ?_, h.completed⟩
      · unfold Issues.step at hc
        dsimp only at hc
        split at hc
        · obtain rfl := Option.some.inj hc
          exact hnew
        · exact h.inFlight k c hc
      · rcases List.mem_append.mp hc with hc | hc
        · exact h.submitted c hc
        · rw [List.mem_singleton.mp hc]
          exact hnew
  | completeRq a =>
      refine ⟨fun k c hc => ?_, h.submitted, fun c hc => ?_⟩
      · unfold Issues.step at hc
        dsimp only at hc
        split at hc
        · exact absurd hc (by simp)
        · exact h.inFlight k c hc
      · rcases List.mem_append.mp hc with hc | hc
        · exact h.completed c hc
        · exact h.inFlight a.cmd c (Option.mem_toList.mp hc)
  | nvmeTimeout a => exact h
  | interval => exact ⟨h.inFlight, List.forall_mem_nil _, List.forall_mem_nil _⟩

/-- Whoever ran is known ever after. -/
theorem Host.Moves.identities (hmove : s.Moves o plug act next) :
    s.identities ⊆ next.identities := by
  cases hmove with
  | start => exact List.subset_append_left _ _
  | same | exit | submit | record | tick | wait | list | raised | asked | cached | finished =>
      exact List.Subset.refl _

theorem Host.Unshared.running_moves (h : s.Unshared o)
    (hmove : s.Moves o plug act next) :
    ∀ p ∈ next.running, p.identity ∈ next.identities := by
  cases hmove with
  | start =>
      intro p hp
      rcases List.mem_append.mp hp with hp | hp
      · exact List.mem_append_left _ (h.lists.running p hp)
      · rw [List.mem_singleton.mp hp]
        exact List.mem_append_right _ List.mem_cons_self
  | exit pid => exact fun p hp => h.lists.running p (List.mem_of_mem_filter hp)
  | same | submit | record | tick | wait | list | raised | asked | cached | finished =>
      exact h.lists.running

theorem Host.Unshared.issues_moves (h : s.Unshared o)
    (hmove : s.Moves o plug act next) :
    next.issues.Known next.identities := by
  have hrecord : ∀ start p, (∀ a, p ≠ .setupCmd a) →
      (s.issues.step start p).Known s.identities :=
    fun start p hp => h.issues.recorded fun a ha => absurd ha (hp a)
  cases hmove with
  | start => exact h.issues.mono (List.subset_append_left _ _)
  | @submit a p hp hpid =>
      have hrunning := h.lists.running p hp
      unfold ProcessInfo.identity at hrunning
      rw [hpid] at hrunning
      exact h.issues.recorded (p := .setupCmd a) fun b hb =>
        Probe.setupCmd.inj hb ▸ hrunning
  | record hp => exact hrecord _ _ hp
  | tick => exact hrecord 0 .interval (fun _ ha => absurd ha (by simp))
  | same | exit | wait | list | raised | asked | cached | finished =>
      exact h.issues

/-- What a step puts together is in use. -/
theorem Host.of_joins {L : List ProcessInfo → Prop} {T : Tick → Prop}
    (hl : s.Lists L) (ht : s.Ticks T)
    {j : Tick × List ProcessInfo} (hj : s.joins o act = some j) :
    T j.1 ∧ L j.2 := by
  cases act with
  | poll clock =>
      have hpoll :
          (if s.polling.isSome ∨ (tickStats o s.tick.maps).toOption = none
          then none
          else (s.cache.hit procInfoCacheKey s.now).map (fun procs =>
            (s.tick, procs))) = some j := hj
      split at hpoll
      · exact absurd hpoll (by simp)
      · obtain ⟨procs, hhit, rfl⟩ := Option.map_eq_some_iff.mp hpoll
        obtain ⟨e, he, -, rfl⟩ := hit_eq_some.mp hhit
        exact ⟨ht.tick, hl.cached e he⟩
  | finish clock error =>
      cases error with
      | none =>
          obtain ⟨p, hp, hseen⟩ := Option.bind_eq_some_iff.mp hj
          obtain ⟨procs, hprocs, rfl⟩ := Option.map_eq_some_iff.mp hseen
          exact ⟨ht.polling p hp, hl.listed p hp procs hprocs⟩
      | some e => exact absurd hj (by simp [Host.joins])
  | start | exit | probe | wait | list => exact absurd hj (by simp [Host.joins])

/-- A pid that was never given away twice has one holder. -/
theorem Host.Unshared.joinsHolders (h : s.Unshared o) :
    s.JoinsHolders o plug act := by
  intro j hj p hp _ _ c hc hpid
  obtain ⟨hknown, hlisted⟩ := Host.of_joins h.lists h.ticks hj
  have hmem : c.identity ∈ s.identities := by
    rcases List.mem_append.mp hc with hc | hc
    · exact hknown.submitted c hc
    · exact hknown.completed c hc
  have hsame := List.inj_on_of_nodup_map h.distinct hmem (hlisted p hp) hpid
  exact congrArg Prod.snd hsame

theorem Host.Unshared.step (h : s.Unshared o) (hnew : s.NewPid act) :
    (s.step o plug act).Unshared o := by
  have hmove : s.Moves o plug act (s.step o plug act) :=
    Host.moves h.ready.missed act
  have hids := hmove.identities
  refine ⟨h.ready.moves hmove,
    ((hmove.answers h.ready).ownIo_iff h.ready.good h.own).mpr h.joinsHolders,
    ?_,
    (h.lists.mono fun l hl p hp =>
      hids (hl p hp)).moves hmove (h.running_moves hmove),
    h.issues_moves hmove, ?_⟩
  · generalize s.step o plug act = next at hmove
    cases hmove with
    | @start p hfree =>
        rw [List.map_append, List.nodup_append]
        refine ⟨h.distinct, List.nodup_singleton _, ?_⟩
        intro pid hpid pid' hpid' heq
        rw [heq, List.mem_singleton.mp hpid'] at hpid
        exact hnew hpid
    | same | exit | submit | record | tick | wait | list | raised | asked | cached | finished =>
        exact h.distinct
  · exact (h.ticks.mono fun t ht =>
      ht.mono hids).moves hmove (h.issues.mono hids)

end Unshared

/-- **Without reuse of pids** the sessions show their own I/O, however old the
list of processes is. -/
theorem own_io_of_newPids (o : PrintOrder) (plug : Plugins)
    (minTtl durationFactor : ℚ) {store : Store}
    (hs : store.Good) {steps : List HostStep}
    (hsteps : Runs.Each (Host.step o plug) Host.NewPid
      (Host.booted minTtl durationFactor store) steps) :
    Runs.Always (Host.step o plug) Host.OwnIo
      (Host.booted minTtl durationFactor store) steps := by
  refine Runs.always_of_each (I := Host.Unshared o) (fun _ h => h.own)
    (fun s step h hnew => h.step hnew)
    ?_ hsteps
  have hready := Host.booted_ready (o := o) minTtl durationFactor hs
  have hknown : Issues.Known [] {} :=
    ⟨fun _ _ hc => absurd hc (by simp), List.forall_mem_nil _,
      List.forall_mem_nil _⟩
  exact ⟨hready, fun _ ha => absurd ha (by simp [Host.booted]), List.nodup_nil,
    .of_free (List.forall_mem_nil _) (fun _ he =>
      absurd he (by simp [Host.booted, AdaptiveTtlCache.new])) rfl,
    hknown, ⟨hknown, fun _ hp => absurd hp (by simp [Host.booted]), fun _ ha =>
      absurd ha (by simp [Host.booted])⟩⟩

/-! ### A pid that is reused -/

/-- A fio that started at a time. -/
def fioSince (startTimeNs : Int) : ProcessInfo :=
  { pid := 7, comm := "fio".toList, startTimeNs := startTimeNs }

/-- The rule `pid=7`, and the defaults of the cache. -/
def watchingHost : Host :=
  .booted 30 3
    (runOps plainPlugins (Store.fresh 50)
      [.addRule { kind := .pid, value := "7".toList }])

/-- A process submits a read, the second is over, and a profile is made. -/
def profiledOnce : List HostStep :=
  [.start (fioSince 100), .probe (.setupCmd (readOf2048 1000 5)),
    .probe .interval, .poll (stillClock 1), .list,
    .finish (stillClock 1) none]

/-- The process exits, another one gets its pid and submits a read, and within
the life of the list the next profile is made. -/
def reusedPid : List HostStep :=
  profiledOnce ++ [.exit 7, .start (fioSince 200),
    .probe (.setupCmd (readOf2048 1000 5)), .probe .interval, .wait 2,
    .poll (stillClock 2)]

/-- The rule is added to a new registry. -/
theorem watching_distinct :
    ∀ op ∈ [RegistryOp.addRule { kind := .pid, value := "7".toList }],
      op.DistinctPids := by
  simp [RegistryOp.DistinctPids]

/-- The first profile shows the I/O of the process. -/
theorem own_io_iff_profiledOnce :
    Runs.Always (Host.step .inserted plainPlugins) Host.OwnIo watchingHost
      profiledOnce :=
  (own_io_iff .inserted plainPlugins 30 3 50 _ watching_distinct
    profiledOnce).mpr (by decide +kernel)

/-- **The I/O of another process.**  The session of the process that has exited
is active and shows the read of the process that has its pid now. -/
theorem reused_pid_shows_other_io :
    ¬ Runs.Always (Host.step .inserted plainPlugins) Host.OwnIo watchingHost
      reusedPid := by
  intro h
  exact absurd h.last (by decide +kernel)

end Telemetryd
