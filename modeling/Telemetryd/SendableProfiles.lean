import Telemetryd.Adapters
import Telemetryd.Lib.Runs
import Telemetryd.ProcessList
import Telemetryd.ProfileMessages

/-!
# Which profiles can be sent

A profile carries numbers that come from the command lines of the observed
processes, from their task structures and from the log.  No number is checked
on the way, and the fields of the messages are narrow.  A session stays in
memory with the groups it had when its process was last seen, so that one bad
command line spoils every later profile too.

`InRange` says of the input of a refresh that its numbers fit.  A run whose
refreshes all have such input sends every profile, and no other run does.
-/

namespace Telemetryd

open PyText PyError

variable [UnicodeTextDb]

/-! ### The numbers of a process -/

/-- A number that an option gives, zero where it gives none. -/
def numberGiven (x : Except PyText (Option Int)) : Int :=
  match x with
  | .ok n => n.getD 0
  | .error _ => 0

/-- The numbers in the options of a job fit. -/
structure JobFits (job : FioOpts) : Prop where
  bs : FitsUInt32 (numberGiven (parseSize ((job.get? "bs".toList).getD [])))
  iodepth : FitsInt32 (numberGiven (numberOpt job "iodepth".toList))
  numjobs : FitsInt32 (numberGiven (numberOpt job "numjobs".toList))
  runtime : FitsInt32 (numberGiven (runtimeOpt (job.get? "runtime".toList)))

/-- The jobs whose options the groups of a process carry: those of fio, unless
the adapter raises. -/
def carriedJobs (plug : Plugins) (readFile : FileReader) (p : ProcessInfo)
    (rule : TargetRule)
    (mine : List ProcessIoStat) : List FioOpts :=
  if (selectAdapter plug p rule.adapter).name = "fio".toList then
    match fioLogicalGroups readFile p mine, fioJobs readFile p with
    | .ok _, .ok jobs => jobs
    | _, _ => []
  else []

/-- The threads that the jobs take, one job after the other. -/
def takenTids (threads : List (Int × PyText)) (single : Bool) :
    List Int → List FioOpts → List Int
  | _, [] => []
  | assigned, job :: rest =>
      jobTids threads single assigned job ++
        takenTids threads single (assigned ++
          jobTids threads single assigned job) rest

/-- The threads in the groups of a process. -/
def groupedTids (p : ProcessInfo) (jobs : List FioOpts) : List Int :=
  if jobs = [] then p.threads.map Prod.fst
    else takenTids p.threads (jobs.length == 1) [] jobs

/-- The size that most I/O of a process has. -/
def mainSize (mine : List ProcessIoStat) : Int :=
  dominantSize (mergedSizes mine).items

/-- The numbers of a process and of its I/O fit. -/
structure ProcessFits (plug : Plugins) (readFile : FileReader) (p : ProcessInfo)
    (rule : TargetRule)
    (mine : List ProcessIoStat) : Prop where
  pid : FitsInt32 p.pid
  start : FitsUInt64 (max 0 p.startTimeNs)
  threadCount : FitsInt32 p.threadCount
  size : FitsUInt32 (mainSize mine)
  jobs : ∀ job ∈ carriedJobs plug readFile p rule mine, JobFits job
  tids : ∀ t ∈ groupedTids p (carriedJobs plug readFile p rule mine),
    FitsInt32 t

/-- The numbers a refresh has to do with fit. -/
structure InRange (plug : Plugins) (readFile : FileReader) (clock : Clock)
    (processes : List ProcessInfo) (stats : List ProcessIoStat) (s : Store) :
    Prop where
  clock : FitsUInt64 clock.timeNs
  processes : ∀ p ∈ processes, ∀ rule, firstRule plug s.reg.rules p =
    some rule →
    ProcessFits plug readFile p rule (statsOf stats p.pid)
  stats : ∀ st ∈ stats, 0 < st.iops → FitsInt32 st.pid

/-- The profile of a refresh can be sent. -/
def Sendable (plug : Plugins) (clock : Clock) (processes : List ProcessInfo)
    (stats : List ProcessIoStat) (s : Store) : Prop :=
  Succeeds (profileToPb (refresh plug clock processes stats s).2)

/-! ### The groups -/

omit [UnicodeTextDb] in
theorem size_measuredFromStats (mine : List ProcessIoStat)
    (tids : Option (List Int)) :
    (measuredFromStats mine tids).ioSizeDominant = mainSize mine := by
  unfold measuredFromStats mainSize
  cases mine with
  | nil => rfl
  | cons st mine => rfl

/-- The expectation of a job fits if its options do. -/
theorem spec_fits_iff {job : FioOpts} {spec : WorkloadSpec}
    (h : specFromOpts job = .ok spec) :
    spec.Fits ↔ JobFits job := by
  unfold specFromOpts at h
  obtain ⟨ioSize, hsize, h⟩ := Fallible.bind_eq_ok.mp h
  obtain ⟨queueDepth, hdepth, h⟩ := Fallible.bind_eq_ok.mp h
  obtain ⟨numjobs, hnumjobs, h⟩ := Fallible.bind_eq_ok.mp h
  obtain ⟨runtimeSec, hruntime, h⟩ := Fallible.bind_eq_ok.mp h
  cases h
  constructor
  · intro hfits
    exact ⟨by rw [hsize]; exact hfits.ioSize, by rw [hdepth]; exact hfits.queueDepth,
      by rw [hnumjobs]; exact hfits.numjobs, by
        rw [hruntime]; exact hfits.runtimeSec⟩
  · intro hfits
    have hbs := hfits.bs
    have hiodepth := hfits.iodepth
    have hnum := hfits.numjobs
    have hrun := hfits.runtime
    rw [hsize] at hbs
    rw [hdepth] at hiodepth
    rw [hnumjobs] at hnum
    rw [hruntime] at hrun
    exact ⟨hbs, hiodepth, hnum, hrun⟩

omit [UnicodeTextDb] in
theorem forall_mem_sorted {P : Int → Prop} (l : List Int) :
    (∀ t ∈ l.insertionSort (· ≤ ·), P t) ↔ ∀ t ∈ l, P t :=
  forall_congr' fun _ => by rw [(List.perm_insertionSort _ l).mem_iff]

/-- The groups of fio fit if the options and the threads of the jobs do. -/
theorem fioGroups_fits_iff {p : ProcessInfo} {mine : List ProcessIoStat}
    {single : Bool}
    (hsize : FitsUInt32 (mainSize mine)) {jobs : List FioOpts} :
    ∀ {assigned : List Int} {groups : List LogicalGroup},
      fioGroups p mine single assigned jobs = .ok groups →
      ((∀ g ∈ groups, g.Fits) ↔ (∀ job ∈ jobs, JobFits job) ∧
        ∀ t ∈ takenTids p.threads single assigned jobs, FitsInt32 t) := by
  induction jobs with
  | nil =>
      intro assigned groups h
      cases h
      simp [takenTids]
  | cons job jobs ih =>
      intro assigned groups h
      unfold fioGroups at h
      obtain ⟨spec, hspec, h⟩ := Fallible.bind_eq_ok.mp h
      obtain ⟨⟨ok, reasons⟩, -, h⟩ := Fallible.bind_eq_ok.mp h
      obtain ⟨rest, hrest, h⟩ := Fallible.bind_eq_ok.mp h
      cases h
      have hhead : ∀ m, FitsUInt32 m.ioSizeDominant →
          ((LogicalGroup.mk (jobName job) "fio_job".toList
            "cmdline_parse".toList
            ((jobTids p.threads single assigned job).insertionSort (· ≤ ·))
              (some spec) (some m)
            ok reasons false none).Fits ↔
            JobFits job ∧ ∀ t ∈ jobTids p.threads single assigned job,
              FitsInt32 t) := by
        intro m hm
        rw [← spec_fits_iff hspec, ← forall_mem_sorted
          (jobTids p.threads single assigned job)]
        constructor
        · exact fun hg => ⟨hg.expected spec rfl, hg.tids⟩
        · rintro ⟨hw, ht⟩
          refine ⟨ht, ?_, ?_⟩
          · intro w heq
            cases heq
            exact hw
          · intro m' heq
            cases heq
            exact hm
      rw [List.forall_mem_cons,
        hhead _ (by rw [size_measuredFromStats]; exact hsize), ih hrest,
        List.forall_mem_cons, takenTids, List.forall_mem_append]
      tauto

omit [UnicodeTextDb] in
/-- A group that carries no expectation. -/
theorem plain_fits_iff {g : LogicalGroup} (hspec : g.expectedWorkload = none)
    (hmeasured : ∀ m, g.measuredWorkload = some m →
      FitsUInt32 m.ioSizeDominant) :
    g.Fits ↔ ∀ t ∈ g.threadTids, FitsInt32 t := by
  refine ⟨fun h => h.tids, fun h => ⟨h, ?_, hmeasured⟩⟩
  intro w heq
  rw [hspec] at heq
  cases heq

/-- The bucket of a name has the threads with that name. -/
theorem get?_threadBuckets (threads : List (Int × PyText)) (k : PyText) :
    (threadBuckets threads).get? k =
      match (threads.filter (fun e => decide (groupKey e.2 = k))).map Prod.fst
        with
      | [] => none
      | t :: tids => some (t :: tids) := by
  have hgather : ∀ (l : List (Int × PyText)) (tids : List Int),
      l.foldl (fun o e => some (o.getD [] ++ [e.1])) (some tids) =
        some (tids ++ l.map Prod.fst) := by
    intro l
    induction l with
    | nil => simp
    | cons e l ih => simp [ih]
  unfold threadBuckets
  rw [OrderedDict.get?_foldl_gather, OrderedDict.get?_empty]
  cases threads.filter (fun e => decide (groupKey e.2 = k)) with
  | nil => rfl
  | cons e l => exact hgather l [e.1]

/-- The threads of the buckets are those of the process. -/
theorem mem_threadBuckets {threads : List (Int × PyText)} {t : Int} :
    (∃ e ∈ (threadBuckets threads).items, t ∈ e.2) ↔
      t ∈ threads.map Prod.fst := by
  constructor
  · rintro ⟨⟨k, tids⟩, he, ht⟩
    have hget :=
      (get?_threadBuckets threads k).symm.trans
      (OrderedDict.get?_eq_some_iff.mpr he)
    have htids :
        (threads.filter (fun e => decide (groupKey e.2 = k))).map Prod.fst =
        tids := by
      split at hget
      · cases hget
      · next heq => rw [heq, Option.some.inj hget]
    rw [← htids] at ht
    exact (List.filter_sublist.map _).subset ht
  · intro ht
    obtain ⟨e, he, rfl⟩ := List.mem_map.mp ht
    have hmem : e.1 ∈
        (threads.filter (fun x => decide (groupKey x.2 = groupKey e.2))).map
        Prod.fst :=
      List.mem_map_of_mem (List.mem_filter.mpr ⟨he, decide_eq_true rfl⟩)
    have hget := get?_threadBuckets threads (groupKey e.2)
    split at hget
    · next heq =>
      rw [heq] at hmem
      cases hmem
    · next t' tids heq =>
      rw [heq] at hmem
      exact ⟨_, OrderedDict.get?_eq_some_iff.mp hget, hmem⟩

/-- The guessed groups fit if the threads do. -/
theorem generic_fits_iff {p : ProcessInfo} {mine : List ProcessIoStat}
    (hpid : FitsInt32 p.pid) (hsize : FitsUInt32 (mainSize mine)) :
    (∀ g ∈ genericLogicalGroups p mine, g.Fits) ↔ ∀ t ∈ p.threads.map Prod.fst,
      FitsInt32 t := by
  have hbuckets :
      ∀ (buckets : List (PyText × List Int)) (f : PyText × List Int → LogicalGroup),
      (∀ e, (f e).expectedWorkload = none ∧
        (f e).threadTids = e.2.insertionSort (· ≤ ·) ∧
        ∃ tids, (f e).measuredWorkload = some (measuredFromStats mine tids)) →
      ((∀ g ∈ (buckets.insertionSort (fun a b => a.1 ≤ b.1)).map f, g.Fits) ↔
        ∀ t, (∃ e ∈ buckets, t ∈ e.2) → FitsInt32 t) := by
    intro buckets f hf
    have hone : ∀ e, (f e).Fits ↔ ∀ t ∈ e.2, FitsInt32 t := by
      intro e
      obtain ⟨hspec, htids, tids, hmeasured⟩ := hf e
      rw [plain_fits_iff hspec, htids, forall_mem_sorted]
      intro m heq
      rw [hmeasured] at heq
      cases heq
      rw [size_measuredFromStats]
      exact hsize
    constructor
    · rintro h t ⟨e, he, ht⟩
      exact (hone e).mp
        (h _ (List.mem_map_of_mem
        ((List.perm_insertionSort _ _).mem_iff.mpr he))) t ht
    · intro h g hg
      obtain ⟨e, he, rfl⟩ := List.mem_map.mp hg
      exact (hone e).mpr fun t ht =>
        h t ⟨e, (List.perm_insertionSort _ _).mem_iff.mp he, ht⟩
  unfold genericLogicalGroups
  by_cases hfound : (threadBuckets p.threads).items = []
  · have hnone : ∀ t, t ∉ p.threads.map Prod.fst := by
      intro t ht
      obtain ⟨e, he, -⟩ := mem_threadBuckets.mpr ht
      rw [hfound] at he
      cases he
    simp only [if_pos hfound]
    rw [hbuckets _ _ fun e => ⟨rfl, rfl, _, rfl⟩]
    constructor
    · exact fun _ t ht => absurd ht (hnone t)
    · rintro - t ⟨e, he, ht⟩
      obtain rfl := List.mem_singleton.mp he
      obtain rfl := List.mem_singleton.mp ht
      exact hpid
  · simp only [if_neg hfound]
    rw [hbuckets _ _ fun e => ⟨rfl, rfl, _, rfl⟩]
    exact forall_congr' fun t => by rw [mem_threadBuckets]

/-- **The groups of a process** fit if the options they carry and the threads
they name do. -/
theorem groups_fit_iff {reCompile : PyText → Option (PyText → Bool)}
    {readFile : FileReader}
    {p : ProcessInfo} {rule : TargetRule} {mine : List ProcessIoStat}
    (hpid : FitsInt32 p.pid)
    (hsize : FitsUInt32 (mainSize mine)) :
    (∀ g ∈ groupsOrFallback
        (selectAdapter (builtinPlugins reCompile readFile) p rule.adapter)
        p mine,
        g.Fits) ↔
      (∀ job ∈ carriedJobs (builtinPlugins reCompile readFile) readFile p
        rule mine, JobFits job) ∧
        ∀ t ∈ groupedTids p
          (carriedJobs (builtinPlugins reCompile readFile) readFile p rule
            mine),
          FitsInt32 t := by
  have hcases :
      selectAdapter (builtinPlugins reCompile readFile) p rule.adapter =
      fioAdapter readFile ∨
      selectAdapter (builtinPlugins reCompile readFile) p rule.adapter =
        genericAdapter := by
    have hfind : ∀ f : AppAdapter → Bool,
        (([fioAdapter readFile, genericAdapter].find? f).getD genericAdapter =
          fioAdapter readFile) ∨
          (([fioAdapter readFile, genericAdapter].find? f).getD genericAdapter =
            genericAdapter) := by
      intro f
      cases hf : f (fioAdapter readFile) with
      | true => exact Or.inl (by simp [hf])
      | false =>
          cases hg : f genericAdapter with
          | true => exact Or.inr (by simp [hf, hg])
          | false => exact Or.inr (by simp [hf, hg])
    unfold selectAdapter
    split
    · exact hfind _
    · exact hfind _
  unfold carriedJobs
  rcases hcases with hadapter | hadapter
  · have hname : (fioAdapter readFile).name = "fio".toList := rfl
    rw [hadapter, if_pos hname]
    have hmeasured : ∀ m, some (measuredFromStats mine none) = some m →
        FitsUInt32 m.ioSizeDominant := by
      intro m heq
      cases heq
      rw [size_measuredFromStats]
      exact hsize
    unfold groupsOrFallback
    cases hgroups : (fioAdapter readFile).getLogicalGroups p mine with
    | error e =>
        have hfio : fioLogicalGroups readFile p mine = .error e := hgroups
        simp only [hfio]
        rw [List.forall_mem_singleton, plain_fits_iff rfl (by simp)]
        simp [groupedTids]
    | ok groups =>
        have hfio : fioLogicalGroups readFile p mine = .ok groups := hgroups
        rw [hfio]
        unfold fioLogicalGroups at hfio
        obtain ⟨jobs, hjobs, hfio⟩ := Fallible.bind_eq_ok.mp hfio
        simp only [hjobs]
        by_cases hnil : jobs = []
        · subst hnil
          rw [if_pos rfl] at hfio
          cases hfio
          rw [List.forall_mem_singleton, plain_fits_iff rfl hmeasured]
          simp [groupedTids]
        · rw [if_neg hnil] at hfio
          rw [fioGroups_fits_iff hsize hfio]
          simp [groupedTids, hnil]
  · have hname : ¬ genericAdapter.name = "fio".toList := by
      change ¬ "generic".toList = "fio".toList
      decide
    rw [hadapter, if_neg hname]
    exact (generic_fits_iff hpid hsize).trans (by simp [groupedTids])

/-! ### The sessions -/

omit [UnicodeTextDb] in
theorem Session.Fits.persisted {sess : Session} (h : sess.Fits) :
    sess.persisted.Fits :=
  ⟨h.pid, h.start, h.sessionStart, h.sessionEnd, h.threadCount,
    (fun _ heq => nomatch heq),
    List.forall_mem_nil _⟩

omit [UnicodeTextDb] in
theorem Session.Fits.adopted {sess : Session} (h : sess.Fits) :
    sess.adopted.Fits :=
  ⟨h.pid, h.start, h.sessionStart, h.sessionEnd, h.threadCount, h.aggregate,
    List.forall_mem_nil _⟩

omit [UnicodeTextDb] in
theorem Session.Fits.finish {sess : Session} {now : Int} (hnow : FitsUInt64 now)
    (h : sess.Fits) :
    (sess.finish now).Fits :=
  ⟨h.pid, h.start, h.sessionStart, hnow, h.threadCount, h.aggregate, h.groups⟩

section Refresh

variable {reCompile : PyText → Option (PyText → Bool)} {readFile : FileReader}
    {clock : Clock}
  {processes : List ProcessInfo} {stats : List ProcessIoStat} {s : Store}

/-- A session that is brought up to date fits if the process does. -/
theorem observe_fits {p : ProcessInfo} {rule : TargetRule}
    {mine : List ProcessIoStat}
    (h : ProcessFits (builtinPlugins reCompile readFile) readFile p rule mine)
    {base : Session}
    (hbase : base.Fits) :
    (observe (builtinPlugins reCompile readFile) p rule mine base).Fits := by
  refine ⟨hbase.pid, hbase.start, hbase.sessionStart, ?_, h.threadCount, ?_, ?_⟩
  · change FitsUInt64 ((if base.status = .finished then none
      else base.sessionEndNs).getD 0)
    split
    · exact fitsUInt64_zero
    · exact hbase.sessionEnd
  · intro m heq
    cases heq
    rw [size_measuredFromStats]
    exact h.size
  · exact (groups_fit_iff h.pid h.size).mpr ⟨h.jobs, h.tids⟩

/-- The process of a session that fits. -/
theorem processFits_of_observe {p : ProcessInfo} {rule : TargetRule}
    {mine : List ProcessIoStat}
    {base : Session} (hident : base.core.identity = p.identity)
    (h : (observe (builtinPlugins reCompile readFile) p rule mine base).Fits) :
    ProcessFits (builtinPlugins reCompile readFile) readFile p rule mine := by
  have hpid : FitsInt32 p.pid := by
    rw [← show base.pid = p.pid from congrArg Prod.fst hident]
    exact h.pid
  have hstart : FitsUInt64 (max 0 p.startTimeNs) := by
    rw [← show base.startTimeNs = p.startTimeNs from congrArg Prod.snd hident]
    exact h.start
  have hsize : FitsUInt32 (mainSize mine) := by
    have := h.aggregate _ rfl
    rwa [size_measuredFromStats] at this
  obtain ⟨hjobs, htids⟩ := (groups_fit_iff hpid hsize).mp h.groups
  exact ⟨hpid, hstart, h.threadCount, hsize, hjobs, htids⟩

theorem fits_refreshKeeps
    (h : InRange (builtinPlugins reCompile readFile) readFile clock processes
      stats s) :
    RefreshKeeps (builtinPlugins reCompile readFile) s.reg.rules clock.timeNs
      processes stats
      Session.Fits where
  saved _ h := h.persisted
  finished _ hfits := hfits.finish h.clock
  opened p hp rule hrule _ := by
    have hfits := h.processes p hp rule hrule
    exact ⟨hfits.pid, hfits.start, h.clock, fitsUInt64_zero, fitsInt32_zero,
      (fun _ heq => nomatch heq), List.forall_mem_nil _⟩
  observed p hp rule hrule _ hbase :=
    observe_fits (h.processes p hp rule hrule) hbase

/-- One refresh. -/
theorem sendable_iff (hs : s.Good) (hd : DistinctPids processes)
    (hevery : s.Every Session.Fits) :
    Sendable (builtinPlugins reCompile readFile) clock processes stats s ↔
      InRange (builtinPlugins reCompile readFile) readFile clock processes
        stats s := by
  unfold Sendable
  rw [succeeds_profileToPb]
  constructor
  · rintro ⟨hclock, hsessions, hunmonitored⟩
    refine ⟨hclock, ?_, ?_⟩
    · intro p hp rule hrule
      obtain ⟨sess, hsess, hact, hpid⟩ :=
        exists_active_session hs hd hp (by rw [hrule]; rfl)
      obtain ⟨rule', base, hrule', hident, rfl⟩ :=
        active_session_of_pid hs hd hp hsess hact hpid
      obtain rfl : rule' = rule := Option.some.inj (hrule'.symm.trans hrule)
      exact processFits_of_observe hident (hsessions _ hsess)
    · intro st hst hpos
      by_cases hact :
          ∃ sess ∈ (refresh (builtinPlugins reCompile readFile) clock processes stats
          s).1.reg.sessions.values, sess.pid = st.pid ∧ sess.status = .active
      · obtain ⟨sess, hsess, hpid, -⟩ := hact
        rw [← hpid]
        exact (hsessions sess
          ((List.perm_insertionSort _ _).mem_iff.mpr hsess)).pid
      · refine hunmonitored
          { pid := st.pid, comm := st.comm, device := st.device,
            ioRate := st.iops } ?_
        refine (List.perm_insertionSort _ _).mem_iff.mpr
          (List.mem_map.mpr ⟨st, ?_, rfl⟩)
        exact List.mem_filter.mpr ⟨hst, decide_eq_true ⟨hact, hpos⟩⟩
  · intro h
    have hafter := refreshSessions_every (fits_refreshKeeps h) hd hevery
    refine ⟨h.clock, ?_, ?_⟩
    · intro sess hsess
      obtain ⟨sid, hget⟩ := mem_sessions_snapshot.mp hsess
      exact hafter.memory sid sess hget
    · intro u hu
      obtain ⟨st, hst, rfl⟩ :=
        List.mem_map.mp ((List.perm_insertionSort _ _).mem_iff.mp hu)
      obtain ⟨hmem, hcond⟩ := List.mem_filter.mp hst
      exact h.stats st hmem (of_decide_eq_true hcond).2

end Refresh

/-- **Which runs send every profile.**  Along a run of rule changes, refreshes
and restarts, every profile can be sent if and only if at every refresh the
numbers fit: the clock, the pids of what does I/O, and of each matched process
its pid, its start time, its number of threads, the size of its I/O, the numbers
in the options its groups carry and the threads they name. -/
theorem profiles_sendable_iff (reCompile : PyText → Option (PyText → Bool))
    (readFile : FileReader)
    (maxFinished : Nat) (ops : List RegistryOp)
    (hops : ∀ op ∈ ops, op.DistinctPids) :
    Runs.Each (RegistryOp.apply (builtinPlugins reCompile readFile))
        (OnRefresh (Sendable (builtinPlugins reCompile readFile)))
          (Store.fresh maxFinished) ops ↔
      Runs.Each (RegistryOp.apply (builtinPlugins reCompile readFile))
        (OnRefresh (InRange (builtinPlugins reCompile readFile) readFile))
        (Store.fresh maxFinished) ops := by
  have hkeep : ∀ (ops : List RegistryOp) (s : Store), s.Good →
      s.Every Session.Fits →
      (∀ op ∈ ops, op.DistinctPids) →
      (Runs.Each (RegistryOp.apply (builtinPlugins reCompile readFile))
          (OnRefresh (Sendable (builtinPlugins reCompile readFile))) s ops ↔
        Runs.Each (RegistryOp.apply (builtinPlugins reCompile readFile))
          (OnRefresh (InRange (builtinPlugins reCompile readFile) readFile)) s
            ops) := by
    intro ops
    induction ops with
    | nil => exact fun _ _ _ _ => Iff.rfl
    | cons op ops ih =>
        intro s hs hevery hops
        have hop := hops op List.mem_cons_self
        have hgood : (op.apply (builtinPlugins reCompile readFile) s).Good :=
          apply_good hs hop
        have hrest := fun o ho => hops o (List.mem_cons_of_mem _ ho)
        have hother :
            (∀ clock processes stats, op ≠ .refresh clock processes stats) →
            (op.apply (builtinPlugins reCompile readFile) s).Every
              Session.Fits := fun hne =>
          apply_every (fun _ h => h.persisted) (fun _ h => h.adopted) hevery hne
        cases op with
        | refresh clock processes stats =>
            have hiff : Sendable (builtinPlugins reCompile readFile) clock
                processes stats s ↔
                InRange (builtinPlugins reCompile readFile) readFile clock
                  processes stats s :=
              sendable_iff hs hop hevery
            have hnext :
                InRange (builtinPlugins reCompile readFile) readFile clock
                processes stats s →
                _ := fun h =>
                  ih _ hgood (refreshSessions_every (fits_refreshKeeps h) hop
                  hevery) hrest
            constructor
            · rintro ⟨hsend, hmore⟩
              exact ⟨hiff.mp hsend, (hnext (hiff.mp hsend)).mp hmore⟩
            · rintro ⟨hin, hmore⟩
              exact ⟨hiff.mpr hin, (hnext hin).mpr hmore⟩
        | addRule rule =>
            exact and_congr Iff.rfl (ih _ hgood (hother nofun) hrest)
        | removeRule kind value =>
            exact and_congr Iff.rfl (ih _ hgood (hother nofun) hrest)
        | clearRules =>
            exact and_congr Iff.rfl (ih _ hgood (hother nofun) hrest)
        | restart => exact and_congr Iff.rfl (ih _ hgood (hother nofun) hrest)
  exact hkeep ops _ (Store.fresh_good maxFinished)
    (Store.fresh_every _ maxFinished) hops

instance decidableSendable (plug : Plugins) (clock : Clock)
    (processes : List ProcessInfo)
    (stats : List ProcessIoStat) (s : Store) :
    Decidable (Sendable plug clock processes stats s) :=
  inferInstanceAs (Decidable (Succeeds _))

/-- The daemon, with ASCII text, no regular expressions and no job files. -/
def asciiPlugins : Plugins :=
  @builtinPlugins UnicodeTextDb.ascii (fun _ => none) (fun _ => .ok none)

/-- A run that observes a process with this command line. -/
def observeFio (cmdline : PyText) : List RegistryOp :=
  [.addRule { kind := .name, value := "fio".toList },
    .refresh (stillClock 100)
      [{ pid := 7, comm := "fio".toList, cmdline := cmdline, startTimeNs := 1 }]
        []]

omit [UnicodeTextDb] in
theorem observeFio_distinct (cmdline : PyText) :
    ∀ op ∈ observeFio cmdline, op.DistinctPids := by
  simp [observeFio, RegistryOp.DistinctPids, DistinctPids]

omit [UnicodeTextDb] in
/-- A job with small numbers. -/
theorem profiles_sendable_iff_small :
    Runs.Each (RegistryOp.apply asciiPlugins)
      (OnRefresh (@InRange UnicodeTextDb.ascii asciiPlugins (fun _ =>
        .ok none))) (Store.fresh 50)
      (observeFio "fio --name=a --bs=4k --iodepth=32".toList) :=
  (@profiles_sendable_iff UnicodeTextDb.ascii (fun _ => none) (fun _ =>
    .ok none) 50 _
    (observeFio_distinct _)).mp (by decide +kernel)

omit [UnicodeTextDb] in
/-- **A profile that cannot be sent.**  One process asks for a queue depth that
fits no field.  Its profile cannot be sent, and after it has gone neither can
the next one, of no process at all. -/
theorem huge_depth_not_sendable :
    let cmdline := "fio --name=a --iodepth=99999999999".toList
    let proc : ProcessInfo :=
      { pid := 7, comm := "fio".toList, cmdline := cmdline, startTimeNs := 1 }
    let s := runOps asciiPlugins (Store.fresh 50)
      [.addRule { kind := .name, value := "fio".toList }]
    ¬ Sendable asciiPlugins (stillClock 100) [proc] [] s ∧
      ¬ Sendable asciiPlugins (stillClock 200) []
        [] (runOps asciiPlugins (Store.fresh 50) (observeFio cmdline)) := by
  decide +kernel

end Telemetryd
