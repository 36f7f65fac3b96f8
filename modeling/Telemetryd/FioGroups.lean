import Telemetryd.GenericGroups
import Telemetryd.Lib.FirstCome

/-!
# The groups of fio

`FioAdapter.get_logical_groups` gives the threads of a process to its jobs, by
their names: a job takes the threads whose names fit and that no earlier job
took.  What a job is measured by is its threads' share of the I/O, except for
the size, which is that of the whole process.
-/

namespace Telemetryd

open PyText PyError GroupedSums

variable [UnicodeTextDb]

/-- The groups of a process that has some jobs. -/
def groupsOfJobs (proc : ProcessInfo) (stats : List ProcessIoStat)
    (jobs : List FioOpts) :
    Except PyText (List LogicalGroup) :=
  fioGroups proc stats (jobs.length == 1) [] jobs

theorem fioLogicalGroups_eq {readFile : FileReader} {proc : ProcessInfo}
    {jobs : List FioOpts}
    (hjobs : fioJobs readFile proc = .ok jobs) (hne : jobs ≠ [])
    (stats : List ProcessIoStat) :
    fioLogicalGroups readFile proc stats = groupsOfJobs proc stats jobs := by
  unfold fioLogicalGroups
  rw [hjobs]
  exact if_neg hne

/-! ### What a group has -/

/-- The threads that each job takes, one job after the other. -/
def jobShares (threads : List (Int × PyText)) (single : Bool) :
    List Int → List FioOpts → List (List Int)
  | _, [] => []
  | assigned, job :: rest =>
      jobTids threads single assigned job ::
        jobShares threads single (assigned ++
          jobTids threads single assigned job) rest

/-- The verdict of a group is that on what is measured of its threads. -/
def Judged (stats : List ProcessIoStat) (single : Bool) (g : LogicalGroup) :
    Prop :=
  ∃ spec tids seqRatio reasons, g.threadTids = tids.insertionSort (· ≤ ·) ∧
    compare (some spec) (measuredFromStats stats (if single then none
      else some tids)) seqRatio
      = .ok (g.expectationMatch, reasons)

section

variable {proc : ProcessInfo} {stats : List ProcessIoStat} {single : Bool}

theorem fioGroups_fields {jobs : List FioOpts} {assigned : List Int}
    {groups : List LogicalGroup}
    (h : fioGroups proc stats single assigned jobs = .ok groups) :
    groups.map (·.threadTids)
      = (jobShares proc.threads single assigned jobs).map (fun tids =>
        tids.insertionSort (· ≤ ·)) ∧
    (∀ g ∈ groups, Judged stats single g) ∧ ∀ job ∈ jobs, ∃ spec,
      specFromOpts job = .ok spec := by
  induction jobs generalizing assigned groups with
  | nil =>
      cases h
      exact ⟨rfl, List.forall_mem_nil _, List.forall_mem_nil _⟩
  | cons job jobs ih =>
      unfold fioGroups at h
      obtain ⟨spec, hspec, h⟩ := Fallible.bind_eq_ok.mp h
      obtain ⟨verdict, hverdict, h⟩ := Fallible.bind_eq_ok.mp h
      obtain ⟨rest, hrest, h⟩ := Fallible.bind_eq_ok.mp h
      obtain ⟨htids, hjudged, hspecs⟩ := ih hrest
      obtain rfl := Except.ok.inj h
      refine ⟨?_, ?_, List.forall_mem_cons.mpr ⟨⟨spec, hspec⟩, hspecs⟩⟩
      · rw [List.map_cons, htids]
        rfl
      · exact List.forall_mem_cons.mpr
          ⟨⟨spec, jobTids proc.threads single assigned job, _, verdict.2, rfl,
            hverdict⟩, hjudged⟩

/-- Without statistics only the options of a job can be in the way. -/
theorem fioGroups_nil {jobs : List FioOpts}
    (h : ∀ job ∈ jobs, ∃ spec, specFromOpts job = .ok spec)
    (assigned : List Int) :
    ∃ groups, fioGroups proc [] single assigned jobs = .ok groups := by
  induction jobs generalizing assigned with
  | nil => exact ⟨[], rfl⟩
  | cons job jobs ih =>
      obtain ⟨spec, hspec⟩ := h job List.mem_cons_self
      obtain ⟨rest, hrest⟩ := ih (fun j hj => h j (List.mem_cons_of_mem _ hj))
        (assigned ++ jobTids proc.threads single assigned job)
      have hidle : ∀ tids seqRatio,
          compare (some spec) (measuredFromStats [] tids) seqRatio
          = .ok (none, ["아직 이 대상에서 관측된 I/O 없음 — 대조할 실측값이 없다".toList]) := by
        intro tids seqRatio
        unfold compare
        exact if_pos ⟨le_rfl, rfl⟩
      unfold fioGroups
      simp only [hspec, bind, Except.bind, hidle, hrest]
      exact ⟨_, rfl⟩

/-! ### Groups without I/O -/

/-- There is no verdict where no I/O is measured and no size is known. -/
theorem verdict_eq_none_iff {spec : WorkloadSpec} {measured : MeasuredWorkload}
    {seqRatio : Option ℚ} {ok : Option Bool} {reasons : List PyText}
    (h : compare (some spec) measured seqRatio = .ok (ok, reasons)) :
    ok = none ↔ measured.iops ≤ 0 ∧ measured.ioSizeDominant = 0 := by
  unfold compare at h
  dsimp only at h
  split at h
  case isTrue hidle =>
    obtain rfl := (Prod.mk.inj (Except.ok.inj h)).1
    exact ⟨fun _ => hidle, fun _ => rfl⟩
  case isFalse hbusy =>
    obtain ⟨size, -, h⟩ := Fallible.bind_eq_ok.mp h
    obtain ⟨depth, -, h⟩ := Fallible.bind_eq_ok.mp h
    obtain rfl := (Prod.mk.inj (Except.ok.inj h)).1
    exact ⟨nofun, fun hidle => absurd hidle hbusy⟩

/-- The threads of a group have no I/O; a single job has that of the whole
process. -/
def Idle (jobs : List FioOpts) (stats : List ProcessIoStat) (g : LogicalGroup) :
    Prop :=
  if jobs.length = 1 then ∀ st ∈ stats, st.iops = 0 ∧ st.ioSizeHist = []
  else threadIops stats g.threadTids = 0

omit [UnicodeTextDb] in
theorem threadIops_insertionSort (stats : List ProcessIoStat)
    (tids : List Int) :
    threadIops stats (tids.insertionSort (· ≤ ·)) = threadIops stats tids := by
  unfold threadIops
  simp only [(List.perm_insertionSort _ tids).mem_iff]

omit [UnicodeTextDb] in
theorem mainSize_eq_zero (h : ∀ st ∈ stats, st.ioSizeHist = []) :
    mainSize stats = 0 := by
  have hnone : stats.flatMap (fun s => s.ioSizeHist) = [] :=
    List.flatMap_eq_nil_iff.mpr h
  unfold mainSize mergedSizes
  rw [hnone]
  rfl

omit [UnicodeTextDb] in
theorem mem_keys_mergedSizes (k : Int) :
    k ∈ (mergedSizes stats).keys ↔ ∃ st ∈ stats, ∃ e ∈ st.ioSizeHist,
      e.1 = k := by
  refine (OrderedDict.mem_keys_foldl_gather Prod.fst (fun _ => 0) (fun v e =>
    v + e.2) _ .empty k).trans ?_
  simp only [OrderedDict.keys_empty, List.not_mem_nil, false_or, List.mem_map,
    List.mem_flatMap]
  constructor
  · intro h
    obtain ⟨e, ⟨st, hst, he⟩, hk⟩ := h
    exact ⟨st, hst, e, he, hk⟩
  · intro h
    obtain ⟨st, hst, e, he, hk⟩ := h
    exact ⟨e, ⟨st, hst, he⟩, hk⟩

omit [UnicodeTextDb] in
/-- The main size is one of the sizes. -/
theorem dominantSize_mem {l : List (Int × Int)} (h : l ≠ []) :
    dominantSize l ∈ l.map Prod.fst := by
  have hbest : ∀ (l : List (Int × Int)) (e : Int × Int),
      l.foldl (fun best x => if best.2 < x.2 then x else best) e ∈ e :: l := by
    intro l
    induction l with
    | nil => exact fun e => List.mem_cons_self
    | cons x l ih =>
        intro e
        rw [List.foldl_cons]
        split
        · exact List.mem_cons_of_mem _ (ih x)
        · rcases List.mem_cons.mp (ih e) with hfirst | hlater
          · rw [hfirst]
            exact List.mem_cons_self
          · exact List.mem_cons_of_mem _ (List.mem_cons_of_mem _ hlater)
  obtain ⟨e, rest, rfl⟩ := List.exists_cons_of_ne_nil h
  exact List.mem_map_of_mem (hbest rest e)

omit [UnicodeTextDb] in
/-- Where sizes are positive, some size is the main one as soon as any is
known. -/
theorem mainSize_eq_zero_iff
    (hpos : ∀ st ∈ stats, ∀ e ∈ st.ioSizeHist, e.1 ≠ 0) :
    mainSize stats = 0 ↔ ∀ st ∈ stats, st.ioSizeHist = [] := by
  refine ⟨fun hzero st hst => ?_, mainSize_eq_zero⟩
  by_contra hsome
  obtain ⟨e, he⟩ := List.exists_mem_of_ne_nil _ hsome
  have hkey : e.1 ∈ (mergedSizes stats).keys :=
    (mem_keys_mergedSizes e.1).mpr ⟨st, hst, e, he, rfl⟩
  have hitems : (mergedSizes stats).items ≠ [] := fun hnil => by
    unfold OrderedDict.keys at hkey
    rw [hnil] at hkey
    cases hkey
  have hmain : mainSize stats ∈ (mergedSizes stats).keys :=
    dominantSize_mem hitems
  obtain ⟨st', hst', e', he', heq⟩ := (mem_keys_mergedSizes _).mp hmain
  exact hpos st' hst' e' he' (heq.trans hzero)

/-- **No I/O, no verdict?**  A group whose threads had no I/O has no verdict
exactly if the whole process has no size that most of its I/O has. -/
theorem idle_unjudged_iff (readFile : FileReader) (proc : ProcessInfo)
    (stats : List ProcessIoStat)
    (jobs : List FioOpts) (groups : List LogicalGroup)
    (hjobs : fioJobs readFile proc = .ok jobs)
    (hne : jobs ≠ [])
    (hgroups : fioLogicalGroups readFile proc stats = .ok groups) :
    ∀ g ∈ groups, Idle jobs stats g →
      (g.expectationMatch = none ↔ mainSize stats = 0) := by
  intro g hg hidle
  rw [fioLogicalGroups_eq hjobs hne] at hgroups
  obtain ⟨-, hjudged, -⟩ := fioGroups_fields hgroups
  obtain ⟨spec, tids, seqRatio, reasons, htids, hverdict⟩ := hjudged g hg
  have hsize :=
    size_measuredFromStats stats (if (jobs.length == 1) = true then none
    else some tids)
  have hiops :
      (measuredFromStats stats (if (jobs.length == 1) = true then none
      else some tids)).iops
      = 0 := by
    unfold Idle at hidle
    by_cases hone : jobs.length = 1
    · rw [if_pos hone] at hidle
      rw [if_pos (beq_iff_eq.mpr hone), iops_measuredFromStats]
      unfold iopsOf
      rw [List.map_congr_left fun st hst => (hidle st hst).1]
      simp
    · rw [if_neg hone, htids, threadIops_insertionSort] at hidle
      rw [if_neg (mt beq_iff_eq.mp hone),
        (measuredFromStats_share stats tids).1]
      unfold shareOf
      rw [hidle, zero_div, ite_self, mul_zero]
  rw [verdict_eq_none_iff hverdict, hiops, hsize]
  exact and_iff_right le_rfl

end

/-- A process with two jobs, each of which has a thread. -/
def pairOfJobs (cmdline : PyText) : ProcessInfo :=
  { pid := 70, comm := "fio".toList, cmdline := cmdline,
    threads := [(70, "fio".toList), (71, "seq".toList), (72, "rand".toList)] }

/-- All of the I/O is that of the first job. -/
def firstJobStats : List ProcessIoStat :=
  [{ device := "nvme0".toList, pid := 70, comm := "fio".toList, iops := 10,
     readIops := 10,
     writeIops := 0, bandwidthBps := 40960, avgLatencyUs := 0, ioSizeDominant :=
       4096,
     ioSizeHist := [(4096, 10)], queues := [(1, 10)], queueDepthEst :=
       0, seqRatio := none,
     threads := [⟨71, "seq".toList, 10⟩] }]

/-- The command line of the two jobs. -/
def pairCmdline : PyText := "fio --bs=4k --name=seq --name=rand".toList

/-- The same I/O, before any size is recorded. -/
def unsizedStats : List ProcessIoStat :=
  firstJobStats.map (fun st =>
    { st with ioSizeDominant := 0, ioSizeHist := [] })

omit [UnicodeTextDb] in
/-- The second job has done nothing yet, and no size is known. -/
theorem idle_unjudged_iff_pair :
    ∃ groups, @fioLogicalGroups UnicodeTextDb.ascii (fun _ => .ok none)
      (pairOfJobs pairCmdline)
        unsizedStats = .ok groups ∧ groups.map (fun g => g.threadTids) =
          [[71], [72]] ∧
      threadIops unsizedStats [71] = 10 ∧
      ∀ g ∈ groups, g.threadTids = [72] → g.expectationMatch = none := by
  have hjobs :
      @fioJobs UnicodeTextDb.ascii (fun _ => .ok none) (pairOfJobs pairCmdline)
      = .ok (parseFioCmdline pairCmdline).jobs := by
    unfold fioJobs
    exact if_pos (by decide)
  have htids :
      (@fioLogicalGroups UnicodeTextDb.ascii (fun _ => .ok none)
      (pairOfJobs pairCmdline)
      unsizedStats).toOption.map (List.map fun g => g.threadTids) =
        some [[71], [72]] := by
    decide +kernel
  cases hgroups :
      @fioLogicalGroups UnicodeTextDb.ascii (fun _ => .ok none)
      (pairOfJobs pairCmdline)
      unsizedStats with
  | error e =>
      rw [hgroups] at htids
      cases htids
  | ok groups =>
      rw [hgroups] at htids
      have hiff :=
        @idle_unjudged_iff UnicodeTextDb.ascii _ _ unsizedStats _ groups hjobs
        (by decide) hgroups
      refine ⟨groups, rfl, Option.some.inj htids, by decide +kernel,
        fun g hg hsecond => ?_⟩
      have hidle : Idle (parseFioCmdline pairCmdline).jobs unsizedStats g := by
        unfold Idle
        rw [if_neg (by decide), hsecond]
        decide +kernel
      exact (hiff g hg hidle).mpr (by decide +kernel)

omit [UnicodeTextDb] in
/-- **A job that did nothing, and matches.** -/
theorem idle_job_matches :
    (@fioLogicalGroups UnicodeTextDb.ascii (fun _ => .ok none)
      (pairOfJobs pairCmdline)
      firstJobStats).toOption.map (List.map fun g =>
        (g.name, g.threadTids, g.expectationMatch))
      = some [("seq".toList, [71], some true),
        ("rand".toList, [72], some true)] ∧
    threadIops firstJobStats [72] = 0 := by
  refine ⟨by decide +kernel, by decide +kernel⟩

/-! ### Whose a thread is -/

section

variable {threads : List (Int × PyText)}

/-- A thread has a name that fits a job. -/
def fitsJob (threads : List (Int × PyText)) (job : FioOpts) (tid : Int) :
    Bool :=
  ((OrderedDict.empty.insertAll threads).get? tid).any
    (threadOfJob (jobName job))

omit [UnicodeTextDb] in
theorem jobTids_eq_filter (threads : List (Int × PyText)) (assigned : List Int)
    (job : FioOpts) :
    jobTids threads false assigned job =
      (OrderedDict.empty.insertAll threads).keys.filter
      (fun t => fitsJob threads job t && decide (t ∉ assigned)) := by
  have hnames : (((OrderedDict.empty.insertAll threads).items.filter
      (fun e => threadOfJob (jobName job) e.2)).map Prod.fst)
      = (OrderedDict.empty.insertAll threads).keys.filter
        (fitsJob threads job) := by
    unfold OrderedDict.keys
    rw [List.filter_map]
    refine congrArg (List.map Prod.fst) (List.filter_congr fun e he => ?_)
    have hget := OrderedDict.get?_eq_some_iff.mpr he
    change _ = fitsJob threads job e.1
    unfold fitsJob
    rw [hget]
    rfl
  unfold jobTids
  dsimp only
  rw [hnames, if_neg (by simp), List.filter_filter]
  exact List.filter_congr fun t _ => Bool.and_comm _ _

omit [UnicodeTextDb] in
/-- Several jobs are served one after the other. -/
theorem jobShares_eq_shares (threads : List (Int × PyText))
    (assigned : List Int)
    (jobs : List FioOpts) : jobShares threads false assigned jobs
      = FirstCome.shares (fitsJob threads)
        (OrderedDict.empty.insertAll threads).keys assigned jobs := by
  induction jobs generalizing assigned with
  | nil => rfl
  | cons job jobs ih =>
      unfold jobShares FirstCome.shares
      rw [ih, jobTids_eq_filter]

omit [UnicodeTextDb] in
theorem items_threadComm (htids : (threads.map Prod.fst).Nodup) :
    (OrderedDict.empty.insertAll threads).items = threads :=
  OrderedDict.items_insertAll_empty htids

omit [UnicodeTextDb] in
theorem keys_threadComm (htids : (threads.map Prod.fst).Nodup) :
    (OrderedDict.empty.insertAll threads).keys = threads.map Prod.fst := by
  unfold OrderedDict.keys
  rw [items_threadComm htids]

omit [UnicodeTextDb] in
theorem fitsJob_of_mem (htids : (threads.map Prod.fst).Nodup) {e : Int × PyText}
    (he : e ∈ threads)
    (job : FioOpts) :
    fitsJob threads job e.1 = threadOfJob (jobName job) e.2 := by
  have hget : (OrderedDict.empty.insertAll threads).get? e.1 = some e.2 := by
    apply OrderedDict.get?_eq_some_iff.mpr
    rw [items_threadComm htids]
    exact he
  unfold fitsJob
  rw [hget]
  rfl

omit [UnicodeTextDb] in
/-- A thread without a name fits no job. -/
theorem ne_nil_of_threadOfJob {name comm : PyText}
    (h : threadOfJob name comm = true) : comm ≠ [] := by
  unfold threadOfJob at h
  exact of_decide_eq_true (Bool.and_eq_true_iff.mp h).1

omit [UnicodeTextDb] in
/-- A thread has the name of a job as far as it goes. -/
theorem threadOfJob_take {name : PyText} (h : name.take 15 ≠ []) :
    threadOfJob name (name.take 15) = true := by
  unfold threadOfJob
  have hfirst : (name.take 15).isPrefixOf name = true :=
    List.isPrefixOf_iff_prefix.mpr (List.take_prefix 15 name)
  rw [hfirst]
  simp [h]

/-- What `get_logical_groups` should make of the threads and the jobs: a thread
with the name of a job is that job's and no other's, and nobody's twice. -/
structure OwnThreads (threads : List (Int × PyText)) (jobs : List FioOpts)
    (tids : List (List Int)) : Prop where
  own : ∀ e ∈ threads, ∀ job ∈ jobs, e.2 = (jobName job).take 15 →
    ∀ entry ∈ jobs.zip tids, e.1 ∈ entry.2 ↔ entry.1 = job
  disjoint : tids.Pairwise List.Disjoint

/-- The threads of each job, as the groups have them. -/
def threadsOfGroups (groups : List LogicalGroup) : List (List Int) :=
  groups.map (·.threadTids)

/-- The threads go to their own jobs, in whatever order the jobs are. -/
def SentHome (proc : ProcessInfo) (jobs : List FioOpts) : Prop :=
  ∀ stats groups, groupsOfJobs proc stats jobs = .ok groups →
    OwnThreads proc.threads jobs (threadsOfGroups groups) ∧
    ∀ jobs' stats' groups', jobs'.Perm jobs →
      groupsOfJobs proc stats' jobs' = .ok groups' →
      (jobs'.zip (threadsOfGroups groups')).Perm
        (jobs.zip (threadsOfGroups groups))

/-- No name fits two jobs, and a thread without a name is not asked for by a job
without one; unless there is one job and no name at all. -/
structure HomeKnown (threads : List (Int × PyText)) (jobs : List FioOpts) :
    Prop where
  one : ∀ e ∈ threads, ∀ job ∈ jobs, ∀ job' ∈ jobs,
    threadOfJob (jobName job) e.2 = true →
    threadOfJob (jobName job') e.2 = true → job = job'
  named : ∀ e ∈ threads, e.2 = [] → ∀ job ∈ jobs, jobName job = [] →
    jobs.length = 1 ∧ ∀ e' ∈ threads, e'.2 = []

omit [UnicodeTextDb] in
theorem exclusive_iff (htids : (threads.map Prod.fst).Nodup)
    {jobs : List FioOpts} :
    FirstCome.Exclusive (fitsJob threads) (threads.map Prod.fst) jobs ↔
      ∀ e ∈ threads, ∀ job ∈ jobs, ∀ job' ∈ jobs,
        threadOfJob (jobName job) e.2 = true →
        threadOfJob (jobName job') e.2 = true → job = job' := by
  unfold FirstCome.Exclusive
  rw [List.forall_mem_map]
  refine forall₂_congr fun e he => ?_
  simp only [fitsJob_of_mem htids he]

omit [UnicodeTextDb] in
/-- A single job without threads of its own has all. -/
theorem jobTids_single (threads : List (Int × PyText)) (job : FioOpts) :
    jobTids threads true [] job =
      if jobTids threads false [] job = [] then threads.map Prod.fst
      else jobTids threads false [] job := by
  have hfresh : ∀ l : List Int,
    l.filter (fun t => decide (t ∉ ([] : List Int))) = l := by simp
  have hnamed :
      jobTids threads false [] job =
      (((OrderedDict.empty.insertAll threads).items.filter
      (fun e => threadOfJob (jobName job) e.2)).map Prod.fst) := by
    unfold jobTids
    dsimp only
    rw [if_neg (by simp)]
    exact hfresh _
  rw [hnamed]
  unfold jobTids
  simp only [hfresh, and_true]

omit [UnicodeTextDb] in
theorem mem_jobTids (htids : (threads.map Prod.fst).Nodup) {e : Int × PyText}
    (he : e ∈ threads)
    (job : FioOpts) :
    e.1 ∈ jobTids threads false [] job ↔
    threadOfJob (jobName job) e.2 = true := by
  rw [jobTids_eq_filter, keys_threadComm htids, List.mem_filter,
    fitsJob_of_mem htids he]
  simp [List.mem_map_of_mem he]

omit [UnicodeTextDb] in
/-- When a single job has the threads with its name. -/
theorem mem_jobTids_single_iff (htids : (threads.map Prod.fst).Nodup)
    {e : Int × PyText}
    (he : e ∈ threads) {job : FioOpts} (hname : e.2 = (jobName job).take 15) :
    e.1 ∈ jobTids threads true [] job ↔ (e.2 = [] → ∀ e' ∈ threads, e'.2 = []) := by
  have hall : e.1 ∈ threads.map Prod.fst := List.mem_map_of_mem he
  rw [jobTids_single]
  by_cases hnil : e.2 = []
  · have hjob : jobName job = [] := by
      rw [hnil] at hname
      simpa using hname.symm
    have hfit : ∀ comm : PyText, threadOfJob (jobName job) comm = true ↔
        comm ≠ [] := by
      intro comm
      refine ⟨ne_nil_of_threadOfJob, fun hne => ?_⟩
      rw [hjob]
      simp [threadOfJob, hne]
    have hnone : jobTids threads false [] job = [] ↔
        ∀ e' ∈ threads, e'.2 = [] := by
      constructor
      · intro htaken e' he'
        by_contra hne
        have hmem := (mem_jobTids htids he' job).mpr ((hfit _).mpr hne)
        rw [htaken] at hmem
        cases hmem
      · intro hblank
        apply List.eq_nil_iff_forall_not_mem.mpr
        intro t ht
        have hkey : t ∈ threads.map Prod.fst := by
          rw [jobTids_eq_filter, keys_threadComm htids] at ht
          exact List.mem_of_mem_filter ht
        obtain ⟨e', he', rfl⟩ := List.mem_map.mp hkey
        exact (hfit _).mp ((mem_jobTids htids he' job).mp ht) (hblank e' he')
    have hself : e.1 ∉ jobTids threads false [] job := fun hmem =>
      (hfit _).mp ((mem_jobTids htids he job).mp hmem) hnil
    split
    case isTrue htaken => exact iff_of_true hall fun _ => hnone.mp htaken
    case isFalse htaken => exact iff_of_false hself fun h => htaken (hnone.mpr (h hnil))
  · have hself : e.1 ∈ jobTids threads false [] job := by
      rw [mem_jobTids htids he, hname]
      exact threadOfJob_take (hname ▸ hnil)
    rw [if_neg (List.ne_nil_of_mem hself)]
    exact iff_of_true hself fun h => absurd h hnil

omit [UnicodeTextDb] in
/-- The pairs of jobs and threads, the threads in order. -/
theorem zip_map_sorted (jobs : List FioOpts) (l : List (List Int)) :
    jobs.zip (l.map (fun tids => tids.insertionSort (· ≤ ·)))
      = (jobs.zip l).map (Prod.map id (fun tids =>
        tids.insertionSort (· ≤ ·))) :=
  List.zip_map_right

omit [UnicodeTextDb] in
theorem pairwise_disjoint_sorted {l : List (List Int)}
    (h : l.Pairwise List.Disjoint) :
    (l.map (fun tids => tids.insertionSort (· ≤ ·))).Pairwise
      List.Disjoint := by
  refine List.pairwise_map.mpr (h.imp ?_)
  intro a b hab t hta htb
  exact hab ((List.perm_insertionSort _ a).mem_iff.mp hta)
    ((List.perm_insertionSort _ b).mem_iff.mp htb)

theorem threadsOfGroups_eq {proc : ProcessInfo} {stats : List ProcessIoStat}
    {jobs : List FioOpts}
    {groups : List LogicalGroup}
    (h : groupsOfJobs proc stats jobs = .ok groups) :
    threadsOfGroups groups =
      (jobShares proc.threads (jobs.length == 1) [] jobs).map
      (fun tids => tids.insertionSort (· ≤ ·)) :=
  (fioGroups_fields h).1

theorem specs_of_groupsOfJobs {proc : ProcessInfo} {stats : List ProcessIoStat}
    {jobs : List FioOpts}
    {groups : List LogicalGroup}
    (h : groupsOfJobs proc stats jobs = .ok groups) :
    ∀ job ∈ jobs, ∃ spec, specFromOpts job = .ok spec :=
  (fioGroups_fields h).2.2

/-- **A single job.** -/
theorem sentHome_single_iff {proc : ProcessInfo}
    (htids : (proc.threads.map Prod.fst).Nodup)
    {job : FioOpts} (hspec : ∃ spec, specFromOpts job = .ok spec) :
    SentHome proc [job] ↔ HomeKnown proc.threads [job] := by
  have hgroups : ∀ {stats : List ProcessIoStat} {groups : List LogicalGroup},
      groupsOfJobs proc stats [job] = .ok groups →
      threadsOfGroups groups =
        [(jobTids proc.threads true [] job).insertionSort (· ≤ ·)] :=
    fun h => threadsOfGroups_eq h
  have hmem : ∀ t,
      t ∈ (jobTids proc.threads true [] job).insertionSort (· ≤ ·) ↔
      t ∈ jobTids proc.threads true [] job :=
        fun t => (List.perm_insertionSort _ _).mem_iff
  constructor
  · intro hhome
    have hok : ∃ groups, fioGroups proc [] true [] [job] = .ok groups :=
      fioGroups_nil (List.forall_mem_singleton.mpr hspec) []
    obtain ⟨groups, hok⟩ := hok
    have hown := (hhome [] groups hok).1.own
    rw [hgroups hok] at hown
    refine ⟨by simp, ?_⟩
    intro e he hnil j hj hname
    obtain rfl := List.mem_singleton.mp hj
    refine ⟨rfl, ?_⟩
    have hcomm : e.2 = (jobName j).take 15 := by
      rw [hnil, hname]
      rfl
    have hin := (hown e he j hj hcomm _ List.mem_cons_self).mpr rfl
    exact (mem_jobTids_single_iff htids he hcomm).mp ((hmem _).mp hin) hnil
  · intro hknown stats groups hok
    rw [hgroups hok]
    refine ⟨⟨?_, List.pairwise_singleton _ _⟩, ?_⟩
    · intro e he j hj hcomm entry hentry
      obtain rfl := List.mem_singleton.mp hj
      obtain rfl := List.mem_singleton.mp hentry
      refine iff_of_true
        ((hmem _).mpr ((mem_jobTids_single_iff htids he hcomm).mpr ?_)) rfl
      intro hnil
      refine (hknown.named e he hnil j hj ?_).2
      rw [hnil] at hcomm
      simpa using hcomm.symm
    · intro jobs' stats' groups' hperm hok'
      obtain rfl := List.perm_singleton.mp hperm
      rw [hgroups hok']

/-- Of several jobs each has what is left of the threads that fit it, in
order. -/
theorem threadsOfGroups_many {proc : ProcessInfo}
    (htids : (proc.threads.map Prod.fst).Nodup)
    {stats : List ProcessIoStat} {jobs : List FioOpts} (hmany : jobs.length ≠ 1)
    {groups : List LogicalGroup}
    (hok : groupsOfJobs proc stats jobs = .ok groups) :
    threadsOfGroups groups =
      (FirstCome.shares (fitsJob proc.threads) (proc.threads.map Prod.fst)
      [] jobs).map (fun tids => tids.insertionSort (· ≤ ·)) := by
  have hlen : (jobs.length == 1) = false := beq_eq_false_iff_ne.mpr hmany
  rw [threadsOfGroups_eq hok, hlen, jobShares_eq_shares, keys_threadComm htids]

/-- Which threads a job is listed with. -/
theorem mem_zip_threadsOfGroups {proc : ProcessInfo}
    (htids : (proc.threads.map Prod.fst).Nodup)
    {stats : List ProcessIoStat} {jobs : List FioOpts} (hmany : jobs.length ≠ 1)
    {groups : List LogicalGroup}
    (hok : groupsOfJobs proc stats jobs = .ok groups)
    {entry : FioOpts × List Int}
    (hentry : entry ∈ jobs.zip (threadsOfGroups groups)) :
    ∃ tids, (entry.1, tids) ∈ jobs.zip (FirstCome.shares (fitsJob proc.threads)
        (proc.threads.map Prod.fst) [] jobs) ∧ ∀ t, t ∈ entry.2 ↔ t ∈ tids := by
  rw [threadsOfGroups_many htids hmany hok, zip_map_sorted] at hentry
  obtain ⟨share, hshare, rfl⟩ := List.mem_map.mp hentry
  exact ⟨share.2, hshare, fun t => (List.perm_insertionSort _ share.2).mem_iff⟩

/-- In another order each job has the same threads, so no name fits two. -/
theorem exclusive_of_sentHome {proc : ProcessInfo} {jobs : List FioOpts}
    (htids : (proc.threads.map Prod.fst).Nodup) (hmany : jobs.length ≠ 1)
    (hspec : ∀ job ∈ jobs, ∃ spec, specFromOpts job = .ok spec)
    (hhome : SentHome proc jobs) :
    FirstCome.Exclusive (fitsJob proc.threads) (proc.threads.map Prod.fst)
      jobs := by
  obtain ⟨groups, hok⟩ : ∃ groups, groupsOfJobs proc [] jobs = .ok groups :=
    fioGroups_nil hspec []
  refine FirstCome.exclusive_of_gets ?_
  intro jobs' hperm job t hgets
  have hmany' : jobs'.length ≠ 1 := hperm.length_eq ▸ hmany
  obtain ⟨groups', hok'⟩ : ∃ groups, groupsOfJobs proc [] jobs' = .ok groups :=
    fioGroups_nil (fun job hjob => hspec job (hperm.mem_iff.mp hjob)) []
  have hpairs := (hhome [] groups hok).2 jobs' [] groups' hperm hok'
  obtain ⟨s, hs, hts⟩ := hgets
  have hlisted :
      (job, s.insertionSort (· ≤ ·)) ∈ jobs'.zip (threadsOfGroups groups') := by
    rw [threadsOfGroups_many htids hmany' hok', zip_map_sorted]
    exact List.mem_map_of_mem hs
  obtain ⟨tids, hshare, hsame⟩ :=
    mem_zip_threadsOfGroups htids hmany hok (hpairs.mem_iff.mp hlisted)
  exact ⟨tids, hshare,
    (hsame t).mp ((List.perm_insertionSort _ s).mem_iff.mpr hts)⟩

/-- A thread without a name goes to no job without one. -/
theorem named_of_sentHome {proc : ProcessInfo} {jobs : List FioOpts}
    (htids : (proc.threads.map Prod.fst).Nodup) (hmany : jobs.length ≠ 1)
    (hspec : ∀ job ∈ jobs, ∃ spec, specFromOpts job = .ok spec)
    (hhome : SentHome proc jobs)
    {e : Int × PyText} (he : e ∈ proc.threads) (hnil : e.2 = []) {job : FioOpts}
    (hjob : job ∈ jobs) : jobName job ≠ [] := by
  intro hname
  obtain ⟨groups, hok⟩ : ∃ groups, groupsOfJobs proc [] jobs = .ok groups :=
    fioGroups_nil hspec []
  have hcomm : e.2 = (jobName job).take 15 := by
    rw [hnil, hname]
    rfl
  have hlen : (threadsOfGroups groups).length = jobs.length := by
    rw [threadsOfGroups_many htids hmany hok, List.length_map,
      FirstCome.length_shares]
  rw [← List.map_fst_zip (Nat.le_of_eq hlen.symm)] at hjob
  obtain ⟨entry, hentry, rfl⟩ := List.mem_map.mp hjob
  have hin := ((hhome [] groups hok).1.own e he entry.1
    (List.of_mem_zip hentry).1 hcomm _
    hentry).mpr rfl
  obtain ⟨tids, hshare, hsame⟩ := mem_zip_threadsOfGroups htids hmany hok hentry
  have hfits := FirstCome.fits_of_mem_shares hshare ((hsame e.1).mp hin)
  rw [fitsJob_of_mem htids he] at hfits
  exact ne_nil_of_threadOfJob hfits hnil

/-- If no name fits two jobs, each job has the threads with its name. -/
theorem ownThreads_of_homeKnown {proc : ProcessInfo}
    {stats : List ProcessIoStat}
    {jobs : List FioOpts} (htids : (proc.threads.map Prod.fst).Nodup)
    (hjobs : jobs.Nodup)
    (hmany : jobs.length ≠ 1) (hknown : HomeKnown proc.threads jobs)
    {groups : List LogicalGroup}
    (hok : groupsOfJobs proc stats jobs = .ok groups) :
    OwnThreads proc.threads jobs (threadsOfGroups groups) := by
  have hexclusive := (exclusive_iff htids).mpr hknown.one
  constructor
  · intro e he job hjob hcomm entry hentry
    have hne : e.2 ≠ [] := by
      intro hnil
      refine hmany (hknown.named e he hnil job hjob ?_).1
      rw [hnil] at hcomm
      simpa using hcomm.symm
    have hfits : threadOfJob (jobName job) e.2 = true := by
      rw [hcomm]
      exact threadOfJob_take (hcomm ▸ hne)
    obtain ⟨tids, hshare, hsame⟩ :=
      mem_zip_threadsOfGroups htids hmany hok hentry
    rw [FirstCome.shares_of_exclusive hjobs hexclusive (List.forall_mem_nil _),
      ← List.map_prod_left_eq_zip] at hshare
    obtain ⟨job', hjob', heq⟩ := List.mem_map.mp hshare
    obtain ⟨hown, rfl⟩ := Prod.mk.inj heq
    rw [hsame, List.mem_filter, fitsJob_of_mem htids he, ← hown]
    constructor
    · intro hin
      exact hknown.one e he job' hjob' job hjob hin.2 hfits
    · intro heq
      rw [heq]
      exact ⟨List.mem_map_of_mem he, hfits⟩
  · rw [threadsOfGroups_many htids hmany hok]
    exact pairwise_disjoint_sorted (FirstCome.pairwise_shares _ _)

/-- **Several jobs.** -/
theorem sentHome_many_iff {proc : ProcessInfo} {jobs : List FioOpts}
    (htids : (proc.threads.map Prod.fst).Nodup) (hjobs : jobs.Nodup)
    (hmany : jobs.length ≠ 1)
    (hspec : ∀ job ∈ jobs, ∃ spec, specFromOpts job = .ok spec) :
    SentHome proc jobs ↔ HomeKnown proc.threads jobs := by
  constructor
  · intro hhome
    refine ⟨(exclusive_iff htids).mp
      (exclusive_of_sentHome htids hmany hspec hhome), ?_⟩
    intro e he hnil job hjob hname
    exact absurd hname (named_of_sentHome htids hmany hspec hhome he hnil hjob)
  · intro hknown stats groups hok
    refine ⟨ownThreads_of_homeKnown htids hjobs hmany hknown hok, ?_⟩
    intro jobs' stats' groups' hperm hok'
    have hmany' : jobs'.length ≠ 1 := hperm.length_eq ▸ hmany
    rw [threadsOfGroups_many htids hmany hok,
      threadsOfGroups_many htids hmany' hok',
      zip_map_sorted, zip_map_sorted]
    exact (FirstCome.zip_shares_perm hjobs
      ((exclusive_iff htids).mpr hknown.one) hperm).map _

end

/-- **Do threads go to their own job?**  They do, in any order of the jobs,
exactly if no name of a thread fits two jobs, and an empty one is not asked for;
unless the options of a job cannot be read, when there are no groups. -/
theorem threads_sent_home_iff (proc : ProcessInfo) (jobs : List FioOpts)
    (hnames : (jobs.map (fun job => (jobName job).take 15)).Nodup)
    (htids : (proc.threads.map Prod.fst).Nodup) :
    SentHome proc jobs ↔
      HomeKnown proc.threads jobs ∨ ∃ job ∈ jobs, ∀ spec,
        specFromOpts job ≠ .ok spec := by
  by_cases hspec : ∀ job ∈ jobs, ∃ spec, specFromOpts job = .ok spec
  · have hreadable : ¬ ∃ job ∈ jobs, ∀ spec, specFromOpts job ≠ .ok spec := by
      intro hsome
      obtain ⟨job, hjob, hno⟩ := hsome
      obtain ⟨spec, hok⟩ := hspec job hjob
      exact hno spec hok
    rw [or_iff_left hreadable]
    by_cases hone : jobs.length = 1
    · obtain ⟨job, rfl⟩ := List.length_eq_one_iff.mp hone
      exact sentHome_single_iff htids (hspec job List.mem_cons_self)
    · exact sentHome_many_iff htids (List.Nodup.of_map _ hnames) hone hspec
  · refine iff_of_true ?_ (Or.inr ?_)
    · intro stats groups hok
      exact absurd (specs_of_groupsOfJobs hok) hspec
    · push Not at hspec
      exact hspec

/-- A job with a name and no options. -/
def jobNamed (name : PyText) : FioOpts :=
  OrderedDict.empty.insert "name".toList name

omit [UnicodeTextDb] in
/-- Names without a common beginning. -/
theorem threads_sent_home_iff_pair :
    @SentHome UnicodeTextDb.ascii (pairOfJobs pairCmdline)
      [jobNamed "seq".toList, jobNamed "rand".toList] :=
  (@threads_sent_home_iff UnicodeTextDb.ascii (pairOfJobs pairCmdline)
    [jobNamed "seq".toList, jobNamed "rand".toList] (by decide) (by decide)).mpr
    (Or.inl ⟨by decide, by decide⟩)

/-- A process with two jobs, one of which has the beginning of the other's
name. -/
def jobOfTen : ProcessInfo :=
  { pid := 80, comm := "fio".toList,
    cmdline := "fio --name=job1 --name=job10".toList,
    threads := [(81, "job1".toList), (82, "job10".toList)] }

omit [UnicodeTextDb] in
/-- **A thread that goes to another job.**  The second job gets nothing, since
the first takes both threads. -/
theorem job_takes_both :
    let jobs := [jobNamed "job1".toList, jobNamed "job10".toList]
    (parseFioCmdline jobOfTen.cmdline).jobs = jobs ∧
    (jobs.map (fun job => (jobName job).take 15)).Nodup ∧
      (jobOfTen.threads.map Prod.fst).Nodup ∧
    (@fioLogicalGroups UnicodeTextDb.ascii (fun _ => .ok none) jobOfTen
      []).toOption.map
      (List.map fun g => (g.name, g.threadTids))
        = some [("job1".toList, [81, 82]), ("job10".toList, [])] ∧
    ¬ @SentHome UnicodeTextDb.ascii jobOfTen jobs := by
  intro jobs
  refine ⟨by decide, by decide, by decide, by decide +kernel, ?_⟩
  intro hhome
  have hsome :
      (@groupsOfJobs UnicodeTextDb.ascii jobOfTen [] jobs).toOption.map
      threadsOfGroups
      = some [[81, 82], []] := by decide +kernel
  cases hgroups : @groupsOfJobs UnicodeTextDb.ascii jobOfTen [] jobs with
  | error e =>
      rw [hgroups] at hsome
      cases hsome
  | ok groups =>
      rw [hgroups] at hsome
      have hown := (hhome [] groups hgroups).1.own
      rw [Option.some.inj hsome] at hown
      have hsame :=
        (hown (82, "job10".toList) (by decide) (jobNamed "job10".toList)
        (by decide)
        (by decide) (jobNamed "job1".toList, [81, 82]) (by decide)).mp (by
          decide)
      exact absurd hsame (by decide)

end Telemetryd
