import Mathlib.Algebra.BigOperators.Ring.List
import Telemetryd.ProfilingHost
import Telemetryd.SendableProfiles

/-!
# The groups of an unknown program

`GenericAdapter.get_logical_groups` puts the threads whose names have a common
part into one group, and gives each group the share of the I/O that its threads
have.  No thread is lost or in two groups, and the groups add up to what was
measured of the process.
-/

namespace Telemetryd

open PyText PyError GroupedSums Regex

variable [UnicodeTextDb]

/-! ### The buckets -/

/-- The buckets of a process; one without threads has a bucket of its own. -/
def processBuckets (proc : ProcessInfo) : List (PyText × List Int) :=
  let found := (threadBuckets proc.threads).items
  if found = [] then
    [(if proc.comm ≠ [] then proc.comm else "pid".toList ++ ofInt proc.pid,
      [proc.pid])]
  else found

/-- The buckets in the order of the groups. -/
def sortedBuckets (proc : ProcessInfo) : List (PyText × List Int) :=
  (processBuckets proc).insertionSort (fun a b => a.1 ≤ b.1)

/-- The threads among which the groups are made. -/
def groupedThreads (proc : ProcessInfo) : List Int :=
  if proc.threads = [] then [proc.pid] else proc.threads.map Prod.fst

/-- The tids of a bucket as an argument of `measured_from_stats`. -/
def bucketShare (proc : ProcessInfo) (tids : List Int) : Option (List Int) :=
  if 1 < (processBuckets proc).length then some tids else none

theorem perm_sortedBuckets (proc : ProcessInfo) :
    (sortedBuckets proc).Perm (processBuckets proc) :=
  List.perm_insertionSort _ _

/-- What the groups have of the buckets. -/
theorem genericLogicalGroups_fields (proc : ProcessInfo)
    (stats : List ProcessIoStat) :
    (genericLogicalGroups proc stats).map (·.threadTids)
      = (sortedBuckets proc).map (fun e => e.2.insertionSort (· ≤ ·)) ∧
    (genericLogicalGroups proc stats).map (·.measuredWorkload)
      = (sortedBuckets proc).map (fun e =>
        some (measuredFromStats stats (bucketShare proc e.2))) := by
  unfold genericLogicalGroups sortedBuckets processBuckets bucketShare
    processBuckets
  rw [List.map_map, List.map_map]
  exact ⟨rfl, rfl⟩

theorem threadBuckets_eq_nil_iff (threads : List (Int × PyText)) :
    (threadBuckets threads).items = [] ↔ threads = [] := by
  constructor
  · intro hnil
    by_contra hne
    obtain ⟨e, rest, rfl⟩ := List.exists_cons_of_ne_nil hne
    obtain ⟨b, hb, -⟩ :=
      mem_threadBuckets.mpr
      (List.mem_map_of_mem (f := Prod.fst) List.mem_cons_self)
    rw [hnil] at hb
    cases hb
  · intro hnil
    rw [hnil]
    rfl

/-- A bucket has the threads with its name. -/
theorem tids_of_bucket {threads : List (Int × PyText)} {b : PyText × List Int}
    (hb : b ∈ (threadBuckets threads).items) :
    b.2 = (threads.filter (fun e => decide (groupKey e.2 = b.1))).map
      Prod.fst := by
  have hget := OrderedDict.get?_eq_some_iff.mpr hb
  rw [get?_threadBuckets] at hget
  split at hget
  case h_1 => cases hget
  case h_2 tids t heq => rw [heq, Option.some.inj hget]

section

variable {proc : ProcessInfo}

theorem processBuckets_of_threads (h : proc.threads ≠ []) :
    processBuckets proc = (threadBuckets proc.threads).items := by
  unfold processBuckets
  rw [if_neg (mt (threadBuckets_eq_nil_iff _).mp h)]

/-- A process without threads is its own group. -/
theorem processBuckets_of_nil (h : proc.threads = []) :
    ∃ name, processBuckets proc = [(name, [proc.pid])] := by
  unfold processBuckets
  rw [if_pos ((threadBuckets_eq_nil_iff _).mpr h)]
  exact ⟨_, rfl⟩

/-- Of two threads in one bucket the names have one key. -/
theorem mem_bucket_iff (hthreads : proc.threads ≠ [])
    (htids : (proc.threads.map Prod.fst).Nodup)
    {b : PyText × List Int} (hb : b ∈ processBuckets proc) {e : Int × PyText}
    (he : e ∈ proc.threads) : e.1 ∈ b.2 ↔ groupKey e.2 = b.1 := by
  rw [processBuckets_of_threads hthreads] at hb
  rw [tids_of_bucket hb]
  constructor
  · intro hmem
    obtain ⟨e', he', hfst⟩ := List.mem_map.mp hmem
    obtain ⟨hthread, hkey⟩ := List.mem_filter.mp he'
    have hsame : e' = e := List.inj_on_of_nodup_map htids hthread he hfst
    exact hsame ▸ of_decide_eq_true hkey
  · intro hkey
    exact List.mem_map_of_mem (List.mem_filter.mpr ⟨he, decide_eq_true hkey⟩)

theorem thread_of_mem_bucket {b : PyText × List Int}
    (hthreads : proc.threads ≠ [])
    (hb : b ∈ processBuckets proc) {t : Int} (ht : t ∈ b.2) :
    ∃ e ∈ proc.threads, e.1 = t := by
  rw [processBuckets_of_threads hthreads] at hb
  rw [tids_of_bucket hb] at ht
  obtain ⟨e, he, hfst⟩ := List.mem_map.mp ht
  exact ⟨e, (List.mem_filter.mp he).1, hfst⟩

/-- Every thread is in a bucket. -/
theorem exists_bucket {t : Int} (ht : t ∈ groupedThreads proc) :
    ∃ b ∈ processBuckets proc, t ∈ b.2 := by
  unfold groupedThreads at ht
  by_cases hthreads : proc.threads = []
  · obtain ⟨name, hbuckets⟩ := processBuckets_of_nil hthreads
    rw [if_pos hthreads] at ht
    rw [hbuckets]
    exact ⟨_, List.mem_cons_self, ht⟩
  · rw [if_neg hthreads] at ht
    rw [processBuckets_of_threads hthreads]
    exact mem_threadBuckets.mpr ht

/-- **Buckets are disjoint.** -/
theorem disjoint_buckets (htids : (proc.threads.map Prod.fst).Nodup) :
    (processBuckets proc).Pairwise (fun a b => a.2.Disjoint b.2) := by
  by_cases hthreads : proc.threads = []
  · obtain ⟨name, hbuckets⟩ := processBuckets_of_nil hthreads
    rw [hbuckets]
    exact List.pairwise_singleton _ _
  · have hkeys : (processBuckets proc).Pairwise (fun a b => a.1 ≠ b.1) := by
      rw [processBuckets_of_threads hthreads]
      exact List.pairwise_map.mp (threadBuckets proc.threads).keys_nodup
    refine hkeys.imp_of_mem ?_
    intro a b ha hb hne t hta htb
    obtain ⟨e, he, rfl⟩ := thread_of_mem_bucket hthreads ha hta
    have hkeya := (mem_bucket_iff hthreads htids ha he).mp hta
    have hkeyb := (mem_bucket_iff hthreads htids hb he).mp htb
    exact hne (hkeya.symm.trans hkeyb)

/-- **Nothing is lost.**  The buckets together are the threads. -/
theorem flatMap_buckets_perm (htids : (proc.threads.map Prod.fst).Nodup) :
    ((processBuckets proc).flatMap Prod.snd).Perm (groupedThreads proc) := by
  by_cases hthreads : proc.threads = []
  · obtain ⟨name, hbuckets⟩ := processBuckets_of_nil hthreads
    unfold groupedThreads
    rw [hbuckets, if_pos hthreads]
    rfl
  · have hnodup : (groupedThreads proc).Nodup := by
      unfold groupedThreads
      rwa [if_neg hthreads]
    have hflat : ((processBuckets proc).flatMap Prod.snd).Nodup := by
      refine List.nodup_flatMap.mpr ⟨?_, disjoint_buckets htids⟩
      intro b hb
      rw [processBuckets_of_threads hthreads] at hb
      rw [tids_of_bucket hb]
      exact htids.sublist (List.filter_sublist.map _)
    refine (List.perm_ext_iff_of_nodup hflat hnodup).mpr fun t => ?_
    rw [List.mem_flatMap]
    constructor
    · intro hmem
      obtain ⟨b, hb, ht⟩ := hmem
      obtain ⟨e, he, rfl⟩ := thread_of_mem_bucket hthreads hb ht
      unfold groupedThreads
      rw [if_neg hthreads]
      exact List.mem_map_of_mem he
    · exact exists_bucket

end

/-! ### The shares -/

section

variable {stats : List ProcessIoStat}

/-- The I/O of some threads. -/
def threadIops (stats : List ProcessIoStat) (tids : List Int) : ℚ :=
  ((stats.flatMap (·.threads)).filterMap (fun t =>
    if t.tid ∈ tids then some t.iops else none)).sum

/-- The part of the I/O of a process that some threads have. -/
def shareOf (stats : List ProcessIoStat) (tids : List Int) : ℚ :=
  if iopsOf stats = 0 then 0 else threadIops stats tids / iopsOf stats

omit [UnicodeTextDb] in
/-- What is measured of some threads is their share. -/
theorem measuredFromStats_share (stats : List ProcessIoStat) (tids : List Int) :
    (measuredFromStats stats (some tids)).iops =
      iopsOf stats * shareOf stats tids ∧
    (measuredFromStats stats (some tids)).bandwidthBps
      = (stats.map (·.bandwidthBps)).sum * shareOf stats tids ∧
    (measuredFromStats stats (some tids)).queueDepthAvg
      = (stats.map (·.queueDepthEst)).sum * shareOf stats tids := by
  cases stats with
  | nil => simp [measuredFromStats, iopsOf]
  | cons st stats => exact ⟨rfl, rfl, rfl⟩

omit [UnicodeTextDb] in
/-- What is measured of the process is all of it. -/
theorem measuredFromStats_none (stats : List ProcessIoStat) :
    (measuredFromStats stats none).iops = iopsOf stats ∧
    (measuredFromStats stats none).bandwidthBps =
      (stats.map (·.bandwidthBps)).sum ∧
    (measuredFromStats stats none).queueDepthAvg =
      (stats.map (·.queueDepthEst)).sum := by
  refine ⟨iops_measuredFromStats stats, ?_⟩
  cases stats with
  | nil => exact ⟨rfl, rfl⟩
  | cons st stats => simp [measuredFromStats]

omit [UnicodeTextDb] in
/-- **The shares add up to one**, unless there is no I/O. -/
theorem sum_shareOf {parts : List (List Int)}
    (hparts : parts.Pairwise List.Disjoint)
    (hsum : ∀ st ∈ stats, st.iops = (st.threads.map (·.iops)).sum)
    (hcover : ∀ st ∈ stats, ∀ t ∈ st.threads, ∃ p ∈ parts, t.tid ∈ p)
    (hio : iopsOf stats ≠ 0) :
    (parts.map (shareOf stats)).sum = 1 := by
  have hthreads : ((stats.flatMap (·.threads)).map (·.iops)).sum =
      iopsOf stats := by
    unfold iopsOf
    rw [List.flatMap_def, List.map_flatten, List.sum_flatten, List.map_map,
      List.map_map]
    exact congrArg List.sum (List.map_congr_left fun st hst =>
      (hsum st hst).symm)
  have hshare :
      ∀ p ∈ parts, shareOf stats p = threadIops stats p * (iopsOf stats)⁻¹ := by
    intro p _
    unfold shareOf
    rw [if_neg hio, div_eq_mul_inv]
  have htotal : (parts.map (threadIops stats)).sum = iopsOf stats := by
    rw [← hthreads]
    refine sum_parts ThreadIoStat.tid ThreadIoStat.iops hparts ?_
    intro t ht
    obtain ⟨st, hst, htst⟩ := List.mem_flatMap.mp ht
    exact hcover st hst t htst
  rw [List.map_congr_left hshare, List.sum_map_mul_right, htotal,
    mul_inv_cancel₀ hio]

omit [UnicodeTextDb] in
/-- A column that is zero where there is no I/O is shared out whole. -/
theorem sum_mul_shareOf {parts : List (List Int)}
    (hparts : parts.Pairwise List.Disjoint)
    (hsum : ∀ st ∈ stats, st.iops = (st.threads.map (·.iops)).sum)
    (hcover : ∀ st ∈ stats, ∀ t ∈ st.threads, ∃ p ∈ parts, t.tid ∈ p)
    {whole : ℚ}
    (hzero : iopsOf stats = 0 → whole = 0) :
    (parts.map (fun p => whole * shareOf stats p)).sum = whole := by
  rw [List.sum_map_mul_left]
  by_cases hio : iopsOf stats = 0
  · rw [hzero hio, zero_mul]
  · rw [sum_shareOf hparts hsum hcover hio, mul_one]

omit [UnicodeTextDb] in
/-- Without I/O no statistic has any. -/
theorem iops_eq_zero (hrate : ∀ st ∈ stats, 0 ≤ st.iops)
    (hio : iopsOf stats = 0) :
    ∀ st ∈ stats, st.iops = 0 := by
  unfold iopsOf at hio
  have hnonneg : ∀ x ∈ stats.map (·.iops), 0 ≤ x := by
    intro x hx
    obtain ⟨st, hst, rfl⟩ := List.mem_map.mp hx
    exact hrate st hst
  intro st hst
  exact List.all_zero_of_le_zero_le_of_sum_eq_zero hnonneg hio
    (List.mem_map_of_mem hst)

end

/-! ### The rates of a tick -/

/-- The counters of commands are natural numbers. -/
def Procs.Natural (procs : Procs) : Prop := ∀ e ∈ procs.items, 0 ≤ e.2.ops

namespace Procs

variable {procs procs' : Procs}

omit [UnicodeTextDb] in
theorem natural_update (h : procs.Natural) (key : Int × Int)
    {f : RawProc → RawProc}
    (hf : ∀ raw, 0 ≤ raw.ops → 0 ≤ (f raw).ops) :
    (procs.update key f).Natural := by
  have hold : 0 ≤ ((procs.get? key).getD {}).ops := by
    cases hget : procs.get? key with
    | none => exact le_rfl
    | some raw => exact h _ (OrderedDict.get?_eq_some_iff.mp hget)
  intro e he
  have hget : (procs.update key f).get? e.1 = some e.2 :=
    OrderedDict.get?_eq_some_iff.mpr he
  have hentry :=
    OrderedDict.get?_insert procs key e.1 (f ((procs.get? key).getD {}))
  rw [show procs.insert key _ = procs.update key f from rfl, hget] at hentry
  split at hentry
  · rw [Option.some.inj hentry]
    exact hf _ hold
  · exact h e (OrderedDict.get?_eq_some_iff.mp hentry.symm)

theorem natural_addProcOps (h : procs.Natural) {line : PyText}
    {groups : List PyText}
    (hmatch : match? procOpsRe line = some groups)
    (hadd : procs.addProcOps groups = .ok procs') :
    procs'.Natural := by
  have hdigits :
      match? ([text "@proc_ops[".toList, intGroup, text ", ".toList, intGroup,
      text ", ".toList, group [.many 0 isDot], text [']', ':'],
      skip (.many 0 isSpace)] ++
      numGroup :: [skip .eos]) line = some groups := hmatch
  obtain ⟨front, n, rfl, hfront, hn⟩ := digits_of_lastGroup hdigits rfl
  obtain ⟨ctrl, tgid, comm, rfl⟩ := List.length_eq_three.mp hfront
  obtain ⟨c, -, hadd⟩ := Fallible.bind_eq_ok.mp hadd
  obtain ⟨p, -, hadd⟩ := Fallible.bind_eq_ok.mp hadd
  obtain ⟨v, hv, hadd⟩ := Fallible.bind_eq_ok.mp hadd
  obtain rfl := Except.ok.inj hadd
  exact natural_update h _ fun raw hraw => add_nonneg hraw (pyInt_nonneg hn hv)

theorem natural_addThrOps (h : procs.Natural) {groups : List PyText}
    (hadd : procs.addThrOps groups = .ok procs') : procs'.Natural := by
  unfold addThrOps at hadd
  split at hadd
  · simp only [Fallible.bind_eq_ok] at hadd
    obtain ⟨c, -, p, -, t, -, v, -, hadd⟩ := hadd
    obtain rfl := Except.ok.inj hadd
    exact natural_update h _ fun _ hraw => hraw
  · obtain rfl := Except.ok.inj hadd
    exact h

theorem natural_addTwoKey (h : procs.Natural) {groups : List PyText}
    (hadd : procs.addTwoKey groups = .ok procs') : procs'.Natural := by
  unfold addTwoKey at hadd
  split at hadd
  case h_1 name ctrl tgid v =>
    simp only [Fallible.bind_eq_ok] at hadd
    obtain ⟨c, -, p, -, v, -, hadd⟩ := hadd
    obtain rfl := Except.ok.inj hadd
    refine natural_update h _ fun raw hraw => ?_
    rw [(raw.addCounter_frame name v).1]
    exact hraw
  case h_2 =>
    obtain rfl := Except.ok.inj hadd
    exact h

theorem natural_addThreeKey (h : procs.Natural) {groups : List PyText}
    (hadd : procs.addThreeKey groups = .ok procs') : procs'.Natural := by
  unfold addThreeKey at hadd
  split at hadd
  case h_1 name ctrl tgid k v =>
    simp only [Fallible.bind_eq_ok] at hadd
    obtain ⟨c, -, p, -, k, -, v, -, hadd⟩ := hadd
    obtain rfl := Except.ok.inj hadd
    refine natural_update h _ fun raw hraw => ?_
    rw [(raw.addBucket_frame name k v).1]
    exact hraw
  case h_2 =>
    obtain rfl := Except.ok.inj hadd
    exact h

/-- Only a line of `@proc_ops` counts commands. -/
theorem natural_parseLine (h : procs.Natural) {line : PyText}
    (hline : procs.parseLine line = .ok procs') : procs'.Natural := by
  unfold parseLine at hline
  dsimp only at hline
  split at hline
  · obtain rfl := Except.ok.inj hline
    exact h
  · split at hline
    case h_1 groups hmatch => exact natural_addProcOps h hmatch hline
    case h_2 =>
      split at hline
      · exact natural_addThrOps h hline
      · split at hline
        · exact natural_addTwoKey h hline
        · split at hline
          · exact natural_addThreeKey h hline
          · obtain rfl := Except.ok.inj hline
            exact h

theorem natural_foldlM {lines : List PyText} (h : procs.Natural)
    (hlines : lines.foldlM Procs.parseLine procs = .ok procs') :
    procs'.Natural := by
  induction lines generalizing procs with
  | nil =>
      cases hlines
      exact h
  | cons line lines ih =>
      rw [List.foldlM_cons] at hlines
      obtain ⟨next, hnext, hlines⟩ := Fallible.bind_eq_ok.mp hlines
      exact ih (natural_parseLine h hnext) hlines

end Procs

/-- **No rate that is read is negative**, so the premise on the rates holds of
all statistics the service has. -/
theorem rate_of_readProcessStats {file : Option Bytes} {device : Option PyText}
    {stats : List ProcessIoStat}
    (h : readProcessStats file device = .ok stats) :
    ∀ st ∈ stats, 0 ≤ st.iops := by
  obtain ⟨procs, hprocs, h⟩ := Fallible.bind_eq_ok.mp h
  have hempty : Procs.Natural .empty := List.forall_mem_nil _
  have hnatural : procs.Natural := Procs.natural_foldlM hempty hprocs
  obtain ⟨want, -, h⟩ := Fallible.bind_eq_ok.mp h
  cases want with
  | none =>
      cases h
      exact List.forall_mem_nil _
  | some want =>
      obtain ⟨out, hout, h⟩ := Fallible.bind_eq_ok.mp h
      obtain rfl := Except.ok.inj h
      intro st hst
      have hmem : st ∈ out := (List.perm_insertionSort _ out).mem_iff.mp hst
      obtain ⟨e, he, hstat⟩ := Fallible.exists_of_mem_mapM hout hmem
      rw [(toStat_eq hstat).2]
      exact Int.cast_nonneg (hnatural e (List.mem_of_mem_filter he))

/-! ### The groups -/

/-- What is measured of the groups adds up to what is measured of the
process. -/
theorem sum_buckets {proc : ProcessInfo} {stats : List ProcessIoStat}
    (htids : (proc.threads.map Prod.fst).Nodup)
    (hsum : ∀ st ∈ stats, st.iops = (st.threads.map (·.iops)).sum)
    (hown : ∀ st ∈ stats, ∀ t ∈ st.threads, t.tid ∈ proc.threads.map Prod.fst)
    {column : MeasuredWorkload → ℚ} {whole : ℚ}
    (hzero : iopsOf stats = 0 → whole = 0)
    (hnone : column (measuredFromStats stats none) = whole)
    (hsome : ∀ tids, column (measuredFromStats stats (some tids)) =
      whole * shareOf stats tids) :
    ((processBuckets proc).map (fun b =>
      column (measuredFromStats stats (bucketShare proc b.2)))).sum
      = whole := by
  unfold bucketShare
  by_cases hmany : 1 < (processBuckets proc).length
  · have hparts : ((processBuckets proc).map Prod.snd).Pairwise List.Disjoint :=
      List.pairwise_map.mpr (disjoint_buckets htids)
    have hcover : ∀ st ∈ stats, ∀ t ∈ st.threads,
        ∃ p ∈ (processBuckets proc).map Prod.snd, t.tid ∈ p := by
      intro st hst t ht
      have hmem := hown st hst t ht
      have hgrouped : t.tid ∈ groupedThreads proc := by
        unfold groupedThreads
        rwa [if_neg (fun h => by rw [h] at hmem; cases hmem)]
      obtain ⟨b, hb, htb⟩ := exists_bucket hgrouped
      exact ⟨b.2, List.mem_map_of_mem hb, htb⟩
    have hshared := sum_mul_shareOf hparts hsum hcover hzero
    rw [List.map_map] at hshared
    simp only [if_pos hmany, hsome]
    exact hshared
  · -- a single group has everything
    obtain ⟨b, hb⟩ : ∃ b, processBuckets proc = [b] := by
      have hne : processBuckets proc ≠ [] := by
        by_cases hthreads : proc.threads = []
        · obtain ⟨name, hbuckets⟩ := processBuckets_of_nil hthreads
          rw [hbuckets]
          exact List.cons_ne_nil _ _
        · rw [processBuckets_of_threads hthreads]
          exact mt (threadBuckets_eq_nil_iff _).mp hthreads
      have hpos := List.length_pos_iff.mpr hne
      exact List.length_eq_one_iff.mp (by omega)
    simp only [if_neg hmany, hnone]
    rw [hb, List.map_singleton, List.sum_singleton]

omit [UnicodeTextDb] in
theorem mem_bucket_sorted (b : PyText × List Int) (t : Int) :
    t ∈ b.2.insertionSort (· ≤ ·) ↔ t ∈ b.2 :=
  (List.perm_insertionSort _ b.2).mem_iff

/-- The groups have no thread in common. -/
theorem pairwise_groups {proc : ProcessInfo} (stats : List ProcessIoStat)
    (htids : (proc.threads.map Prod.fst).Nodup) :
    (genericLogicalGroups proc stats).Pairwise (fun g g' =>
      g.threadTids.Disjoint g'.threadTids) := by
  have hdisjoint :
      (sortedBuckets proc).Pairwise (fun a b => a.2.Disjoint b.2) :=
    (perm_sortedBuckets proc).symm.pairwise (disjoint_buckets htids) fun h =>
      h.symm
  have hlists :
      ((genericLogicalGroups proc stats).map (·.threadTids)).Pairwise
      List.Disjoint := by
    rw [(genericLogicalGroups_fields proc stats).1, List.pairwise_map]
    refine hdisjoint.imp ?_
    intro a b hab t hta htb
    exact hab ((mem_bucket_sorted a t).mp hta) ((mem_bucket_sorted b t).mp htb)
  exact List.pairwise_map.mp hlists

/-- The groups have the threads of the buckets. -/
theorem flatMap_groups_perm (proc : ProcessInfo) (stats : List ProcessIoStat) :
    ((genericLogicalGroups proc stats).flatMap (·.threadTids)).Perm
      ((processBuckets proc).flatMap Prod.snd) := by
  rw [List.flatMap_def,
    (genericLogicalGroups_fields proc stats).1, ← List.flatMap_def]
  refine (List.Perm.flatMap_left _ fun b _ =>
    List.perm_insertionSort _ b.2).trans ?_
  exact (perm_sortedBuckets proc).flatMap_right _

/-- Two threads are in one group if they are in one bucket. -/
theorem exists_group_iff (proc : ProcessInfo) (stats : List ProcessIoStat)
    (t t' : Int) :
    (∃ g ∈ genericLogicalGroups proc stats, t ∈ g.threadTids ∧
      t' ∈ g.threadTids) ↔
      ∃ b ∈ processBuckets proc, t ∈ b.2 ∧ t' ∈ b.2 := by
  have hlists :
      (∃ l ∈ (genericLogicalGroups proc stats).map (·.threadTids), t ∈ l ∧
      t' ∈ l) ↔
      ∃ b ∈ processBuckets proc, t ∈ b.2 ∧ t' ∈ b.2 := by
    rw [(genericLogicalGroups_fields proc stats).1]
    simp only [List.mem_map, exists_exists_and_eq_and, mem_bucket_sorted,
      (perm_sortedBuckets proc).mem_iff]
  rw [← hlists]
  simp only [List.mem_map, exists_exists_and_eq_and]

/-- Two threads are in one bucket if their names have the same key. -/
theorem exists_bucket_iff {proc : ProcessInfo}
    (htids : (proc.threads.map Prod.fst).Nodup)
    {e e' : Int × PyText} (he : e ∈ proc.threads) (he' : e' ∈ proc.threads) :
    (∃ b ∈ processBuckets proc, e.1 ∈ b.2 ∧ e'.1 ∈ b.2) ↔
      groupKey e.2 = groupKey e'.2 := by
  have hthreads : proc.threads ≠ [] := List.ne_nil_of_mem he
  constructor
  · intro hboth
    obtain ⟨b, hb, heb, heb'⟩ := hboth
    exact ((mem_bucket_iff hthreads htids hb he).mp heb).trans
      ((mem_bucket_iff hthreads htids hb he').mp heb').symm
  · intro hkey
    have hmem : e.1 ∈ groupedThreads proc := by
      unfold groupedThreads
      rw [if_neg hthreads]
      exact List.mem_map_of_mem he
    obtain ⟨b, hb, heb⟩ := exists_bucket hmem
    have hkeyb := (mem_bucket_iff hthreads htids hb he).mp heb
    exact ⟨b, hb, heb,
      (mem_bucket_iff hthreads htids hb he').mpr (hkey.symm.trans hkeyb)⟩

/-- What the groups measure is what is measured of the buckets. -/
theorem sum_groups (proc : ProcessInfo) (stats : List ProcessIoStat)
    (column : MeasuredWorkload → ℚ) :
    (((genericLogicalGroups proc stats).map (fun g =>
      g.measuredWorkload.getD {})).map column).sum
      = ((processBuckets proc).map
          (fun b => column
            (measuredFromStats stats (bucketShare proc b.2)))).sum := by
  have hlist :
      (genericLogicalGroups proc stats).map (fun g =>
      g.measuredWorkload.getD {})
      = (sortedBuckets proc).map (fun e =>
        measuredFromStats stats (bucketShare proc e.2)) := by
    have hmeasured := congrArg (List.map (fun m => Option.getD m {}))
      (genericLogicalGroups_fields proc stats).2
    rwa [List.map_map, List.map_map] at hmeasured
  rw [hlist, List.map_map]
  exact ((perm_sortedBuckets proc).map _).sum_eq

/-- **The generic groups.**  For a process with distinct tids and the statistics
of its threads the groups are disjoint and together have every thread, or the
pid of a process without any; two threads are in one group exactly if the keys
of their names agree; and rates, bandwidth and queue depth of the groups add up
to those of the whole process, which are those of its session. -/
theorem generic_groups_conserve (proc : ProcessInfo)
    (stats : List ProcessIoStat)
    (htids : (proc.threads.map Prod.fst).Nodup)
    (hrate : ∀ st ∈ stats, 0 ≤ st.iops)
    (hsum : ∀ st ∈ stats, st.iops = (st.threads.map (·.iops)).sum)
    (hown : ∀ st ∈ stats, ∀ t ∈ st.threads, t.tid ∈ proc.threads.map Prod.fst)
    (hidle : ∀ st ∈ stats, st.iops = 0 → st.bandwidthBps = 0 ∧
      st.queueDepthEst = 0) :
    let groups := genericLogicalGroups proc stats
    let measured := groups.map (fun g => g.measuredWorkload.getD {})
    let whole := measuredFromStats stats none
    groups.Pairwise (fun g g' => g.threadTids.Disjoint g'.threadTids) ∧
    (groups.flatMap (·.threadTids)).Perm
      (if proc.threads = [] then [proc.pid] else proc.threads.map Prod.fst) ∧
    (∀ e ∈ proc.threads, ∀ e' ∈ proc.threads,
      (∃ g ∈ groups, e.1 ∈ g.threadTids ∧ e'.1 ∈ g.threadTids) ↔
        groupKey e.2 = groupKey e'.2) ∧
    (∀ g ∈ groups, g.measuredWorkload ≠ none) ∧
    (measured.map (·.iops)).sum = whole.iops ∧
    (measured.map (·.bandwidthBps)).sum = whole.bandwidthBps ∧
    (measured.map (·.queueDepthAvg)).sum = whole.queueDepthAvg ∧
    ∀ plug rule sess, (observe plug proc rule stats sess).aggregate =
      some whole := by
  intro groups measured whole
  have hidleAll : ∀ st ∈ stats, iopsOf stats = 0 → st.bandwidthBps = 0 ∧
      st.queueDepthEst = 0 :=
    fun st hst hio => hidle st hst (iops_eq_zero hrate hio st hst)
  obtain ⟨hiops, hbandwidth, hdepth⟩ := measuredFromStats_none stats
  refine ⟨pairwise_groups stats htids,
    (flatMap_groups_perm proc stats).trans (flatMap_buckets_perm htids), ?_, ?_,
    ?_, ?_, ?_,
    fun _ _ _ => rfl⟩
  · intro e he e' he'
    exact (exists_group_iff proc stats e.1 e'.1).trans
      (exists_bucket_iff htids he he')
  · intro g hg hnone
    have hmem : g.measuredWorkload ∈ groups.map (·.measuredWorkload) :=
      List.mem_map_of_mem hg
    rw [(genericLogicalGroups_fields proc stats).2, hnone] at hmem
    obtain ⟨b, -, hb⟩ := List.mem_map.mp hmem
    cases hb
  · rw [sum_groups, hiops]
    exact sum_buckets htids hsum hown id hiops fun tids =>
      (measuredFromStats_share stats tids).1
  · rw [sum_groups, hbandwidth]
    refine sum_buckets htids hsum hown ?_ hbandwidth fun tids =>
      (measuredFromStats_share stats tids).2.1
    intro hio
    rw [List.map_congr_left fun st hst => (hidleAll st hst hio).1]
    simp
  · rw [sum_groups, hdepth]
    refine sum_buckets htids hsum hown ?_ hdepth fun tids =>
      (measuredFromStats_share stats tids).2.2
    intro hio
    rw [List.map_congr_left fun st hst => (hidleAll st hst hio).2]
    simp

/-- A process with two readers and a writer. -/
def workers : ProcessInfo :=
  { pid := 40, comm := "load".toList,
    threads := [(40, "load".toList), (41, "rd-1".toList), (42, "rd-2".toList)] }

/-- The readers have all of the I/O. -/
def workerStats : List ProcessIoStat :=
  [{ device := "nvme0".toList, pid := 40, comm := "load".toList, iops := 30,
     readIops := 30,
     writeIops := 0, bandwidthBps := 4096, avgLatencyUs :=
       100, ioSizeDominant := 4096,
     ioSizeHist := [(4096, 30)], queues := [(1, 30)], queueDepthEst :=
       1, seqRatio := none,
     threads := [⟨41, "rd-1".toList, 20⟩, ⟨42, "rd-2".toList, 10⟩] }]

omit [UnicodeTextDb] in
theorem generic_groups_conserve_workers :
    let groups := @genericLogicalGroups UnicodeTextDb.ascii workers workerStats
    let measured := groups.map (fun g => g.measuredWorkload.getD {})
    groups.map (·.threadTids) = [[40], [41, 42]] ∧
    (groups.flatMap (·.threadTids)).Perm [40, 41, 42] ∧
    (measured.map (·.iops)).sum =
      (measuredFromStats workerStats none).iops := by
  have hconserve :=
    @generic_groups_conserve UnicodeTextDb.ascii workers workerStats (by decide)
    (by simp [workerStats]) (by norm_num [workerStats])
      (by simp [workerStats, workers])
    (by simp [workerStats])
  obtain ⟨-, hperm, -, -, hiops, -⟩ := hconserve
  exact ⟨by decide, hperm, hiops⟩

end Telemetryd
