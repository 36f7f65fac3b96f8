import Telemetryd.HistogramView
import Telemetryd.ProcessTimes

/-!
# The latencies of the queues

The collector sums up the latencies of a queue and counts them by powers of two,
and the view shows their mean and four percentiles, for a queue and for the
whole controller. The history of the run knows each latency.  The mean is exact,
and a percentile is more than the latency of its place and at most twice as
much, among the latencies that are seen: those below 2^39 ns on the queues where
no latency is 0 or 1.
-/

namespace Telemetryd

open PyText Counters GroupedSums Quantile

/-! ### The histograms of a run -/

namespace History

/-- The commands of the second that were completed, of those with a property. -/
def timedOn (h : History) (p : SetupCmd → Bool) : List (SetupCmd × UInt64) :=
  h.timed.filter fun e => p e.1

/-- The latencies of the commands with a property. -/
def latenciesOn (h : History) (p : SetupCmd → Bool) : List UInt64 :=
  (h.timedOn p).map Prod.snd

end History

namespace SetupCmd

/-- The command is on a queue. -/
def onQueue (k : Key2) (a : SetupCmd) : Bool := decide (a.queue = k)

/-- The command is on a controller. -/
def onCtrl (c : Int64) (a : SetupCmd) : Bool := decide (a.ctrl = c)

end SetupCmd

/-- The histograms count the latencies of the queues, as machine words. -/
def History.Recorded (m : Maps) (h : History) : Prop :=
  ∀ k i, (m.latHist.get? k).getD (fun _ => 0) i =
    UInt64.ofNat ((h.latenciesOn (SetupCmd.onQueue k)).countP fun y =>
      decide (histIndex y.toInt64 = i))

theorem Hist.record_eq (h : Hist) (y : UInt64) (i : Fin 65) : h.record y i =
    h i + UInt64.ofNat ([y].countP fun y =>
      decide (histIndex y.toInt64 = i)) := by
  unfold Hist.record
  by_cases hi : i = histIndex y.toInt64
  · simp [hi]
  · simp [hi, Ne.symm hi]

namespace History.Kept

variable {s : Collector} {h : History}

/-- **One latency more** in a histogram. -/
theorem recorded_completeRq (hk : h.Kept s) (hr : h.Recorded s.maps)
    (a : CompleteRq) :
    (h.step (.completeRq a)).Recorded (s.latencyMaps a) := by
  rcases hk.latencyMaps_cases a
    with ⟨hmaps, htimed⟩ | ⟨b, hqueue, -, hmaps, htimed⟩
  · unfold History.Recorded History.latenciesOn History.timedOn
    rw [hmaps, htimed]
    exact hr
  · intro k i
    have hrec := hr k i
    unfold History.latenciesOn History.timedOn at hrec ⊢
    rw [hmaps, htimed, List.filter_append, List.map_append, List.countP_append,
      UInt64.ofNat_add, ← hrec]
    show ((s.maps.latHist.insert (a.ctrl, a.qid) _).get? k).getD
      (fun _ => 0) i = _
    rw [OrderedDict.get?_insert, ← hqueue]
    by_cases hkey : k = b.queue
    · have hone : [(b, a.nsecs - b.nsecs)].filter (fun e =>
          SetupCmd.onQueue k e.1) =
          [(b, a.nsecs - b.nsecs)] :=
            List.filter_cons_of_pos (decide_eq_true hkey.symm)
      rw [if_pos hkey, hone, ← hkey]
      exact Hist.record_eq _ _ i
    · have hnone :
          [(b, a.nsecs - b.nsecs)].filter (fun e => SetupCmd.onQueue k e.1) =
          [] :=
        List.filter_cons_of_neg fun hq => hkey (of_decide_eq_true hq).symm
      rw [if_neg hkey, hnone]
      exact (UInt64.add_zero _).symm

theorem recorded_step (o : PrintOrder) (hk : h.Kept s) (hr : h.Recorded s.maps)
    (p : Probe) :
    (h.step p).Recorded (s.step o p).1.maps := by
  cases p with
  | setupCmd a => exact hr
  | completeRq a =>
      have hmaps : (s.step o (.completeRq a)).1.maps.latHist =
          (s.latencyMaps a).latHist := by
        show (s.completeRq a).1.maps.latHist = _
        rw [Collector.completeRq_eq]
        rfl
      have hrec := hk.recorded_completeRq hr a
      unfold History.Recorded at hrec ⊢
      rwa [hmaps]
  | nvmeTimeout a => exact hr
  | interval => exact fun k i => rfl

end History.Kept

/-- **The histograms of a run** are those of its history. -/
theorem History.recorded_run (o : PrintOrder) {probes : List Probe}
    (hprobes : ∀ p ∈ probes, p.Timed) :
    (History.after probes).Recorded (Collector.run o {} probes).maps := by
  have hrun : ∀ (probes : List Probe), (∀ p ∈ probes, p.Timed) →
      ∀ (s : Collector) (h : History), h.Kept s →
      h.Recorded s.maps →
        (probes.foldl History.step h).Recorded (s.run o probes).maps := by
    intro probes
    induction probes with
    | nil => exact fun _ _ _ _ hr => hr
    | cons p probes ih =>
        intro hp s h hk hr
        obtain ⟨hfirst, hrest⟩ := List.forall_mem_cons.mp hp
        exact ih hrest _ _ (hk.step o hfirst) (hk.recorded_step o hr p)
  have hempty : (History.after []).Kept (Collector.run o {} []) :=
    History.kept_run o fun _ h => nomatch h
  exact hrun probes hprobes {} {} hempty fun _ _ => rfl

/-! ### What is shown -/

namespace History

/-- The latency is seen in the view. -/
def Seen (h : History) (e : SetupCmd × UInt64) : Prop :=
  NoneLow (h.latenciesOn (SetupCmd.onQueue e.1.queue)) ∧ e.2.toNat < 2 ^ 39

instance (h : History) (e : SetupCmd × UInt64) : Decidable (h.Seen e) :=
  inferInstanceAs (Decidable (_ ∧ _))

/-- The latencies that are seen of the commands with a property. -/
def seenOn (h : History) (p : SetupCmd → Bool) : Multiset Int :=
  inNanoseconds (((h.timedOn p).filter fun e => decide (h.Seen e)).map Prod.snd)

theorem seenOn_eq_sum (h : History) (p : SetupCmd → Bool) : h.seenOn p =
    ((h.timedOn p).map fun e => if h.Seen e then {(e.2.toNat : Int)}
      else 0).sum := by
  unfold seenOn
  induction h.timedOn p with
  | nil => rfl
  | cons e l ih =>
      rw [List.map_cons, List.sum_cons, ← ih]
      by_cases hseen : h.Seen e
      · rw [if_pos hseen, List.filter_cons, if_pos (decide_eq_true hseen)]
        rfl
      · rw [if_neg hseen, List.filter_cons, if_neg fun hd =>
          hseen (of_decide_eq_true hd), zero_add]

/-- The latencies of the commands with a property, in all. -/
def sumOn (h : History) (p : SetupCmd → Bool) : Nat :=
  ((h.latenciesOn p).map UInt64.toNat).sum

/-- No sum of the latencies of a queue runs over. -/
def QueuesFit (h : History) : Prop := ∀ k, h.sumOn (SetupCmd.onQueue k) < 2 ^ 64

end History

theorem History.queuesFit_of_sum {h : History}
    (hsum : (h.timed.map fun e => e.2.toNat).sum < 2 ^ 64) :
    h.QueuesFit := by
  intro k
  refine lt_of_le_of_lt ?_ hsum
  unfold History.sumOn History.latenciesOn
  rw [List.map_map]
  exact (List.filter_sublist.map _).sum_le_sum fun _ _ => Nat.zero_le _

/-- A percentile in microseconds is 0 without a latency, and else more than the
latency of its place and at most twice as much. -/
def ShowsPlace (shown : ℚ) (latencies : Multiset Int) (p : ℚ) : Prop :=
  if latencies = 0 then shown = 0
  else ∃ x, IsNth latencies ⌈p * latencies.card⌉₊ x ∧
    shown / 2 ≤ (x : ℚ) / 1000 ∧ (x : ℚ) / 1000 < shown

/-- A row shows the latencies of the commands with a property. -/
structure QueuePerf.ShowsTimes (row : QueuePerf) (h : History)
    (p : SetupCmd → Bool) : Prop where
  iops : row.iops = (h.timedOn p).length
  mean : row.avgLatencyUs = (if (h.timedOn p).length = 0 then 0
    else (h.sumOn p : ℚ) / (h.timedOn p).length) / 1000
  p50 : ShowsPlace row.p50LatencyUs (h.seenOn p) (1 / 2)
  p95 : ShowsPlace row.p95LatencyUs (h.seenOn p) (95 / 100)
  p99 : ShowsPlace row.p99LatencyUs (h.seenOn p) (99 / 100)
  p999 : ShowsPlace row.p999LatencyUs (h.seenOn p) (999 / 1000)

theorem IsHistogram.showsPlace {buckets : List Bucket}
    {latencies : Multiset Int}
    (h : IsHistogram buckets latencies) {p : ℚ} (hp : 0 < p) (hp1 : p ≤ 1) :
    ShowsPlace (percentileNs buckets p / 1000) latencies p := by
  unfold ShowsPlace
  split
  case isTrue hnone =>
    have htotal : (buckets.map (fun b => b.2.2)).sum = 0 := by
      rw [h.counted.total, hnone]
      rfl
    unfold percentileNs
    rw [if_pos htotal, zero_div]
  case isFalse hsome =>
    obtain ⟨x, hx, hlow, hhigh⟩ :=
      (percentileLaws h (Multiset.card_pos.mpr hsome)).orderStatistic p hp hp1
    refine ⟨x, hx, ?_, ?_⟩
    · rw [div_right_comm]
      exact div_le_div_of_nonneg_right hlow (by norm_num)
    · exact div_lt_div_of_pos_right hhigh (by norm_num)

/-- A row of `_build_queue_perf` shows what its counters and its buckets are. -/
theorem showsTimes_queueRow {h : History} {p : SetupCmd → Bool}
    {counters : OrderedDict PyText Int}
    {buckets : List Bucket}
    (hops : counter counters "op_count".toList = (h.timedOn p).length)
    (hcount : counter counters "lat_count".toList = (h.timedOn p).length)
    (hsum : counter counters "lat_sum".toList = h.sumOn p)
    (hb : IsHistogram buckets (h.seenOn p))
    (qid : Int) : (queueRow qid counters buckets).ShowsTimes h p := by
  refine ⟨?_, ?_, ?_, ?_, ?_, ?_⟩
  · show (counter counters "op_count".toList : ℚ) = _
    rw [hops, Int.cast_natCast]
  · show (if counter counters "lat_count".toList = 0 then 0 else
      (counter counters "lat_sum".toList : ℚ) /
        counter counters "lat_count".toList) / 1000 = _
    rw [hcount, hsum]
    simp only [Nat.cast_eq_zero, Int.cast_natCast]
  · exact hb.showsPlace (by norm_num) (by norm_num)
  · exact hb.showsPlace (by norm_num) (by norm_num)
  · exact hb.showsPlace (by norm_num) (by norm_num)
  · exact hb.showsPlace (by norm_num) (by norm_num)

/-! ### A queue -/

theorem valueAt_eq_word (m : Counters Key2) (c q : Int64) :
    valueAt m c.toInt q.toInt = (word m (c, q)).toNat := by
  have hlook : ∀ l : List (Key2 × UInt64),
      OrderedDict.look (c.toInt, q.toInt) (l.map fun e =>
        ((e.1.1.toInt, e.1.2.toInt), (e.2.toNat : Int))) =
        (OrderedDict.look (c, q) l).map fun v => (v.toNat : Int) := by
    intro l
    induction l with
    | nil => rfl
    | cons e l ih =>
        rw [List.map_cons, OrderedDict.look_cons, OrderedDict.look_cons, ih]
        by_cases hk : e.1 = (c, q)
        · rw [if_pos hk, if_pos (by rw [hk]), Option.map_some]
        · rw [if_neg hk, if_neg fun heq => hk (intKey_injective heq)]
  unfold valueAt word OrderedDict.get? intItems
  rw [hlook]
  cases OrderedDict.look (c, q) m.items with
  | none => rfl
  | some v => rfl

namespace History.Kept

variable {s : Collector} {h : History} (hk : h.Kept s)

include hk

/-- The completions of a queue are those of the history. -/
theorem latCount :
    Counts s.maps.latCount h.timed (fun e => e.1.queue) (fun _ => 1) := by
  have hcount := hk.ledger.tallied.latCount
  rw [← hk.completed] at hcount
  refine ⟨fun k => ?_, fun k => ?_⟩
  · rw [hcount.word_eq, groupSum_map]
    rfl
  · rw [hcount.mem_keys]
    simp

variable (hfits : h.ledger.Fits)

include hfits

theorem completedFit (k : Key2) :
    (h.timedOn (SetupCmd.onQueue k)).length < 2 ^ 64 := by
  have hlt := hfits.completed k
  rw [← hk.completed, groupSum_map] at hlt
  exact lt_of_eq_of_lt (groupSum_one (fun e : SetupCmd × UInt64 =>
    e.1.queue) h.timed k).symm hlt

/-- The counters of a queue. -/
theorem counters_queue (hsum : h.QueuesFit) (c q : Int64) :
    valueAt s.maps.opCount c.toInt q.toInt =
      (h.timedOn (SetupCmd.onQueue (c, q))).length ∧
      valueAt s.maps.latCount c.toInt q.toInt =
        (h.timedOn (SetupCmd.onQueue (c, q))).length ∧
      valueAt s.maps.latSum c.toInt q.toInt =
        h.sumOn (SetupCmd.onQueue (c, q)) := by
  have hone : groupSum (fun e => e.1.queue) (fun _ => 1) h.timed (c, q) =
      (h.timedOn (SetupCmd.onQueue (c, q))).length := groupSum_one _ _ _
  have htotal :
      groupSum (fun e => e.1.queue) (fun e => e.2.toNat) h.timed (c, q) =
      h.sumOn (SetupCmd.onQueue (c, q)) := by
    unfold History.sumOn History.latenciesOn
    rw [List.map_map]
    rfl
  have hcount : valueAt s.maps.latCount c.toInt q.toInt =
      (h.timedOn (SetupCmd.onQueue (c, q))).length := by
    rw [valueAt_eq_word,
      hk.latCount.toNat_word (hone ▸ hk.completedFit hfits _), hone]
  refine ⟨?_, hcount, ?_⟩
  · rw [hk.ledger.tallied.opCount]
    exact hcount
  · rw [valueAt_eq_word, hk.latSum.toNat_word (htotal ▸ hsum _), htotal]

/-- The buckets of a queue are a histogram of its latencies that are seen. -/
theorem isHistogram_queue (hr : h.Recorded s.maps) (o : PrintOrder)
    (c q : Int64) :
    IsHistogram (((tickHists o s.maps).get? (pairOf c q)).getD [])
      (h.seenOn (SetupCmd.onQueue (c, q))) := by
  have hrecords : Hist.Records ((s.maps.latHist.get? (c, q)).getD (fun _ => 0))
      (h.latenciesOn (SetupCmd.onQueue (c, q))) := by
    intro i
    have hle := List.countP_le_length (p := fun y : UInt64 =>
      decide (histIndex y.toInt64 = i))
      (l := h.latenciesOn (SetupCmd.onQueue (c, q)))
    have hlt := hk.completedFit hfits (c, q)
    have hlen : (h.latenciesOn (SetupCmd.onQueue (c, q))).length =
        (h.timedOn (SetupCmd.onQueue (c, q))).length := List.length_map _
    rw [hlen] at hle
    rw [hr, UInt64.toNat_ofNat', Nat.mod_eq_of_lt (lt_of_le_of_lt hle hlt)]
  have hseen : h.seenOn (SetupCmd.onQueue (c, q)) =
      inNanoseconds
        (seenLatencies (h.latenciesOn (SetupCmd.onQueue (c, q)))) := by
    unfold History.seenOn seenLatencies
    rw [History.latenciesOn, List.filter_map]
    refine congrArg (fun l =>
      inNanoseconds (List.map Prod.snd l)) (List.filter_congr fun e he => ?_)
    have hqueue : e.1.queue = (c, q) :=
      of_decide_eq_true (List.mem_filter.mp he).2
    refine decide_eq_decide.mpr ?_
    unfold History.Seen
    rw [hqueue]
    rfl
  rw [getD_tickHists, hseen]
  exact hrecords.isHistogram

end History.Kept

/-! ### The rows of a controller -/

section

variable (o : PrintOrder) {s : Collector} {h : History} (hk : h.Kept s)

/-- The rows of a controller are for queues of it. -/
theorem exists_pairOf {m : Maps} {c : Int64}
    {e : (Int × Int) × OrderedDict PyText Int}
    (he : e ∈ tickEntries o m c.toInt) : ∃ q : Int64, e.1 = pairOf c q := by
  have hkey : ∀ {d : Counters Key2}, HasKey d e.1.1 e.1.2 →
      ∃ q : Int64, e.1.2 = q.toInt := by
    intro d hd
    obtain ⟨x, hx, heq⟩ := List.mem_map.mp hd
    obtain ⟨y, -, rfl⟩ := List.mem_map.mp hx
    exact ⟨y.1.2, (Prod.mk.inj heq).2.symm⟩
  obtain ⟨hmem, hc⟩ := (mem_tickEntries o m _).mp he
  have hqid : ∃ q : Int64, e.1.2 = q.toInt := by
    have hsome :=
      (mem_keys_tickScalars o m e.1.1 e.1.2).mp (List.mem_map_of_mem hmem)
    unfold Maps.IsQueue Maps.IsProcess at hsome
    rcases hsome with (h | h | h | h | h | h) | (h | h | h | h | h | h | h) <;>
      exact hkey h
  obtain ⟨q, hq⟩ := hqid
  exact ⟨q, Prod.ext hc hq⟩

include hk

/-- A completed command has a row. -/
theorem History.Kept.mem_tickEntries {e : SetupCmd × UInt64}
    (he : e ∈ h.timed) :
    pairOf e.1.ctrl e.1.qid ∈
      (tickEntries o s.maps e.1.ctrl.toInt).map Prod.fst := by
  have hkey : e.1.queue ∈ s.maps.latCount.keys :=
    (hk.latCount.mem_keys _).mpr ⟨e, he, rfl⟩
  have hhas : HasKey s.maps.latCount e.1.ctrl.toInt e.1.qid.toInt := by
    obtain ⟨x, hx, heq⟩ := List.mem_map.mp hkey
    refine List.mem_map.mpr ⟨_, List.mem_map_of_mem hx, ?_⟩
    rw [heq]
    rfl
  have hqueue : s.maps.IsQueue e.1.ctrl.toInt e.1.qid.toInt :=
    .inr (.inr (.inr (.inr (.inr hhas))))
  obtain ⟨x, hx, heq⟩ :=
    List.mem_map.mp ((mem_keys_tickScalars o s.maps _ _).mpr (.inl hqueue))
  refine List.mem_map.mpr ⟨x,
    (Telemetryd.mem_tickEntries o s.maps _).mpr ⟨hx, ?_⟩, heq⟩
  rw [heq]

/-- **The queues of a controller add up** to the controller. -/
theorem History.Kept.sum_tickEntries {M : Type} [AddCommMonoid M]
    (value : SetupCmd × UInt64 → M) (c : Int64)
    {f : (Int × Int) × OrderedDict PyText Int → M}
    (hf : ∀ e ∈ tickEntries o s.maps c.toInt, ∀ q, e.1 = pairOf c q →
      f e = ((h.timedOn (SetupCmd.onQueue (c, q))).map value).sum) :
    ((tickEntries o s.maps c.toInt).map f).sum =
      ((h.timedOn (SetupCmd.onCtrl c)).map value).sum := by
  have hnodup : ((tickEntries o s.maps c.toInt).map Prod.fst).Nodup := by
    refine List.Nodup.of_map Prod.snd ?_
    rw [List.map_map]
    exact nodup_qids_tickEntries o s.maps c.toInt
  have hctrl : ∀ e ∈ h.timed, SetupCmd.onCtrl c e.1 = true ↔
      pairOf e.1.ctrl e.1.qid ∈
        (tickEntries o s.maps c.toInt).map Prod.fst := by
    intro e he
    constructor
    · intro hc
      obtain rfl : e.1.ctrl = c := of_decide_eq_true hc
      exact hk.mem_tickEntries o he
    · intro hmem
      obtain ⟨x, hx, heq⟩ := List.mem_map.mp hmem
      obtain ⟨q, hq⟩ := exists_pairOf o hx
      have hpair := pairOf_eq_iff.mp (heq.symm.trans hq)
      exact decide_eq_true (Prod.mk.inj hpair).1
  have hsum :=
    sum_groupSum (fun e : SetupCmd × UInt64 =>
    pairOf e.1.ctrl e.1.qid) value hnodup hctrl
  unfold History.timedOn
  rw [← hsum, List.map_map]
  refine congrArg List.sum (List.map_congr_left fun e he => ?_)
  obtain ⟨q, hq⟩ := exists_pairOf o he
  rw [hf e he q hq, Function.comp_apply, hq]
  unfold groupSum History.timedOn
  refine congrArg (fun l =>
    (List.map value l).sum) (List.filter_congr fun t _ => ?_)
  exact decide_eq_decide.mpr pairOf_eq_iff.symm

variable (hr : h.Recorded s.maps) (hfits : h.ledger.Fits) (hsum : h.QueuesFit)

include hr hfits hsum

/-- **The row of a queue.** -/
theorem History.Kept.showsTimes_queue {c q : Int64}
    {e : (Int × Int) × OrderedDict PyText Int}
    (he : e ∈ tickEntries o s.maps c.toInt) (hq : e.1 = pairOf c q) :
    (queueRow e.1.2 e.2 (((tickHists o s.maps).get? e.1).getD [])).ShowsTimes h
      (SetupCmd.onQueue (c, q)) := by
  obtain ⟨hops, hcount, htotal⟩ := hk.counters_queue hfits hsum c q
  have hcounter :=
    counter_tickScalars o s.maps
    ((Telemetryd.mem_tickEntries o s.maps _).mp he).1
  rw [hq] at hcounter ⊢
  exact showsTimes_queueRow ((hcounter _).trans hops)
    ((hcounter _).trans hcount)
    ((hcounter _).trans htotal) (hk.isHistogram_queue hfits hr o c q) _

omit hsum in
/-- The buckets of the queues, merged, are a histogram of what is seen on the
controller. -/
theorem History.Kept.isHistogram_aggregate (c : Int64) :
    IsHistogram (mergeBuckets ((tickEntries o s.maps c.toInt).map fun e =>
      ((tickHists o s.maps).get? e.1).getD []))
        (h.seenOn (SetupCmd.onCtrl c)) := by
  have hqueue :
      ∀ q : Int64,
      (fun a : SetupCmd => decide (pairOf a.ctrl a.qid = pairOf c q)) =
      SetupCmd.onQueue (c, q) :=
        fun q => funext fun a => decide_eq_decide.mpr pairOf_eq_iff
  have hpool : ((tickEntries o s.maps c.toInt).map fun e =>
      h.seenOn fun a => decide (pairOf a.ctrl a.qid = e.1)).sum =
        h.seenOn (SetupCmd.onCtrl c) := by
    rw [h.seenOn_eq_sum]
    refine hk.sum_tickEntries o _ c fun e _ q hq => ?_
    rw [hq, hqueue, h.seenOn_eq_sum]
  rw [← hpool]
  refine isHistogram_mergeBuckets ?_
  rw [List.forall₂_map_left_iff, List.forall₂_map_right_iff, List.forall₂_same]
  intro e he
  obtain ⟨q, hq⟩ := exists_pairOf o he
  rw [hq, hqueue]
  exact hk.isHistogram_queue hfits hr o c q

/-- **The row of the controller.** -/
theorem History.Kept.showsTimes_aggregate (c : Int64) :
    (queueRow (-1) (sumCounters ((tickEntries o s.maps c.toInt).map Prod.snd))
      (mergeBuckets ((tickEntries o s.maps c.toInt).map fun e =>
        ((tickHists o s.maps).get? e.1).getD []))).ShowsTimes h
          (SetupCmd.onCtrl c) := by
  have hcounter : ∀ {name : PyText} {value : SetupCmd × UInt64 → Int},
      (∀ e ∈ tickEntries o s.maps c.toInt, ∀ q, e.1 = pairOf c q →
        counter e.2 name =
          ((h.timedOn (SetupCmd.onQueue (c, q))).map value).sum) →
      counter (sumCounters ((tickEntries o s.maps c.toInt).map Prod.snd)) name =
        ((h.timedOn (SetupCmd.onCtrl c)).map value).sum := by
    intro name value hvalue
    rw [counter_sumCounters, List.map_map]
    exact hk.sum_tickEntries o value c hvalue
  have hqueue : ∀ e ∈ tickEntries o s.maps c.toInt, ∀ q, e.1 = pairOf c q →
      counter e.2 "op_count".toList =
        (h.timedOn (SetupCmd.onQueue (c, q))).length ∧
        counter e.2 "lat_count".toList =
          (h.timedOn (SetupCmd.onQueue (c, q))).length ∧
        counter e.2 "lat_sum".toList = h.sumOn (SetupCmd.onQueue (c, q)) := by
    intro e he q hq
    obtain ⟨hops, hcount, htotal⟩ := hk.counters_queue hfits hsum c q
    have hlook :=
      counter_tickScalars o s.maps
      ((Telemetryd.mem_tickEntries o s.maps _).mp he).1
    rw [hq] at hlook
    exact ⟨(hlook _).trans hops, (hlook _).trans hcount, (hlook _).trans htotal⟩
  have hlength : ∀ p, ((h.timedOn p).map fun _ => (1 : Int)).sum =
    (h.timedOn p).length := fun p => by simp
  have htotal : ∀ p, ((h.timedOn p).map fun e => (e.2.toNat : Int)).sum =
      h.sumOn p := by
    intro p
    unfold History.sumOn History.latenciesOn
    rw [List.map_map, Nat.cast_list_sum, List.map_map]
    rfl
  refine showsTimes_queueRow ?_ ?_ ?_ (hk.isHistogram_aggregate o hr hfits c) _
  · rw [← hlength]
    exact hcounter fun e he q hq =>
      ((hqueue e he q hq).1).trans (hlength _).symm
  · rw [← hlength]
    exact hcounter fun e he q hq =>
      ((hqueue e he q hq).2.1).trans (hlength _).symm
  · rw [← htotal]
    exact hcounter fun e he q hq =>
      ((hqueue e he q hq).2.2).trans (htotal _).symm

end

/-! ### Whole runs -/

section

variable [UnicodeDb] (o : PrintOrder)

/-- **The rows of a second.**  Each row shows the latencies of its queue, the
row of the controller those of all its queues, and every queue that completed a
command has one. -/
theorem KilledRun.LastTick.queue_rows {r : KilledRun} (hr : r.Harmless)
    {before : List Probe} {rest : Bytes}
    (hlast : r.LastTick o before rest) (htimed : ∀ p ∈ r.probes, p.Timed)
    (hfits : (Ledger.after before).Fits)
    (hsum : (History.after before).QueuesFit) (c : Int64) :
    ∃ rows aggregate, readLatestPerformance (some (r.bytes o)) c.toInt =
      .ok (rows, aggregate) ∧
      (∀ row ∈ rows, ∃ q : Int64, row.qid = q.toInt ∧
        row.ShowsTimes (History.after before) (SetupCmd.onQueue (c, q))) ∧
      (∀ row ∈ aggregate,
        row.ShowsTimes (History.after before) (SetupCmd.onCtrl c)) ∧
      ∀ e ∈ (History.after before).timed, e.1.ctrl = c →
        aggregate.isSome ∧ ∃ row ∈ rows, row.qid = e.1.qid.toInt := by
  obtain ⟨after, hprobes⟩ := hlast.probes
  have htimed : ∀ p ∈ before, p.Timed := by
    intro p hp
    refine htimed p ?_
    rw [hprobes]
    exact List.mem_append_left _ hp
  have hkept := History.kept_run o htimed
  have hrecorded := History.recorded_run o htimed
  rw [← History.ledger_after] at hfits
  refine ⟨_, _,
    readLatestPerformance_of_parsed o _ (hlast.parse_hists o hr) c.toInt,
    ?_, ?_, ?_⟩
  · intro row hrow
    obtain ⟨e, he, rfl⟩ := List.mem_map.mp hrow
    obtain ⟨q, hq⟩ := exists_pairOf o he
    refine ⟨q, ?_, hkept.showsTimes_queue o hrecorded hfits hsum he hq⟩
    show e.1.2 = q.toInt
    rw [hq]
    rfl
  · intro row hrow
    unfold aggregateRow at hrow
    split at hrow
    case isTrue => cases hrow
    case isFalse =>
      obtain rfl := Option.some.inj hrow
      exact hkept.showsTimes_aggregate o hrecorded hfits hsum c
  · rintro e he rfl
    obtain ⟨x, hx, heq⟩ := List.mem_map.mp (hkept.mem_tickEntries o he)
    have hrow : queueRow x.1.2 x.2
        (((tickHists o (Collector.run o {} before).maps).get? x.1).getD []) ∈
        queueRows o (Collector.run o {} before).maps e.1.ctrl.toInt
          fun k => ((tickHists o (Collector.run o {} before).maps).get? k).getD
            [] :=
      List.mem_map.mpr ⟨x, hx, rfl⟩
    refine ⟨?_, _, hrow, ?_⟩
    · unfold aggregateRow
      rw [if_neg (List.ne_nil_of_mem hrow)]
      rfl
    · show x.1.2 = _
      rw [heq]
      rfl

end

section

attribute [local instance] UnicodeDb.ascii

/-- A latency of two microseconds is between the percentile and its half. -/
theorem queue_rows_streamedReads : ∃ rows aggregate,
    readLatestPerformance
      (some ((wholeRun .inserted (streamedReads ++ [.interval])).bytes
      .inserted)) 0
      = .ok (rows, aggregate) ∧
    ∃ row ∈ rows, row.iops = 1 ∧ row.p99LatencyUs / 2 ≤ 2 ∧
      2 < row.p99LatencyUs := by
  have hall := harmless_streamedReads
  obtain ⟨rows, aggregate, hrows, hqueues, -, hsome⟩ :=
    KilledRun.LastTick.queue_rows .inserted
    (fun p hp => (hall p hp).1)
    (lastTick_wholeRun .inserted streamedReads fun p hp =>
      absurd hp List.not_mem_nil)
    (fun p hp => (hall p hp).2) (Ledger.fits_of_few (by decide) (by decide))
    (History.queuesFit_of_sum (by decide)) 0
  refine ⟨rows, aggregate, hrows, ?_⟩
  obtain ⟨-, row, hrow, hqid⟩ := hsome _ List.mem_cons_self rfl
  obtain ⟨q, hq, hshows⟩ := hqueues row hrow
  obtain rfl : q = 1 := Int64.toInt_inj.mp (hq.symm.trans hqid)
  have hops : ((History.after streamedReads).timedOn
    (SetupCmd.onQueue (0, 1))).length = 1 := by decide
  have hseen : (History.after streamedReads).seenOn (SetupCmd.onQueue (0, 1)) =
    {2000} := by decide
  have hplace := hshows.p99
  unfold ShowsPlace at hplace
  rw [hseen, if_neg (Multiset.singleton_ne_zero _)] at hplace
  obtain ⟨x, ⟨-, hx⟩, hlow, hhigh⟩ := hplace
  have hmem : x = 2000 :=
    Multiset.mem_singleton.mp
    ((Multiset.mem_sort _).mp (List.mem_of_getElem? hx))
  rw [hmem] at hlow hhigh
  norm_num at hlow hhigh
  exact ⟨row, hrow, by rw [hshows.iops, hops, Nat.cast_one], hlow, hhigh⟩

end

end Telemetryd
