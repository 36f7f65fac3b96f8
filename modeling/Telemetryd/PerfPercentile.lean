import Mathlib.Algebra.BigOperators.Ring.Finset
import Mathlib.Data.Int.ConditionallyCompleteOrder
import Telemetryd.Lib.Quantile
import Telemetryd.PerfRows

/-!
# Percentiles of the queues and of all of them

`_percentile_ns` goes through the buckets in their order until the count reaches
the part that is asked for.  The bucket it stops at should be the one of the
order statistic, for a queue and for the pooled buckets of `_merge_buckets`.
The other numbers of the aggregate row are sums, and its average latency should
be the mean of the averages of the queues.
-/

namespace Telemetryd

open PyText Regex Quantile

/-! ### Going through the buckets -/

/-- The lower bounds of the buckets. -/
def powersOfTwo (k : Nat) : Int := 2 ^ k

theorem strictMono_powersOfTwo : StrictMono powersOfTwo :=
  pow_right_strictMono₀ (by norm_num)

/-- A bucket of `hist()`: from one power of two to the next. -/
def IsLog2 (b : Bucket) : Prop :=
  ∃ k, b.1 = powersOfTwo k ∧ b.2.1 = powersOfTwo (k + 1)

/-- The buckets are a histogram of some latencies. -/
structure IsHistogram (buckets : List Bucket) (latencies : Multiset Int) :
    Prop where
  log2 : ∀ b ∈ buckets, IsLog2 b
  counted : Counted buckets latencies

/-- **Where the scan stops**: the count reaches the target in that bucket, and
not before. -/
theorem reach_spec {target : ℚ} {buckets : List Bucket} {cum : Int}
    (hbefore : (cum : ℚ) < target)
    (hafter : target ≤ (cum + (buckets.map (fun b => b.2.2)).sum : Int)) :
    ∃ pre b post, buckets = pre ++ b :: post ∧
      reach target cum buckets = some b.2.1 ∧
      ((cum + (pre.map (fun b => b.2.2)).sum : Int) : ℚ) < target ∧
      target ≤ (cum + (pre.map (fun b => b.2.2)).sum + b.2.2 : Int) := by
  induction buckets generalizing cum with
  | nil =>
      rw [List.map_nil, List.sum_nil, add_zero] at hafter
      exact absurd hbefore (not_lt.mpr hafter)
  | cons b buckets ih =>
      obtain ⟨lo, hi, count⟩ := b
      rw [List.map_cons, List.sum_cons, ← add_assoc] at hafter
      by_cases hstop : target ≤ (cum + count : Int)
      · refine ⟨[], (lo, hi, count), buckets, rfl, ?_, ?_, ?_⟩
        · rw [reach, if_pos hstop]
        · simpa using hbefore
        · simpa using hstop
      · obtain ⟨pre, b, post, rfl, hreach, hlow, hhigh⟩ :=
          ih (not_le.mp hstop) hafter
        refine ⟨(lo, hi, count) :: pre, b, post, rfl, ?_, ?_, ?_⟩
        · rw [reach, if_neg hstop, hreach]
        · rw [List.map_cons, List.sum_cons, ← add_assoc]
          exact hlow
        · rw [List.map_cons, List.sum_cons, ← add_assoc]
          exact hhigh

/-- **The percentile is the upper bound of its cell.** -/
theorem percentileNs_inCell {buckets : List Bucket} {latencies : Multiset Int}
    (h : IsHistogram buckets latencies) (hne : 0 < latencies.card) {p : ℚ}
    (hp : 0 < p)
    (hp1 : p ≤ 1) : ∃ k, percentileNs buckets p = (powersOfTwo (k + 1) : ℚ) ∧
      InCell powersOfTwo latencies p k := by
  set sorted := buckets.insertionSort (fun a b => a.1 ≤ b.1) with hsorted
  have hperm : sorted.Perm buckets := List.perm_insertionSort _ _
  have hcounted : Counted sorted latencies := h.counted.perm hperm.symm
  have hcard : (0 : ℚ) < latencies.card := Nat.cast_pos.mpr hne
  have htotal : (buckets.map (fun b => b.2.2)).sum = (latencies.card : Int) :=
    h.counted.total
  have hafter : p * latencies.card
      ≤ ((0 : Int) + (sorted.map (fun b => b.2.2)).sum : Int) := by
    rw [hcounted.total, zero_add, Int.cast_natCast]
    exact mul_le_of_le_one_left hcard.le hp1
  obtain ⟨pre, b, post, hsplit, hreach, hlow, hhigh⟩ :=
    reach_spec (by simpa using mul_pos hp hcard) hafter
  have hlog2 : ∀ b ∈ sorted, IsLog2 b :=
    fun b hb => h.log2 b (hperm.mem_iff.mp hb)
  obtain ⟨k, hlo, hhi⟩ := hlog2 b (by rw [hsplit]; simp)
  have hpairs : sorted.Pairwise (fun a b => a.1 ≤ b.1) := by
    have : Std.Total (fun a b : Bucket => a.1 ≤ b.1) :=
      ⟨fun a b => le_total _ _⟩
    have : IsTrans Bucket (fun a b => a.1 ≤ b.1) := ⟨fun _ _ _ => le_trans⟩
    exact List.pairwise_insertionSort _ _
  rw [hsplit] at hpairs hcounted
  obtain ⟨-, hrest, hcross⟩ := List.pairwise_append.mp hpairs
  refine ⟨k, ?_, ?_⟩
  · unfold percentileNs
    rw [htotal, if_neg (by exact_mod_cast hne.ne'), ← hsorted, Int.cast_natCast]
    dsimp only
    rw [hreach, hhi]
  · have hb : b = (powersOfTwo k, powersOfTwo (k + 1), b.2.2) := by
      rw [← hlo, ← hhi]
    rw [hb] at hcounted
    rw [zero_add] at hlow hhigh
    refine hcounted.inCell strictMono_powersOfTwo (fun c hc => ?_) (fun c hc =>
      ?_) (fun c hc => ?_)
      hlow hhigh
    · exact hlog2 c (by rw [hsplit]; exact List.mem_append_left _ hc)
    · exact hlo ▸ hcross c hc b List.mem_cons_self
    · exact hlo ▸ (List.pairwise_cons.mp hrest).1 c hc

/-! ### Pooling the buckets -/

/-- The buckets of a dictionary. -/
def bucketsOf (merged : OrderedDict (Int × Int) Int) : List Bucket :=
  merged.items.map (fun e => (e.1.1, e.1.2, e.2))

/-- Adding a bucket to the dictionary. -/
def addBucket (merged : OrderedDict (Int × Int) Int) (b : Bucket) :
    OrderedDict (Int × Int) Int :=
  merged.insert (b.1, b.2.1) ((merged.get? (b.1, b.2.1)).getD 0 + b.2.2)

theorem mergeBuckets_eq (bucketLists : List (List Bucket)) :
    mergeBuckets bucketLists =
      bucketsOf (bucketLists.flatten.foldl addBucket .empty) := rfl

/-- A bucket that is added is counted with the others. -/
theorem counted_addBucket {merged : OrderedDict (Int × Int) Int} {b : Bucket}
    {xs ys : Multiset Int} (h : Counted (bucketsOf merged) xs)
    (hb : Counted [b] ys) :
    Counted (bucketsOf (addBucket merged b)) (xs + ys) := by
  obtain ⟨lo, hi, n⟩ := b
  cases hget : merged.get? (lo, hi) with
  | none =>
      have hitems : bucketsOf (addBucket merged (lo, hi, n)) =
          bucketsOf merged ++ [(lo, hi, n)] := by
        unfold bucketsOf addBucket
        rw [OrderedDict.items_insert_of_notMem
          (OrderedDict.get?_eq_none_iff.mp hget), hget,
          List.map_append, Option.getD_none, zero_add]
        rfl
      rw [hitems]
      exact h.append hb
  | some old =>
      obtain ⟨rest, hold, hnew⟩ := OrderedDict.perm_insert hget (old + n)
      have hbefore :
          (bucketsOf merged).Perm ((lo, hi, old) ::
          rest.map (fun e => (e.1.1, e.1.2, e.2))) :=
        hold.map _
      have hafter : (bucketsOf (addBucket merged (lo, hi, n))).Perm
          ((lo, hi, old + n) :: rest.map (fun e => (e.1.1, e.1.2, e.2))) := by
        unfold bucketsOf addBucket
        rw [hget, Option.getD_some]
        exact hnew.map _
      have hboth :
          Counted ((lo, hi, n) :: (lo, hi, old) ::
          rest.map (fun e => (e.1.1, e.1.2, e.2)))
          (ys + xs) := hb.append (h.perm hbefore)
      rw [add_comm ys xs] at hboth
      exact ((hboth.perm (List.Perm.swap _ _ _)).merge).perm hafter.symm

theorem isLog2_addBucket {merged : OrderedDict (Int × Int) Int} {b : Bucket}
    (h : ∀ c ∈ bucketsOf merged, IsLog2 c) (hb : IsLog2 b) :
    ∀ c ∈ bucketsOf (addBucket merged b), IsLog2 c := by
  intro c hc
  obtain ⟨e, he, rfl⟩ := List.mem_map.mp hc
  have hkey : e.1 ∈ (addBucket merged b).keys := List.mem_map_of_mem he
  rcases OrderedDict.mem_keys_insert.mp hkey with hnew | hold
  · obtain ⟨k, hlo, hhi⟩ := hb
    exact ⟨k, by rw [hnew]; exact hlo, by rw [hnew]; exact hhi⟩
  · obtain ⟨e', he', heq⟩ := List.mem_map.mp hold
    obtain ⟨k, hlo, hhi⟩ := h _ (List.mem_map_of_mem he')
    exact ⟨k, by rw [← heq]; exact hlo, by rw [← heq]; exact hhi⟩

/-- Adding the buckets one by one. -/
theorem isHistogram_foldl {buckets : List Bucket}
    {merged : OrderedDict (Int × Int) Int}
    {xs ys : Multiset Int} (h : IsHistogram (bucketsOf merged) xs)
    (hb : IsHistogram buckets ys) :
    IsHistogram (bucketsOf (buckets.foldl addBucket merged)) (xs + ys) := by
  induction buckets generalizing merged xs ys with
  | nil =>
      cases hb.counted
      rwa [add_zero]
  | cons b buckets ih =>
      obtain ⟨hfirst, hlog2⟩ := List.forall_mem_cons.mp hb.log2
      obtain ⟨us, vs, hus, hvs, rfl⟩ := Counted.of_append (l := [b]) hb.counted
      rw [List.foldl_cons, ← add_assoc]
      exact ih ⟨isLog2_addBucket h.log2 hfirst,
        counted_addBucket h.counted hus⟩ ⟨hlog2, hvs⟩

theorem isLog2_flatten {queues : List (List Bucket)}
    {latencies : List (Multiset Int)}
    (h : List.Forall₂ IsHistogram queues latencies) :
    ∀ b ∈ queues.flatten, IsLog2 b := by
  induction h with
  | nil => exact List.forall_mem_nil _
  | cons hq _ ih =>
      intro b hb
      rcases List.mem_append.mp hb with hb | hb
      · exact hq.log2 b hb
      · exact ih b hb

/-- Buckets that are merged stay a histogram. -/
theorem isHistogram_merge {queues : List (List Bucket)}
    {latencies : Multiset Int}
    (h : IsHistogram queues.flatten latencies) :
    IsHistogram (mergeBuckets queues) latencies := by
  rw [mergeBuckets_eq, ← zero_add latencies]
  exact isHistogram_foldl ⟨List.forall_mem_nil _, Counted.nil⟩ h

/-- The buckets of the queues, one after the other, are a histogram of all
latencies. -/
theorem isHistogram_flatten {queues : List (List Bucket)}
    {latencies : List (Multiset Int)}
    (h : List.Forall₂ IsHistogram queues latencies) :
    IsHistogram queues.flatten latencies.sum :=
  ⟨isLog2_flatten h, Counted.flatten (h.imp fun _ _ hq => hq.counted)⟩

/-- **The merged buckets are the histogram of the pooled latencies.** -/
theorem isHistogram_mergeBuckets {queues : List (List Bucket)}
    {latencies : List (Multiset Int)}
    (h : List.Forall₂ IsHistogram queues latencies) :
    IsHistogram (mergeBuckets queues) latencies.sum :=
  isHistogram_merge (isHistogram_flatten h)

/-! ### Laws of the percentiles -/

/-- What holds of the percentiles of a histogram. -/
structure PercentileLaws (buckets : List Bucket) (latencies : Multiset Int) :
    Prop where
  orderStatistic : ∀ p : ℚ, 0 < p → p ≤ 1 →
    ∃ x, IsNth latencies ⌈p * latencies.card⌉₊ x ∧
    percentileNs buckets p / 2 ≤ x ∧ (x : ℚ) < percentileNs buckets p
  monotone : ∀ p q : ℚ, 0 < p → p ≤ q → q ≤ 1 →
    percentileNs buckets p ≤ percentileNs buckets q
  reordered : ∀ buckets' : List Bucket, buckets'.Perm buckets →
    ∀ p : ℚ, 0 < p → p ≤ 1 →
    percentileNs buckets' p = percentileNs buckets p

/-- Histograms of the same latencies have the same percentiles. -/
theorem percentileNs_unique {buckets buckets' : List Bucket}
    {latencies : Multiset Int}
    (h : IsHistogram buckets latencies) (h' : IsHistogram buckets' latencies)
    (hne : 0 < latencies.card) {p : ℚ} (hp : 0 < p) (hp1 : p ≤ 1) :
    percentileNs buckets p = percentileNs buckets' p := by
  obtain ⟨k, hk, hcell⟩ := percentileNs_inCell h hne hp hp1
  obtain ⟨j, hj, hcell'⟩ := percentileNs_inCell h' hne hp hp1
  rw [hk, hj, hcell.unique strictMono_powersOfTwo.monotone hcell']

theorem percentileLaws {buckets : List Bucket} {latencies : Multiset Int}
    (h : IsHistogram buckets latencies) (hne : 0 < latencies.card) :
    PercentileLaws buckets latencies where
  orderStatistic p hp hp1 := by
    obtain ⟨k, hk, hcell⟩ := percentileNs_inCell h hne hp hp1
    obtain ⟨x, hx⟩ := exists_nth_part hp hp1 hne
    obtain ⟨hlow, hhigh⟩ := hcell.nth hx
    have hhalf : (powersOfTwo (k + 1) : ℚ) / 2 = powersOfTwo k := by
      unfold powersOfTwo
      rw [pow_succ, Int.cast_mul, Int.cast_ofNat,
        mul_div_cancel_right₀ _ (by norm_num)]
    rw [hk, hhalf]
    exact ⟨x, hx, by exact_mod_cast hlow, by exact_mod_cast hhigh⟩
  monotone p q hp hpq hq1 := by
    obtain ⟨k, hk, hcell⟩ := percentileNs_inCell h hne hp (hpq.trans hq1)
    obtain ⟨j, hj, hcell'⟩ := percentileNs_inCell h hne (hp.trans_le hpq) hq1
    have hle := hcell.le strictMono_powersOfTwo.monotone hcell' hpq
    rw [hk, hj]
    exact_mod_cast strictMono_powersOfTwo.monotone (Nat.add_le_add_right hle 1)
  reordered buckets' hperm p hp hp1 := by
    have h' : IsHistogram buckets' latencies :=
      ⟨fun b hb => h.log2 b (hperm.mem_iff.mp hb), h.counted.perm hperm.symm⟩
    exact percentileNs_unique h' h hne hp hp1

/-- What holds of the percentiles of merged buckets: they are those of the
pooled latencies, whatever the order, and lie between those of the queues. -/
structure PooledLaws (queues : List (List Bucket))
    (latencies : List (Multiset Int)) : Prop where
  laws : PercentileLaws (mergeBuckets queues) latencies.sum
  pooled : ∀ buckets : List Bucket, IsHistogram buckets latencies.sum →
    ∀ p : ℚ, 0 < p → p ≤ 1 →
    percentileNs (mergeBuckets queues) p = percentileNs buckets p
  reordered : ∀ queues' : List (List Bucket),
    queues'.flatten.Perm queues.flatten →
    ∀ p : ℚ, 0 < p → p ≤ 1 → percentileNs (mergeBuckets queues') p =
      percentileNs (mergeBuckets queues) p
  aboveSmallest : ∀ p : ℚ, 0 < p → p ≤ 1 → ∃ q ∈ queues.zip latencies,
    0 < q.2.card ∧
    percentileNs q.1 p ≤ percentileNs (mergeBuckets queues) p
  belowLargest : ∀ p : ℚ, 0 < p → p ≤ 1 → ∃ q ∈ queues.zip latencies,
    0 < q.2.card ∧
    percentileNs (mergeBuckets queues) p ≤ percentileNs q.1 p

/-- The histogram of the latencies of a queue. -/
theorem exists_zip_left {queues : List (List Bucket)}
    {latencies : List (Multiset Int)}
    (h : List.Forall₂ IsHistogram queues latencies) {xs : Multiset Int}
    (hxs : xs ∈ latencies) :
    ∃ buckets, (buckets, xs) ∈ queues.zip latencies ∧
      IsHistogram buckets xs := by
  induction h with
  | nil => cases hxs
  | cons hq _ ih =>
      rcases List.mem_cons.mp hxs with rfl | hxs
      · exact ⟨_, List.mem_cons_self, hq⟩
      · obtain ⟨buckets, hmem, hb⟩ := ih hxs
        exact ⟨buckets, List.mem_cons_of_mem _ hmem, hb⟩

/-- The merged percentile has those of two queues on its sides. -/
theorem percentileNs_between {queues : List (List Bucket)}
    {latencies : List (Multiset Int)}
    (h : List.Forall₂ IsHistogram queues latencies)
    (hne : 0 < latencies.sum.card) {p : ℚ}
    (hp : 0 < p) (hp1 : p ≤ 1) :
    (∃ q ∈ queues.zip latencies, 0 < q.2.card ∧
      percentileNs q.1 p ≤ percentileNs (mergeBuckets queues) p) ∧
    ∃ q ∈ queues.zip latencies, 0 < q.2.card ∧
      percentileNs (mergeBuckets queues) p ≤ percentileNs q.1 p := by
  have hmono : Monotone powersOfTwo := strictMono_powersOfTwo.monotone
  obtain ⟨k, hk, hcell⟩ :=
    percentileNs_inCell (isHistogram_mergeBuckets h) hne hp hp1
  have hcells : ∀ xs ∈ latencies, 0 < xs.card →
      ∃ j, InCell powersOfTwo xs p j := by
    intro xs hxs hpos
    obtain ⟨buckets, -, hb⟩ := exists_zip_left h hxs
    obtain ⟨j, -, hj⟩ := percentileNs_inCell hb hpos hp hp1
    exact ⟨j, hj⟩
  have hqueue : ∀ xs ∈ latencies, ∀ j, InCell powersOfTwo xs p j →
      ∃ q ∈ queues.zip latencies,
      0 < q.2.card ∧ percentileNs q.1 p = (powersOfTwo (j + 1) : ℚ) := by
    intro xs hxs j hj
    obtain ⟨buckets, hmem, hb⟩ := exists_zip_left h hxs
    obtain ⟨i, hi, hi'⟩ := percentileNs_inCell hb hj.card_pos hp hp1
    rw [hi'.unique hmono hj] at hi
    exact ⟨(buckets, xs), hmem, hj.card_pos, hi⟩
  have hcast : ∀ {i j : Nat}, i ≤ j →
      (powersOfTwo (i + 1) : ℚ) ≤ powersOfTwo (j + 1) := fun hij =>
    Int.cast_le.mpr (hmono (Nat.add_le_add_right hij 1))
  obtain ⟨⟨xs, hxs, j, hj, hjk⟩, ys, hys, i, hi, hki⟩ :=
    hcell.pooled hmono hcells
  rw [hk]
  constructor
  · obtain ⟨q, hq, hpos, heq⟩ := hqueue xs hxs j hj
    exact ⟨q, hq, hpos, heq ▸ hcast hjk⟩
  · obtain ⟨q, hq, hpos, heq⟩ := hqueue ys hys i hi
    exact ⟨q, hq, hpos, heq ▸ hcast hki⟩

theorem pooledLaws {queues : List (List Bucket)}
    {latencies : List (Multiset Int)}
    (h : List.Forall₂ IsHistogram queues latencies)
    (hne : 0 < latencies.sum.card) :
    PooledLaws queues latencies where
  laws := percentileLaws (isHistogram_mergeBuckets h) hne
  pooled _ hb _ hp hp1 :=
    percentileNs_unique (isHistogram_mergeBuckets h) hb hne hp hp1
  reordered queues' hperm p hp hp1 := by
    have hflat := isHistogram_flatten h
    have hflat' : IsHistogram queues'.flatten latencies.sum :=
      ⟨fun b hb => hflat.log2 b (hperm.mem_iff.mp hb),
        hflat.counted.perm hperm.symm⟩
    exact percentileNs_unique (isHistogram_merge hflat')
      (isHistogram_mergeBuckets h) hne hp hp1
  aboveSmallest _ hp hp1 := (percentileNs_between h hne hp hp1).1
  belowLargest _ hp hp1 := (percentileNs_between h hne hp hp1).2

/-! ### The aggregate row -/

/-- The counters that were read are natural numbers. -/
def Parsed.Natural (s : Parsed) : Prop :=
  ∀ e ∈ s.scalars.items, ∀ c ∈ e.2.items, 0 ≤ c.2

section

variable [UnicodeDb]

/-- The value of a counter is a row of digits. -/
theorem digits_of_scalarRe {t : PyText} {groups : List PyText}
    (h : match? scalarRe t = some groups) :
    ∃ name k1 k2 value, groups = [name, k1, k2, value] ∧
      ∀ c ∈ value, isDecimal c = true := by
  have hmatch :
      match? ([text ['@'], group [.many 1 isWord], text ['['], intGroup,
      text [','],
      skip (.many 0 isSpace), intGroup, text [']', ':'],
      skip (.many 0 isSpace)] ++
      numGroup :: endOfLine) t = some groups := h
  obtain ⟨front, value, rfl, hfront, hvalue⟩ := digits_of_lastGroup hmatch rfl
  obtain ⟨name, k1, k2, rfl⟩ := List.length_eq_three.mp hfront
  exact ⟨name, k1, k2, value, rfl, hvalue⟩

theorem natural_addScalar {s s' : Parsed} (hs : s.Natural) {t : PyText}
    {groups : List PyText}
    (hmatch : match? scalarRe t = some groups)
    (h : s.addScalar groups = .ok s') : s'.Natural := by
  obtain ⟨name, k1, k2, value, rfl, hvalue⟩ := digits_of_scalarRe hmatch
  obtain ⟨i, -, h⟩ := Fallible.bind_eq_ok.mp h
  obtain ⟨j, -, h⟩ := Fallible.bind_eq_ok.mp h
  obtain ⟨v, hv, h⟩ := Fallible.bind_eq_ok.mp h
  have hnonneg : 0 ≤ v := pyInt_nonneg hvalue hv
  have hold : ∀ c ∈ ((s.scalars.get? (i, j)).getD .empty).items, 0 ≤ c.2 := by
    cases hget : s.scalars.get? (i, j) with
    | none => exact List.forall_mem_nil _
    | some counters => exact hs _ (OrderedDict.get?_eq_some_iff.mp hget)
  cases h
  intro e he c hc
  have hentry := OrderedDict.get?_insert s.scalars (i, j) e.1
    ((((s.scalars.get? (i, j)).getD .empty).insert name v))
  rw [OrderedDict.get?_eq_some_iff.mpr (show (e.1, e.2) ∈ _ from he)] at hentry
  split at hentry
  · rw [Option.some.inj hentry] at hc
    have hvalue :=
      OrderedDict.get?_insert ((s.scalars.get? (i, j)).getD .empty) name c.1 v
    rw [OrderedDict.get?_eq_some_iff.mpr (show (c.1, c.2) ∈ _ from hc)]
      at hvalue
    split at hvalue
    · rw [Option.some.inj hvalue]
      exact hnonneg
    · exact hold c (OrderedDict.get?_eq_some_iff.mp hvalue.symm)
  · exact hs e (OrderedDict.get?_eq_some_iff.mp hentry.symm) c hc

/-- **What is read of a segment are natural numbers.** -/
theorem natural_parseFrom {lines : List PyText} {s s' : Parsed} {skip : Nat}
    (hs : s.Natural)
    (h : parseFrom s skip lines = .ok s') : s'.Natural := by
  induction lines generalizing s skip with
  | nil =>
      cases skip <;> (cases h; exact hs)
  | cons line lines ih =>
      cases skip with
      | succ skip => exact ih hs h
      | zero =>
          unfold parseFrom at h
          split at h
          case h_1 groups hmatch =>
            obtain ⟨next, hnext, h⟩ := Fallible.bind_eq_ok.mp h
            exact ih (natural_addScalar hs hmatch hnext) h
          case h_2 =>
            split at h
            case h_1 groups hmatch =>
              obtain ⟨next, hnext, h⟩ := Fallible.bind_eq_ok.mp h
              have hsame : next.scalars = s.scalars := by
                unfold Parsed.addHist at hnext
                split at hnext
                · obtain ⟨i, -, hnext⟩ := Fallible.bind_eq_ok.mp hnext
                  obtain ⟨j, -, hnext⟩ := Fallible.bind_eq_ok.mp hnext
                  obtain ⟨rows, -, hnext⟩ := Fallible.bind_eq_ok.mp hnext
                  cases hnext
                  rfl
                · cases hnext
                  rfl
              refine ih ?_ h
              unfold Parsed.Natural
              rw [hsame]
              exact hs
            case h_2 => exact ih hs h

theorem natural_parseLastCompleteTick {t : PyText} {s : Parsed}
    (h : parseLastCompleteTick t = .ok s) : s.Natural := by
  have hempty : Parsed.Natural {} := List.forall_mem_nil _
  unfold parseLastCompleteTick at h
  split at h
  · exact natural_parseFrom hempty h
  · cases h
    exact hempty

end

/-- The aggregate row of some queues: its counters are the sums of theirs, its
average latency is the mean of theirs, each weighted with the number of its
latencies, and its percentiles are those of the merged buckets. -/
structure AggregateOf (entries : List ((Int × Int) × OrderedDict PyText Int))
    (buckets : Int × Int → List Bucket) (rows : List QueuePerf)
    (aggregate : QueuePerf) : Prop where
  iops : aggregate.iops = (rows.map QueuePerf.iops).sum
  readIops : aggregate.readIops = (rows.map QueuePerf.readIops).sum
  writeIops : aggregate.writeIops = (rows.map QueuePerf.writeIops).sum
  bandwidth : aggregate.bandwidthBytesPerSec =
    (rows.map QueuePerf.bandwidthBytesPerSec).sum
  avgLatency : aggregate.avgLatencyUs
    = ((entries.zip rows).map
        (fun e => (counter e.1.2 "lat_count".toList : ℚ) *
          e.2.avgLatencyUs)).sum
      / ((entries.map (fun e => counter e.2 "lat_count".toList)).sum : Int)
  percentiles :
    ∀ merged, merged = mergeBuckets (entries.map (fun e => buckets e.1)) →
    aggregate.p50LatencyUs = percentileNs merged (1 / 2) / 1000 ∧
    aggregate.p95LatencyUs = percentileNs merged (95 / 100) / 1000 ∧
    aggregate.p99LatencyUs = percentileNs merged (99 / 100) / 1000 ∧
    aggregate.p999LatencyUs = percentileNs merged (999 / 1000) / 1000

theorem cast_sum_counter (cs : List (OrderedDict PyText Int)) (name : PyText) :
    (counter (sumCounters cs) name : ℚ) =
      (cs.map (fun c => (counter c name : ℚ))).sum := by
  rw [counter_sumCounters, Int.cast_list_sum, List.map_map]
  rfl

/-- A queue without latencies has no sum of them. -/
def LatenciesCounted (counters : OrderedDict PyText Int) : Prop :=
  counter counters "lat_count".toList = 0 →
    counter counters "lat_sum".toList = 0

instance (counters : OrderedDict PyText Int) :
    Decidable (LatenciesCounted counters) :=
  inferInstanceAs (Decidable (_ → _))

/-- An average times its number is the sum. -/
theorem count_mul_avg {latSum latCount : Int} (h : latCount = 0 → latSum = 0) :
    (latCount : ℚ) *
    ((if latCount = 0 then 0 else (latSum : ℚ) / latCount) / 1000)
      = (latSum : ℚ) / 1000 := by
  by_cases hzero : latCount = 0
  · simp [hzero, h hzero]
  · have hne : (latCount : ℚ) ≠ 0 := Int.cast_ne_zero.mpr hzero
    rw [if_neg hzero]
    field_simp

/-- The sum over the number is the average. -/
theorem avg_eq_div (latSum latCount : Int) :
    (if latCount = 0 then 0 else (latSum : ℚ) / latCount) / 1000 =
      (latSum : ℚ) / 1000 / latCount := by
  by_cases hzero : latCount = 0
  · simp [hzero]
  · rw [if_neg hzero, div_right_comm]

/-- **The row of the sums is the aggregate of the rows.** -/
theorem aggregateOf_queueRow
    {entries : List ((Int × Int) × OrderedDict PyText Int)}
    (buckets : Int × Int → List Bucket)
    (hlat : ∀ e ∈ entries, LatenciesCounted e.2) :
    AggregateOf entries buckets (entries.map (fun e =>
      queueRow e.1.2 e.2 (buckets e.1)))
      (queueRow (-1) (sumCounters (entries.map Prod.snd))
        (mergeBuckets (entries.map (fun e => buckets e.1)))) where
  iops := by
    rw [List.map_map]
    exact (cast_sum_counter _ _).trans (by rw [List.map_map]; rfl)
  readIops := by
    rw [List.map_map]
    exact (cast_sum_counter _ _).trans (by rw [List.map_map]; rfl)
  writeIops := by
    rw [List.map_map]
    exact (cast_sum_counter _ _).trans (by rw [List.map_map]; rfl)
  bandwidth := by
    rw [List.map_map]
    exact (cast_sum_counter _ _).trans (by rw [List.map_map]; rfl)
  avgLatency := by
    have hparts :
        ((entries.zip (entries.map (fun e =>
        queueRow e.1.2 e.2 (buckets e.1)))).map
        (fun e => (counter e.1.2 "lat_count".toList : ℚ) *
          e.2.avgLatencyUs)).sum
        = (counter (sumCounters (entries.map Prod.snd)) "lat_sum".toList : ℚ) /
          1000 := by
      rw [cast_sum_counter, List.map_map]
      induction entries with
      | nil => simp
      | cons e entries ih =>
          obtain ⟨he, hrest⟩ := List.forall_mem_cons.mp hlat
          rw [List.map_cons, List.zip_cons_cons, List.map_cons, List.sum_cons,
            ih hrest,
            List.map_cons, List.sum_cons, add_div]
          exact congrArg (· + _) (count_mul_avg he)
    have htotal :
        counter (sumCounters (entries.map Prod.snd)) "lat_count".toList
        = (entries.map (fun e => counter e.2 "lat_count".toList)).sum := by
      rw [counter_sumCounters, List.map_map]
      rfl
    rw [hparts, ← htotal]
    exact avg_eq_div _ _
  percentiles := by
    rintro merged rfl
    exact ⟨rfl, rfl, rfl, rfl⟩

/-- **The rows of a controller and their aggregate.** -/
theorem readLatestPerformance_aggregate [UnicodeDb] {file : Bytes}
    {parsed : Parsed}
    (hparse : parseLastCompleteTick (readAll (some file)) = .ok parsed)
    {instanceId : Int}
    (hsome : deviceCounters parsed instanceId ≠ [])
    (hfloat : ∀ name,
      counter (sumCounters ((deviceCounters parsed instanceId).map Prod.snd))
      name
      < floatLimit)
    (hlat : ∀ e ∈ deviceCounters parsed instanceId, LatenciesCounted e.2) :
    ∃ rows aggregate, readLatestPerformance (some file) instanceId =
      .ok (rows, some aggregate) ∧
      rows = (deviceCounters parsed instanceId).map
        (fun e => queueRow e.1.2 e.2 ((parsed.hists.get? e.1).getD [])) ∧
      AggregateOf (deviceCounters parsed instanceId) (fun key =>
        (parsed.hists.get? key).getD [])
        rows aggregate := by
  have hnatural : ∀ e ∈ deviceCounters parsed instanceId, ∀ name,
      0 ≤ counter e.2 name := by
    intro e he name
    have hmem : e ∈ parsed.scalars.items :=
      (List.mem_insertionSort _).mp (List.mem_of_mem_filter he)
    unfold counter
    cases hget : e.2.get? name with
    | none => exact le_rfl
    | some v =>
        exact natural_parseLastCompleteTick hparse e hmem _
          (OrderedDict.get?_eq_some_iff.mp hget)
  have hsum : ∀ name,
      0 ≤ counter (sumCounters
      ((deviceCounters parsed instanceId).map Prod.snd)) name := by
    intro name
    rw [counter_sumCounters]
    refine List.sum_nonneg fun v hv => ?_
    obtain ⟨cs, hcs, rfl⟩ := List.mem_map.mp hv
    obtain ⟨e, he, rfl⟩ := List.mem_map.mp hcs
    exact hnatural e he name
  have hpart : ∀ e ∈ deviceCounters parsed instanceId, ∀ name, counter e.2 name
      ≤ counter (sumCounters ((deviceCounters parsed instanceId).map Prod.snd))
        name := by
    intro e he name
    rw [counter_sumCounters]
    refine List.single_le_sum (fun v hv => ?_) _
      (List.mem_map_of_mem (List.mem_map_of_mem he))
    obtain ⟨cs, hcs, rfl⟩ := List.mem_map.mp hv
    obtain ⟨e', he', rfl⟩ := List.mem_map.mp hcs
    exact hnatural e' he' name
  have hrows : (deviceCounters parsed instanceId).mapM
      (fun e => buildQueuePerf e.1.2 e.2 ((parsed.hists.get? e.1).getD []))
      = .ok ((deviceCounters parsed instanceId).map
        (fun e => queueRow e.1.2 e.2 ((parsed.hists.get? e.1).getD []))) := by
    refine Fallible.mapM_eq_ok_of_forall fun e he =>
      buildQueuePerf_eq_ok (fun name => ?_) _ _
    obtain ⟨n, hn⟩ := Int.eq_ofNat_of_zero_le (hnatural e he name)
    refine ⟨n, hn, ?_⟩
    have := (hpart e he name).trans_lt (hfloat name)
    rw [hn] at this
    exact_mod_cast this
  have haggregate := buildQueuePerf_eq_ok (fun name => by
    obtain ⟨n, hn⟩ := Int.eq_ofNat_of_zero_le (hsum name)
    have := hfloat name
    rw [hn] at this
    exact ⟨n, hn, by exact_mod_cast this⟩) (-1)
    (mergeBuckets ((deviceCounters parsed instanceId).map (fun e =>
      (parsed.hists.get? e.1).getD [])))
  refine ⟨_, _, ?_, rfl, aggregateOf_queueRow _ hlat⟩
  unfold readLatestPerformance
  rw [if_neg (by simp), hparse]
  simp only [bind, Except.bind, hrows, haggregate, pure, Except.pure]
  rw [if_neg (by simpa using hsome)]

deriving instance DecidableEq for Parsed

attribute [local instance] UnicodeDb.ascii

/-- A tick with two queues, of which one has a latency. -/
def twoQueueLog : Bytes :=
  Utf8.ascii ("@op_count[0, 2]: 5\n@lat_sum[0, 1]: 3\n@lat_count[0, 1]: 1\n@lat_hist[0, 1]: \n".toList ++
    "[2, 4)    1 |@|\n\n---TICK---\n".toList)

/-- What it is read as. -/
def twoQueueParsed : Parsed where
  scalars := ⟨[((0, 2), ⟨[("op_count".toList, 5)], by decide⟩),
    ((0, 1), ⟨[("lat_sum".toList, 3),
      ("lat_count".toList, 1)], by decide⟩)], by decide⟩
  hists := ⟨[((0, 1), [(2, 4, 1)])], by decide⟩

theorem isHistogram_three : IsHistogram [(2, 4, 1)] {3} := by
  refine ⟨?_, ?_⟩
  · rintro b hb
    rw [List.mem_singleton.mp hb]
    exact ⟨1, by decide, by decide⟩
  · refine Counted.cons_iff.mpr ⟨{3}, 0, ?_, Counted.nil, by simp, by simp⟩
    intro y hy
    rw [Multiset.mem_singleton.mp hy]
    decide

/-- A tick with two queues, of which one has a sum of latencies and no number of
them. -/
def uncountedLog : Bytes :=
  Utf8.ascii ("@lat_sum[0, 1]: 3000\n@lat_count[0, 1]: 1\n@lat_sum[0, 2]: 7000\n".toList ++
    "---TICK---\n".toList)

/-- What it is read as. -/
def uncountedParsed : Parsed where
  scalars := ⟨[((0, 1),
    ⟨[("lat_sum".toList, 3000), ("lat_count".toList, 1)], by decide⟩),
    ((0, 2), ⟨[("lat_sum".toList, 7000)], by decide⟩)], by decide⟩
  hists := .empty

end Telemetryd
