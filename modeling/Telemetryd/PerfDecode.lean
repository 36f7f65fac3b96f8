import Mathlib.Data.List.TakeWhile
import Telemetryd.Lib.Quantile
import Telemetryd.PerfTick

/-!
# Histograms read back

The latencies of a queue are printed by `hist()` as one row for each power of
two between the smallest and the largest, and read back by `_parse_segment`.
What is read should count each latency, in a bucket that it lies in.  The rows
of 0 and 1 and those with a bound of a tebi and more are not recognised, and
such a row ends the block; this module says when nothing is lost.

The counts are natural numbers here, so that any number of latencies is covered;
the collector's own rows are those of its 64-bit counters.
-/

namespace Telemetryd

open PyText Regex Utf8 Quantile

/-! ### Printing -/

/-- A row of `hist()` with a count of any size. -/
def countedRow (count most : Nat) (i : Fin 65) : PyText :=
  padRight 16 (rangeText i) ++ padLeft 8 (ofNat count) ++ " |".toList ++
    padRight 52 (List.replicate (52 * count / most) '@') ++ ['|']

/-- The rows from the lowest to the highest occupied one. -/
def occupiedRange (counts : Fin 65 → Nat) : List (Fin 65) :=
  (((List.finRange 65).dropWhile (fun i =>
    !decide (counts i ≠ 0))).reverse.dropWhile
    (fun i => !decide (counts i ≠ 0))).reverse

/-- The rows of a histogram. -/
def countedRows (counts : Fin 65 → Nat) : List PyText :=
  let most := ((occupiedRange counts).reverse.map counts).foldl max 0
  (occupiedRange counts).map (fun i => countedRow (counts i) most i)

local instance neZero_rows : NeZero 65 := ⟨by decide⟩

/-- The row that a latency is counted in. -/
def latencyRow (x : Nat) : Fin 65 :=
  if x = 0 then 1 else Fin.ofNat 65 (2 + Nat.log2 x)

/-- How many of the latencies are counted in a row. -/
def latencyCounts (latencies : Multiset Nat) (i : Fin 65) : Nat :=
  latencies.countP (fun x => latencyRow x = i)

/-- The rows of the collector are of this kind. -/
theorem histRows_eq_countedRows (h : Hist) :
    histRows h = countedRows (fun i => (h i).toNat) := by
  have hzero : ∀ i, (h i ≠ 0) = ((h i).toNat ≠ 0) := fun i => by
    rw [Ne, Ne, ← UInt64.toNat_inj]
    rfl
  unfold histRows countedRows occupiedRange
  simp only [hzero, List.reverse_reverse]
  rfl

/-- A value of the collector goes to the row of the latency. -/
theorem histIndex_eq_latencyRow {value : Int64} (h : 0 ≤ value.toInt) :
    histIndex value = latencyRow value.toInt.toNat := by
  unfold histIndex latencyRow
  rw [if_neg (not_lt.mpr h)]
  by_cases hzero : value.toInt = 0
  · rw [if_pos hzero, if_pos (by omega)]
  · rw [if_neg hzero, if_neg (by omega)]

/-! ### The rows that are recognised -/

/-- Both bounds have a suffix of the pattern, or none. -/
def readableRow (i : Fin 65) : Bool := decide (3 ≤ i.val ∧ i.val ≤ 40)

/-- The bucket of a row. -/
def rowBucket (counts : Fin 65 → Nat) (i : Fin 65) : Bucket :=
  (((2 ^ (i.val - 2) : Nat) : Int), ((2 ^ (i.val - 1) : Nat) : Int),
    (counts i : Int))

theorem countedRow_eq (count most : Nat) (i : Fin 65) :
    ∃ m w, m ≠ 0 ∧
      countedRow count most i = rangeText i ++ (List.replicate m ' ' ++
      (ofNat count ++ ' ' :: '|' :: (w ++ ['|']))) := by
  have hshort : ∀ i : Fin 65, (rangeText i).length < 16 := by decide +kernel
  have := hshort i
  refine ⟨16 - (rangeText i).length + (8 - (ofNat count).length),
    padRight 52 (List.replicate (52 * count / most) '@'), by omega, ?_⟩
  rw [List.replicate_add]
  simp only [countedRow, padRight, padLeft, List.append_assoc]
  rfl

theorem strip_countedRow (count most : Nat) (i : Fin 65) :
    strip (countedRow count most i) = countedRow count most i := by
  obtain ⟨m, w, -, hrow⟩ := countedRow_eq count most i
  obtain ⟨c, t, hrange, hc⟩ := rangeText_first i
  rw [hrow, hrange]
  refine strip_of_ends (y := '|') rfl ?_ ?_ (by decide)
  · simp [List.getLast?_append, List.getLast?_cons]
  · rcases hc with rfl | rfl <;> decide

section

variable [UnicodeDb]

theorem ignored_countedRow (count most : Nat) (i : Fin 65) :
    Ignored (countedRow count most i) := by
  obtain ⟨m, w, -, hrow⟩ := countedRow_eq count most i
  obtain ⟨c, t, hrange, hc⟩ := rangeText_first i
  rw [hrow, hrange]
  refine ignored_of_first ?_ ?_ _
  · rcases hc with rfl | rfl <;> decide
  · rcases hc with rfl | rfl <;> decide

/-- **Which rows the pattern matches**, and what it takes of them. -/
theorem match_countedRow (count most : Nat) (i : Fin 65) :
    match? histBucketRe (strip (countedRow count most i))
      = if readableRow i then some [boundText (i - 2), boundText (i - 1),
        ofNat count] else none := by
  obtain ⟨m, w, hm, hrow⟩ := countedRow_eq count most i
  rw [strip_countedRow]
  by_cases h0 : i = 0
  · have hrun : run histBucketRe (countedRow count most i) = [] := by
      rw [hrow, h0]
      exact run_text_of_ne (by decide) [] _ _
    rw [match?, hrun, h0]
    rfl
  by_cases h1 : i = 1
  · have hrun : run histBucketRe (countedRow count most i) = [] := by
      rw [hrow, h1]
      exact run_histBucketRe_point 0 _
    rw [match?, hrun, h1]
    rfl
  by_cases h2 : i = 2
  · have hrun : run histBucketRe (countedRow count most i) = [] := by
      rw [hrow, h2]
      exact run_histBucketRe_point 1 _
    rw [match?, hrun, h2]
    rfl
  have hrange : rangeText i = '[' :: boundText (i - 2) ++ ", ".toList ++
      boundText (i - 1) ++ [')'] := by
    simp only [rangeText, if_neg h0, if_neg h1, if_neg h2]
  have hrun := run_histBucketRe_interval (i - 2) (i - 1) m count (w ++ ['|'])
  rw [← hrange, ← hrow] at hrun
  have hlow : 3 ≤ i.val := by
    have h0' : i.val ≠ 0 := fun h => h0 (Fin.ext h)
    have h1' : i.val ≠ 1 := fun h => h1 (Fin.ext h)
    have h2' : i.val ≠ 2 := fun h => h2 (Fin.ext h)
    omega
  have hunits : ((i.val - 2) / 10 ≤ 3 ∧ (i.val - 1) / 10 ≤ 3 ∧ m ≠ 0) ↔
      readableRow i = true := by
    unfold readableRow
    rw [decide_eq_true_iff]
    constructor
    · rintro ⟨-, h, -⟩
      omega
    · intro h
      exact ⟨by omega, by omega, hm⟩
  rw [match?, hrun]
  by_cases hread : readableRow i = true
  · rw [if_pos (hunits.mpr hread), if_pos hread]
    rfl
  · rw [if_neg (fun h => hread (hunits.mp h)), if_neg hread]
    rfl

theorem isBucketRow_countedRow (count most : Nat) (i : Fin 65) :
    isBucketRow (countedRow count most i) = readableRow i := by
  unfold isBucketRow
  rw [match_countedRow]
  cases readableRow i <;> rfl

/-- What is read of a row that is recognised: its bucket, if its count is not
too long. -/
def decodeRow (counts : Fin 65 → Nat) (i : Fin 65) : Except PyError Bucket :=
  if counts i < 10 ^ maxStrDigits then .ok (rowBucket counts i)
    else .error .valueError

theorem parseBucket_countedRow {counts : Fin 65 → Nat} {i : Fin 65}
    (hi : readableRow i = true)
    (most : Nat) :
    parseBucket (countedRow (counts i) most i) = decodeRow counts i := by
  have hrange : 3 ≤ i.val ∧ i.val ≤ 40 := of_decide_eq_true hi
  have hcount : pyInt (ofNat (counts i)) = if counts i < 10 ^ maxStrDigits
      then .ok (counts i : Int)
      else .error .valueError := pyInt_ofInt (counts i : Int)
  unfold parseBucket decodeRow
  rw [match_countedRow, if_pos hi]
  simp only [parseBucketBound_boundText (show (i.val - 2) / 10 ≤ 3 by omega),
    parseBucketBound_boundText (show (i.val - 1) / 10 ≤ 3 by omega), hcount]
  split
  · rfl
  · rfl

end

/-! ### From the lowest to the highest row -/

/-- What is behind the first element that is kept, is in order with it. -/
theorem exists_of_mem_dropWhile {α : Type} {r : α → α → Prop} {p : α → Bool}
    {l : List α} {a : α}
    (hl : l.Pairwise r) (ha : a ∈ l.dropWhile p) :
    ∃ b ∈ l, p b = false ∧ (b = a ∨ r b a) := by
  induction l with
  | nil => cases ha
  | cons c l ih =>
      obtain ⟨hfirst, hrest⟩ := List.pairwise_cons.mp hl
      by_cases hc : p c = true
      · rw [List.dropWhile_cons_of_pos hc] at ha
        obtain ⟨b, hb, hpb, hor⟩ := ih hrest ha
        exact ⟨b, List.mem_cons_of_mem _ hb, hpb, hor⟩
      · rw [List.dropWhile_cons_of_neg hc] at ha
        refine ⟨c, List.mem_cons_self, by simpa using hc, ?_⟩
        rcases List.mem_cons.mp ha with rfl | ha
        · exact Or.inl rfl
        · exact Or.inr (hfirst a ha)

theorem mem_dropWhile_of_neg {α : Type} {p : α → Bool} {l : List α} {a : α}
    (ha : a ∈ l)
    (hp : p a = false) : a ∈ l.dropWhile p := by
  induction l with
  | nil => cases ha
  | cons c l ih =>
      by_cases hc : p c = true
      · rw [List.dropWhile_cons_of_pos hc]
        rcases List.mem_cons.mp ha with rfl | ha
        · rw [hp] at hc
          cases hc
        · exact ih ha
      · rw [List.dropWhile_cons_of_neg hc]
        exact ha

/-- An occupied row is printed. -/
theorem mem_occupiedRange {counts : Fin 65 → Nat} {i : Fin 65}
    (h : counts i ≠ 0) :
    i ∈ occupiedRange counts := by
  have hkept : (!decide (counts i ≠ 0)) = false := by simpa using h
  unfold occupiedRange
  rw [List.mem_reverse]
  refine mem_dropWhile_of_neg ?_ hkept
  rw [List.mem_reverse]
  exact mem_dropWhile_of_neg (List.mem_finRange i) hkept

/-- A printed row lies between two occupied ones. -/
theorem exists_of_mem_occupiedRange {counts : Fin 65 → Nat} {i : Fin 65}
    (h : i ∈ occupiedRange counts) :
    ∃ low high, counts low ≠ 0 ∧ counts high ≠ 0 ∧ low ≤ i ∧ i ≤ high := by
  have hup : (List.finRange 65).Pairwise (· < ·) := List.pairwise_lt_finRange 65
  have hsub :=
    (List.dropWhile_suffix (l := List.finRange 65) fun i =>
    !decide (counts i ≠ 0)).sublist
  unfold occupiedRange at h
  rw [List.mem_reverse] at h
  obtain ⟨high, -, hhigh, hle⟩ :=
    exists_of_mem_dropWhile (List.pairwise_reverse.mpr (hup.sublist hsub)) h
  have hmem := List.mem_reverse.mp ((List.dropWhile_suffix _).subset h)
  obtain ⟨low, -, hlow, hge⟩ := exists_of_mem_dropWhile hup hmem
  refine ⟨low, high, by simpa using hlow, by simpa using hhigh, ?_, ?_⟩
  · rcases hge with rfl | hlt
    · exact le_refl _
    · exact hlt.le
  · rcases hle with rfl | hlt
    · exact le_refl _
    · exact hlt.le

theorem nodup_occupiedRange (counts : Fin 65 → Nat) :
    (occupiedRange counts).Nodup := by
  unfold occupiedRange
  rw [List.nodup_reverse]
  refine List.Nodup.sublist (List.dropWhile_suffix _).sublist ?_
  rw [List.nodup_reverse]
  exact (List.nodup_finRange 65).sublist (List.dropWhile_suffix _).sublist

/-! ### Rows and latencies -/

/-- A latency lies in the range of its row. -/
theorem latencyRow_range {x : Nat} {i : Fin 65} (hx : x < 2 ^ 63)
    (hrow : latencyRow x = i)
    (hi : 3 ≤ i.val) : 2 ^ (i.val - 2) ≤ x ∧ x < 2 ^ (i.val - 1) := by
  unfold latencyRow at hrow
  split at hrow
  case isTrue =>
    rw [← hrow] at hi
    exact absurd hi (by decide)
  case isFalse hne =>
    have hlog : Nat.log2 x < 63 := (Nat.log2_lt hne).mpr hx
    have hval : i.val = 2 + Nat.log2 x := by
      rw [← hrow]
      exact Nat.mod_eq_of_lt (by omega)
    rw [hval, Nat.add_sub_cancel_left, show 2 + Nat.log2 x - 1 =
      Nat.log2 x + 1 by omega]
    exact ⟨Nat.log2_self_le hne, Nat.lt_log2_self⟩

/-- Which latencies have a row that is recognised. -/
theorem readableRow_latencyRow {x : Nat} (hx : x < 2 ^ 63) :
    readableRow (latencyRow x) = true ↔ 2 ≤ x ∧ x < 2 ^ 39 := by
  unfold readableRow latencyRow
  rw [decide_eq_true_iff]
  by_cases hzero : x = 0
  · subst hzero
    decide
  · have hlog : Nat.log2 x < 63 := (Nat.log2_lt hzero).mpr hx
    have hval : (Fin.ofNat 65 (2 + Nat.log2 x)).val = 2 + Nat.log2 x :=
      Nat.mod_eq_of_lt (by omega)
    rw [if_neg hzero, hval]
    have hlow : 1 ≤ Nat.log2 x ↔ 2 ≤ x := Nat.le_log2 hzero
    have hhigh : Nat.log2 x < 39 ↔ x < 2 ^ 39 := Nat.log2_lt hzero
    omega

theorem latencyCounts_ne_zero {latencies : Multiset Nat} {x : Nat}
    (hx : x ∈ latencies) :
    latencyCounts latencies (latencyRow x) ≠ 0 :=
  (Multiset.countP_pos (p := fun y =>
    latencyRow y = latencyRow x).mpr ⟨x, hx, rfl⟩).ne'

theorem exists_of_latencyCounts {latencies : Multiset Nat} {i : Fin 65}
    (h : latencyCounts latencies i ≠ 0) : ∃ x ∈ latencies, latencyRow x = i :=
  Multiset.countP_pos.mp (Nat.pos_of_ne_zero h)

/-- Some rows count the latencies that belong to them. -/
theorem counted_rowBuckets {latencies : Multiset Nat}
    (hword : ∀ x ∈ latencies, x < 2 ^ 63)
    {l : List (Fin 65)} (hl : l.Nodup) (hread : ∀ i ∈ l, readableRow i = true) :
    Counted (l.map (rowBucket (latencyCounts latencies)))
      ((latencies.filter (fun x => latencyRow x ∈ l)).map (fun x : Nat =>
        (x : Int))) := by
  induction l with
  | nil => simpa using Counted.nil
  | cons i l ih =>
      obtain ⟨hnot, hl⟩ := List.nodup_cons.mp hl
      obtain ⟨hi, hrest⟩ := List.forall_mem_cons.mp hread
      have hsplit : latencies.filter (fun x => latencyRow x ∈ i :: l)
          = latencies.filter (fun x => latencyRow x = i) +
            latencies.filter (fun x => latencyRow x ∈ l) := by
        have hnone :
            latencies.filter (fun x => latencyRow x = i ∧ latencyRow x ∈ l) =
            0 :=
          Multiset.filter_eq_nil.mpr fun x _ ⟨heq, hmem⟩ => hnot (heq ▸ hmem)
        rw [Multiset.filter_add_filter, hnone, add_zero]
        simp only [List.mem_cons]
      rw [hsplit, Multiset.map_add, List.map_cons]
      refine Counted.cons_iff.mpr ⟨_, _, ?_, ih hl hrest, ?_, rfl⟩
      · intro y hy
        obtain ⟨x, hx, rfl⟩ := Multiset.mem_map.mp hy
        obtain ⟨hmem, hrow⟩ := Multiset.mem_filter.mp hx
        have hlow : 3 ≤ i.val := (of_decide_eq_true hi).1
        obtain ⟨h1, h2⟩ := latencyRow_range (hword x hmem) hrow hlow
        exact ⟨by exact_mod_cast h1, by exact_mod_cast h2⟩
      · rw [Multiset.card_map, latencyCounts, Multiset.countP_eq_card_filter]

/-! ### Decoding a histogram -/

/-- What is read of the rows of a histogram, up to the first that is not
recognised. -/
def decodeCounts (counts : Fin 65 → Nat) : Except PyError (List Bucket) :=
  ((occupiedRange counts).takeWhile readableRow).mapM (decodeRow counts)

/-- What is decoded, where it is. -/
theorem decodeCounts_eq_ok_iff {counts : Fin 65 → Nat} {buckets : List Bucket} :
    decodeCounts counts = .ok buckets ↔
      (∀ i ∈ (occupiedRange counts).takeWhile readableRow,
        counts i < 10 ^ maxStrDigits) ∧
        buckets = ((occupiedRange counts).takeWhile readableRow).map
          (rowBucket counts) := by
  have hrow : ∀ i, PyError.Succeeds (decodeRow counts i) ↔
      counts i < 10 ^ maxStrDigits :=
    fun i => PyError.succeeds_ite _ _
  have hok : (∀ i ∈ (occupiedRange counts).takeWhile readableRow,
      counts i < 10 ^ maxStrDigits) →
      decodeCounts counts
        = .ok (((occupiedRange counts).takeWhile readableRow).map
          (rowBucket counts)) :=
    fun hcounts => Fallible.mapM_eq_ok_of_forall fun i hi =>
      if_pos (hcounts i hi)
  constructor
  · intro h
    have hcounts : ∀ i ∈ (occupiedRange counts).takeWhile readableRow,
        counts i < 10 ^ maxStrDigits :=
      fun i hi => (hrow i).mp (PyError.succeeds_mapM_iff.mp ⟨buckets, h⟩ i hi)
    exact ⟨hcounts, Except.ok.inj (h.symm.trans (hok hcounts))⟩
  · rintro ⟨hcounts, rfl⟩
    exact hok hcounts

/-- Where each latency has a row that is recognised, every row is. -/
theorem readableRow_of_mem {latencies : Multiset Nat}
    (hread : ∀ x ∈ latencies, readableRow (latencyRow x) = true) {i : Fin 65}
    (hi : i ∈ occupiedRange (latencyCounts latencies)) :
    readableRow i = true := by
  obtain ⟨low, high, hlow, hhigh, hle, hge⟩ := exists_of_mem_occupiedRange hi
  obtain ⟨x, hx, rfl⟩ := exists_of_latencyCounts hlow
  obtain ⟨y, hy, rfl⟩ := exists_of_latencyCounts hhigh
  have hfirst : 3 ≤ (latencyRow x).val ∧ _ := of_decide_eq_true (hread x hx)
  have hlast : _ ∧ (latencyRow y).val ≤ 40 := of_decide_eq_true (hread y hy)
  have hle' : (latencyRow x).val ≤ i.val := hle
  have hge' : i.val ≤ (latencyRow y).val := hge
  exact decide_eq_true ⟨by omega, by omega⟩

/-- A latency in a bucket of a row that is recognised. -/
theorem range_of_rowBucket {counts : Fin 65 → Nat} {i : Fin 65}
    (hi : readableRow i = true) {x : Nat}
    (hlow : (rowBucket counts i).1 ≤ (x : Int))
    (hhigh : (x : Int) < (rowBucket counts i).2.1) :
    2 ≤ x ∧ x < 2 ^ 39 := by
  have hrange : 3 ≤ i.val ∧ i.val ≤ 40 := of_decide_eq_true hi
  have hge : 2 ^ (i.val - 2) ≤ x := Int.ofNat_le.mp hlow
  have hlt : x < 2 ^ (i.val - 1) := Int.ofNat_lt.mp hhigh
  have htwo : 2 ^ 1 ≤ 2 ^ (i.val - 2) :=
    Nat.pow_le_pow_right (by decide) (by omega)
  have htebi : 2 ^ (i.val - 1) ≤ 2 ^ 39 :=
    Nat.pow_le_pow_right (by decide) (by omega)
  omega

/-- **What is decoded is exact** where each latency has a row that is
recognised. -/
theorem counted_decodeCounts_iff {latencies : Multiset Nat}
    (hword : ∀ x ∈ latencies, x < 2 ^ 63)
    {buckets : List Bucket}
    (hdecode : decodeCounts (latencyCounts latencies) = .ok buckets) :
    Counted buckets (latencies.map (fun x : Nat => (x : Int))) ↔
      ∀ x ∈ latencies, 2 ≤ x ∧ x < 2 ^ 39 := by
  obtain ⟨-, rfl⟩ := decodeCounts_eq_ok_iff.mp hdecode
  constructor
  · intro hcounted x hx
    obtain ⟨b, hb, hlow, hhigh⟩ :=
      hcounted.exists_range x (Multiset.mem_map_of_mem _ hx)
    obtain ⟨i, hi, rfl⟩ := List.mem_map.mp hb
    exact range_of_rowBucket (List.mem_takeWhile_imp hi) hlow hhigh
  · intro hrange
    have hread : ∀ i ∈ occupiedRange (latencyCounts latencies),
        readableRow i = true := fun i hi =>
      readableRow_of_mem (fun x hx =>
        (readableRow_latencyRow (hword x hx)).mpr (hrange x hx)) hi
    have hkept :
        latencies.filter (fun x =>
        latencyRow x ∈ occupiedRange (latencyCounts latencies))
        = latencies :=
      Multiset.filter_eq_self.mpr fun x hx =>
        mem_occupiedRange (latencyCounts_ne_zero hx)
    have hcounted :=
      counted_rowBuckets hword (nodup_occupiedRange (latencyCounts latencies))
      hread
    rw [List.takeWhile_eq_self_iff.mpr hread]
    rwa [hkept] at hcounted

/-! ### The lines of a histogram -/

theorem isLineBoundary_of_isMapName {name : PyText} (hname : IsMapName name) :
    ∀ c ∈ name, isLineBoundary c = false := by
  have hword : ∀ n : Fin 128, (Char.ofNat n).isAlphanum || Char.ofNat n == '_' →
      isLineBoundary (Char.ofNat n) = false := by decide +kernel
  intro c hc
  obtain ⟨hascii, halpha⟩ := hname.2 c hc
  have := hword ⟨c.toNat, hascii⟩
  rw [Char.ofNat_toNat] at this
  exact this halpha

theorem cleanText_countedRow (count most : Nat) (i : Fin 65) :
    CleanText (countedRow count most i) :=
  ((((cleanText_padRight (cleanText_rangeText i) _).append
    (cleanText_padLeft (cleanText_ofNat _) _)).append (by decide)).append
      (cleanText_padRight (cleanText_replicate (by decide) _) _)).append (by
        decide)

section

variable [UnicodeDb]

/-- The lines of a histogram: its key, its rows and an empty line. -/
def countedLines (name : PyText) (ctrl qid : Int64) (counts : Fin 65 → Nat) :
    List PyText :=
  ('@' :: name ++ '[' :: keyText [ctrl, qid] ++ "]: ".toList) ::
    countedRows counts ++ [[]]

/-- Some buckets are added to a queue. -/
def Parsed.putBuckets (s : Parsed) (k : Int × Int) (buckets : List Bucket) :
    Parsed :=
  { s with hists := s.hists.insert k (((s.hists.get? k).getD []) ++ buckets) }

theorem takeWhile_countedRow (counts : Fin 65 → Nat) (most : Nat)
    (l : List (Fin 65)) :
    (l.map (fun i => countedRow (counts i) most i)).takeWhile isBucketRow
      = (l.takeWhile readableRow).map (fun i =>
        countedRow (counts i) most i) := by
  induction l with
  | nil => rfl
  | cons i l ih =>
      rw [List.map_cons, List.takeWhile_cons, List.takeWhile_cons,
        isBucketRow_countedRow, ih]
      cases readableRow i with
      | false => rfl
      | true => rfl

theorem mapM_countedRow (counts : Fin 65 → Nat) (most : Nat) {l : List (Fin 65)}
    (hl : ∀ i ∈ l, readableRow i = true) :
    (l.map (fun i => countedRow (counts i) most i)).mapM parseBucket =
      l.mapM (decodeRow counts) := by
  induction l with
  | nil => rfl
  | cons i l ih =>
      obtain ⟨hi, hl⟩ := List.forall_mem_cons.mp hl
      rw [List.map_cons, List.mapM_cons, List.mapM_cons,
        parseBucket_countedRow hi, ih hl]

/-- **A histogram adds its buckets.** -/
theorem parseFrom_countedLines {name : PyText} (hname : IsMapName name)
    (ctrl qid : Int64)
    (counts : Fin 65 → Nat) (s : Parsed) (rest : List PyText) :
    parseFrom s 0 (countedLines name ctrl qid counts ++ rest) = (do
      let buckets ← decodeCounts counts
      parseFrom (s.putBuckets (ctrl.toInt, qid.toInt) buckets) 0 rest) := by
  obtain ⟨hnone, hsome⟩ := match_histKey hname ctrl qid
  have hlines : countedLines name ctrl qid counts ++ rest
      = ('@' :: name ++ '[' :: keyText [ctrl, qid] ++ "]: ".toList) ::
        (countedRows counts ++ [] :: rest) := by
    simp [countedLines]
  have htake : (countedRows counts ++ [] :: rest).takeWhile isBucketRow
      = (countedRows counts).takeWhile isBucketRow :=
        takeWhile_append_neg isBucketRow_nil _ _
  have hbuckets :
      ((countedRows counts).takeWhile isBucketRow).mapM parseBucket =
      decodeCounts counts := by
    unfold countedRows decodeCounts
    rw [takeWhile_countedRow]
    exact mapM_countedRow counts _ fun i hi => List.mem_takeWhile_imp hi
  have hsplit :
      countedRows counts ++ [] :: rest =
      (countedRows counts).takeWhile isBucketRow ++
      ((countedRows counts).dropWhile isBucketRow ++ [] :: rest) := by
    rw [← List.append_assoc, List.takeWhile_append_dropWhile]
  have hignored : ∀ l ∈ (countedRows counts).dropWhile isBucketRow,
      Ignored l := by
    intro l hl
    have hrow : l ∈ countedRows counts :=
      (List.dropWhile_suffix isBucketRow).subset hl
    obtain ⟨i, -, rfl⟩ := List.mem_map.mp hrow
    exact ignored_countedRow _ _ i
  rw [hlines, parseFrom, hnone, hsome]
  simp only [htake, Parsed.addHist, pyInt_key, hbuckets]
  cases decodeCounts counts with
  | error e => rfl
  | ok buckets =>
      change parseFrom _ _ (countedRows counts ++ [] :: rest) =
        parseFrom _ 0 rest
      rw [hsplit, parseFrom_skip, parseFrom_ignoredAll hignored,
        parseFrom_ignored ignored_nil]
      rfl

/-! ### A segment -/

/-- A part of what is printed between two marks. -/
inductive Piece where
  | other (line : PyText)
  | counter (name : PyText) (ctrl qid : Int64) (v : UInt64)
  | histogram (name : PyText) (ctrl qid : Int64) (latencies : Multiset Nat)

namespace Piece

/-- The lines of a piece. -/
def lines : Piece → List PyText
  | other line => [line]
  | counter name ctrl qid v => [mapLine name [ctrl, qid] v]
  | histogram name ctrl qid latencies =>
      countedLines name ctrl qid (latencyCounts latencies)

/-- A line that is neither a counter with two keys nor the key of a histogram,
and is not cut; a map with a name; latencies that fit in a word. -/
def Printed : Piece → Prop
  | other line => Ignored line ∧ ∀ c ∈ line, isLineBoundary c = false
  | counter name _ _ _ => IsMapName name
  | histogram name _ _ latencies => IsMapName name ∧ ∀ x ∈ latencies, x < 2 ^ 63

/-- The queue of a histogram. -/
def key? : Piece → Option (Int × Int)
  | histogram _ ctrl qid _ => some (ctrl.toInt, qid.toInt)
  | _ => none

/-- No count that is read is too long for `int()`. -/
def Short : Piece → Prop
  | histogram _ _ _ latencies =>
      ∀ i ∈ (occupiedRange (latencyCounts latencies)).takeWhile readableRow,
        latencyCounts latencies i < 10 ^ maxStrDigits
  | _ => True

/-- What the parser makes of a piece. -/
def read (s : Parsed) : Piece → Except PyError Parsed
  | other _ => .ok s
  | counter name ctrl qid v =>
      .ok { s with scalars :=
        Scalars.put s.scalars name ((ctrl.toInt, qid.toInt), v.toNat) }
  | histogram _ ctrl qid latencies => do
      let buckets ← decodeCounts (latencyCounts latencies)
      return s.putBuckets (ctrl.toInt, qid.toInt) buckets

end Piece

/-- The text of a segment. -/
def segmentText (pieces : List Piece) : PyText :=
  (pieces.flatMap Piece.lines).flatMap (fun l => l ++ ['\n'])

theorem parseFrom_piece {p : Piece} (hp : p.Printed) (s : Parsed)
    (rest : List PyText) :
    parseFrom s 0 (p.lines ++ rest) = (do
      let s ← p.read s
      parseFrom s 0 rest) := by
  cases p with
  | other line => exact parseFrom_ignored hp.1 s rest
  | counter name ctrl qid v => exact parseFrom_mapLine hp ctrl qid v s rest
  | histogram name ctrl qid latencies =>
      rw [Piece.lines, parseFrom_countedLines hp.1, Piece.read]
      cases decodeCounts (latencyCounts latencies) with
      | error e => rfl
      | ok buckets => rfl

/-- No line of a piece is cut. -/
theorem Piece.Printed.not_isLineBoundary {p : Piece} (hp : p.Printed) :
    ∀ l ∈ p.lines, ∀ c ∈ l, isLineBoundary c = false := by
  have hkey : ∀ {name : PyText}, IsMapName name →
      ∀ (ks : List Int64) {t : PyText}, CleanText t →
      ∀ c ∈ '@' :: name ++ '[' :: keyText ks ++ t,
        isLineBoundary c = false := by
    intro name hname ks t ht c hc
    simp only [List.mem_append, List.mem_cons] at hc
    rcases hc with ((rfl | hc) | rfl | hc) | hc
    · decide
    · exact isLineBoundary_of_isMapName hname c hc
    · decide
    · exact (cleanText_keyText ks).not_isLineBoundary c hc
    · exact ht.not_isLineBoundary c hc
  intro l hl
  cases p with
  | other line =>
      rw [List.mem_singleton.mp hl]
      exact hp.2
  | counter name ctrl qid v =>
      rw [List.mem_singleton.mp hl]
      have hline : mapLine name [ctrl, qid] v
          = '@' :: name ++ '[' :: keyText [ctrl, qid] ++
            ("]: ".toList ++ ofNat v.toNat) := by
        simp [mapLine]
      rw [hline]
      exact hkey hp _ (CleanText.append (by decide) (cleanText_ofNat _))
  | histogram name ctrl qid latencies =>
      simp only [Piece.lines, countedLines, List.cons_append, List.mem_cons,
        List.mem_append,
        List.not_mem_nil, or_false] at hl
      rcases hl with rfl | hl | rfl
      · exact hkey hp.1 _ (by decide)
      · obtain ⟨i, -, rfl⟩ := List.mem_map.mp hl
        exact (cleanText_countedRow _ _ i).not_isLineBoundary
      · exact fun c hc => absurd hc List.not_mem_nil

/-- **A segment is read piece by piece.** -/
theorem parseSegment_segmentText {pieces : List Piece}
    (hpieces : ∀ p ∈ pieces, p.Printed) :
    parseSegment (segmentText pieces) = pieces.foldlM Piece.read {} := by
  have hcut : ∀ l ∈ pieces.flatMap Piece.lines, ∀ c ∈ l,
      isLineBoundary c = false := by
    intro l hl
    obtain ⟨p, hp, hl⟩ := List.mem_flatMap.mp hl
    exact (hpieces p hp).not_isLineBoundary l hl
  have hsplit :
      splitlines (segmentText pieces) = pieces.flatMap Piece.lines := by
    have h := splitlines_lines hcut []
    rw [List.append_nil] at h
    rw [segmentText, h]
    exact List.append_nil _
  have hrun : ∀ s, parseFrom s 0 (pieces.flatMap Piece.lines) =
      pieces.foldlM Piece.read s := by
    clear hcut hsplit
    induction pieces with
    | nil => exact fun s => rfl
    | cons p pieces ih =>
        obtain ⟨hp, hpieces⟩ := List.forall_mem_cons.mp hpieces
        intro s
        rw [List.flatMap_cons, parseFrom_piece hp, List.foldlM_cons]
        exact congrArg (p.read s >>= ·) (funext (ih hpieces))
  rw [parseSegment, hsplit]
  exact hrun _

end

/-! ### The histograms of a segment -/

section

variable {pieces : List Piece} {s s' : Parsed}

/-- As many commands as a counter can hold are not too many. -/
theorem Piece.short_of_card {name : PyText} {ctrl qid : Int64}
    {latencies : Multiset Nat}
    (h : latencies.card < 2 ^ 64) :
    (Piece.histogram name ctrl qid latencies).Short := fun _ _ =>
  PyText.lt_maxStrDigits_of_lt ((Multiset.countP_le_card _ _).trans_lt h)

theorem succeeds_read {p : Piece} : PyError.Succeeds (p.read s) ↔ p.Short := by
  cases p with
  | other line => exact iff_of_true ⟨s, rfl⟩ trivial
  | counter name ctrl qid v => exact iff_of_true ⟨_, rfl⟩ trivial
  | histogram name ctrl qid latencies =>
      rw [Piece.read, PyError.succeeds_bind_pure]
      exact ⟨fun ⟨buckets, h⟩ => (decodeCounts_eq_ok_iff.mp h).1,
        fun h => ⟨_, decodeCounts_eq_ok_iff.mpr ⟨h, rfl⟩⟩⟩

theorem get?_read {p : Piece} (h : p.read s = .ok s') {k : Int × Int}
    (hk : p.key? ≠ some k) :
    s'.hists.get? k = s.hists.get? k := by
  cases p with
  | other line => rw [← Except.ok.inj h]
  | counter name ctrl qid v => rw [← Except.ok.inj h]
  | histogram name ctrl qid latencies =>
      obtain ⟨buckets, -, hput⟩ := Fallible.bind_eq_ok.mp h
      rw [← Except.ok.inj hput]
      exact OrderedDict.get?_insert_of_ne fun heq => hk (congrArg some heq.symm)

/-- The parser ends if every piece is short. -/
theorem succeeds_foldlM_read :
    PyError.Succeeds (pieces.foldlM Piece.read s) ↔ ∀ p ∈ pieces, p.Short := by
  induction pieces generalizing s with
  | nil => exact iff_of_true ⟨s, rfl⟩ (List.forall_mem_nil _)
  | cons p pieces ih =>
      rw [List.foldlM_cons, PyError.succeeds_bind, List.forall_mem_cons]
      constructor
      · rintro ⟨t, hread, hrest⟩
        exact ⟨succeeds_read.mp ⟨t, hread⟩, ih.mp hrest⟩
      · rintro ⟨hp, hrest⟩
        obtain ⟨t, hread⟩ := succeeds_read.mpr hp
        exact ⟨t, hread, ih.mpr hrest⟩

theorem get?_foldlM_read (h : pieces.foldlM Piece.read s = .ok s')
    {k : Int × Int}
    (hk : k ∉ pieces.filterMap Piece.key?) :
    s'.hists.get? k = s.hists.get? k := by
  induction pieces generalizing s with
  | nil => rw [← Except.ok.inj h]
  | cons p pieces ih =>
      rw [List.foldlM_cons, Fallible.bind_eq_ok] at h
      obtain ⟨t, hread, hrest⟩ := h
      have hfirst : p.key? ≠ some k := fun heq => hk (by simp [heq])
      have hlater : k ∉ pieces.filterMap Piece.key? := by
        intro hmem
        obtain ⟨q, hq, heq⟩ := List.mem_filterMap.mp hmem
        exact hk (List.mem_filterMap.mpr ⟨q, List.mem_cons_of_mem _ hq, heq⟩)
      rw [ih hrest hlater, get?_read hread hfirst]

/-- **What is read for a queue** is what its histogram is decoded to. -/
theorem hists_foldlM_read (h : pieces.foldlM Piece.read s = .ok s')
    (hkeys : (pieces.filterMap Piece.key?).Nodup)
    (hnew : ∀ k ∈ pieces.filterMap Piece.key?, s.hists.get? k = none)
    {name : PyText} {ctrl qid : Int64} {latencies : Multiset Nat}
    (hmem : Piece.histogram name ctrl qid latencies ∈ pieces) :
    ∃ buckets, decodeCounts (latencyCounts latencies) = .ok buckets ∧
      s'.hists.get? (ctrl.toInt, qid.toInt) = some buckets := by
  induction pieces generalizing s with
  | nil => cases hmem
  | cons p pieces ih =>
      rw [List.foldlM_cons, Fallible.bind_eq_ok] at h
      obtain ⟨t, hread, hrest⟩ := h
      rcases List.mem_cons.mp hmem with rfl | hmem
      · obtain ⟨hnot, -⟩ := List.nodup_cons.mp hkeys
        obtain ⟨buckets, hdecode, hput⟩ := Fallible.bind_eq_ok.mp hread
        refine ⟨buckets, hdecode, ?_⟩
        rw [get?_foldlM_read hrest hnot, ← Except.ok.inj hput]
        have hnone := hnew _ List.mem_cons_self
        simp only [Parsed.putBuckets, OrderedDict.get?_insert_self, hnone]
        rfl
      · have hsub : (pieces.filterMap Piece.key?).Sublist
            ((p :: pieces).filterMap Piece.key?) :=
          (List.sublist_cons_self p pieces).filterMap _
        refine ih hrest (hkeys.sublist hsub) (fun k hk => ?_) hmem
        have hfirst : p.key? ≠ some k := by
          intro heq
          rw [List.filterMap_cons_some heq] at hkeys
          exact (List.nodup_cons.mp hkeys).1 hk
        rw [get?_read hread hfirst, hnew k (hsub.subset hk)]

end

/-- **Which histograms are read back.**  The buckets of a queue count each of
its latencies, in a bucket that it lies in, if all of them have a row that is
recognised. -/
theorem histogram_exact_iff [UnicodeDb] {pieces : List Piece}
    (hprinted : ∀ p ∈ pieces, p.Printed)
    (hkeys : (pieces.filterMap Piece.key?).Nodup) {name : PyText}
    {ctrl qid : Int64}
    {latencies : Multiset Nat}
    (hmem : Piece.histogram name ctrl qid latencies ∈ pieces) :
    (∃ s, parseSegment (segmentText pieces) = .ok s ∧
        Counted ((s.hists.get? (ctrl.toInt, qid.toInt)).getD [])
          (latencies.map (fun x : Nat => (x : Int)))) ↔
      (∀ x ∈ latencies, 2 ≤ x ∧ x < 2 ^ 39) ∧ ∀ p ∈ pieces, p.Short := by
  rw [parseSegment_segmentText hprinted,
    and_comm, ← succeeds_foldlM_read (s := {})]
  have hexact : ∀ s, pieces.foldlM Piece.read {} = .ok s →
      (Counted ((s.hists.get? (ctrl.toInt, qid.toInt)).getD [])
        (latencies.map (fun x : Nat => (x : Int))) ↔ ∀ x ∈ latencies, 2 ≤ x ∧
          x < 2 ^ 39) := by
    intro s hs
    obtain ⟨buckets, hdecode, hget⟩ :=
      hists_foldlM_read hs hkeys (fun _ _ => rfl) hmem
    rw [hget]
    exact counted_decodeCounts_iff (hprinted _ hmem).2 hdecode
  constructor
  · rintro ⟨s, hs, hcounted⟩
    exact ⟨⟨s, hs⟩, (hexact s hs).mp hcounted⟩
  · rintro ⟨⟨s, hs⟩, hrange⟩
    exact ⟨s, hs, (hexact s hs).mpr hrange⟩

/-- Four commands on queue 1 of controller 0, two of them in one row. -/
def fourCommands : List Piece :=
  [.other [], .counter "op_count".toList 0 1 4,
    .histogram "lat_hist".toList 0 1 {300, 400, 5000, 2000000}]

/-- They are read back. -/
theorem histogram_exact_fourCommands :
    ∃ s, @parseSegment UnicodeDb.ascii (segmentText fourCommands) = .ok s ∧
      Counted ((s.hists.get? (0, 1)).getD [])
        (({300, 400, 5000, 2000000} : Multiset Nat).map (fun x : Nat =>
          (x : Int))) := by
  have hprinted : ∀ p ∈ fourCommands, @Piece.Printed UnicodeDb.ascii p := by
    intro p hp
    simp only [fourCommands, List.mem_cons, List.not_mem_nil, or_false] at hp
    rcases hp with rfl | rfl | rfl
    · exact ⟨@ignored_nil UnicodeDb.ascii, fun c hc =>
        absurd hc List.not_mem_nil⟩
    · exact show IsMapName _ by decide
    · exact show IsMapName _ ∧ _ by decide
  have hshort : ∀ p ∈ fourCommands, p.Short := by
    intro p hp
    simp only [fourCommands, List.mem_cons, List.not_mem_nil, or_false] at hp
    rcases hp with rfl | rfl | rfl
    · trivial
    · trivial
    · exact Piece.short_of_card (by decide)
  exact (@histogram_exact_iff UnicodeDb.ascii _ hprinted (by decide)
    "lat_hist".toList 0 1 _
    (by simp [fourCommands])).mpr ⟨by decide, hshort⟩

/-- Two commands on queue 1 of controller 0, one of them in a nanosecond. -/
def instantCommand : List Piece := [.histogram "lat_hist".toList 0 1 {1, 300}]

/-- The row of the fast one comes first, and neither is read. -/
theorem instantCommand_not_read :
    ¬ ∃ s, @parseSegment UnicodeDb.ascii (segmentText instantCommand) = .ok s ∧
      Counted ((s.hists.get? (0, 1)).getD [])
        (({1, 300} : Multiset Nat).map (fun x : Nat => (x : Int))) := by
  have hprinted : ∀ p ∈ instantCommand, @Piece.Printed UnicodeDb.ascii p := by
    intro p hp
    rw [List.mem_singleton.mp hp]
    exact show IsMapName _ ∧ _ by decide
  have hnone : (occupiedRange (latencyCounts {1, 300})).takeWhile readableRow =
      [] := by
    decide +kernel
  rintro ⟨s, hs, hcounted⟩
  rw [@parseSegment_segmentText UnicodeDb.ascii _ hprinted] at hs
  obtain ⟨buckets, hdecode, hget⟩ :=
    hists_foldlM_read hs (by decide) (fun _ _ => rfl)
    (List.mem_singleton_self _)
  obtain ⟨-, hbuckets⟩ := decodeCounts_eq_ok_iff.mp hdecode
  rw [hnone, List.map_nil] at hbuckets
  have htotal := hcounted.total
  rw [show ((0 : Int64).toInt, (1 : Int64).toInt) = (0, 1) from rfl] at hget
  rw [hget, hbuckets] at htotal
  exact absurd htotal (by decide)

end Telemetryd
