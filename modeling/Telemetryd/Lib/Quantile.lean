import Mathlib.Algebra.BigOperators.Group.Multiset.Basic
import Mathlib.Algebra.Order.BigOperators.Group.List
import Mathlib.Algebra.Order.Floor.Semiring
import Mathlib.Data.Multiset.Sort
import Mathlib.Data.Rat.Floor
import Mathlib.Order.Monotone.Basic

/-!
# Quantiles of samples that are counted in cells

A sample is a multiset, and its order statistics are the places of its sorted
list.  A grid cuts the values into cells.  The cell of a quantile is found by
comparing how many values lie below two neighbouring lines of the grid with the
part that is asked for; it is the cell of the order statistic, there is only
one, and pooling samples moves it no further than the cells of the parts.

A histogram has the number of values in each of its ranges, `Counted` says of
which samples.
-/

namespace Quantile

section

variable {α : Type*} [LinearOrder α]

/-! ### Order statistics -/

/-- How many values are below `t`. -/
def below (xs : Multiset α) (t : α) : ℕ := xs.countP (· < t)

/-- `x` is the `m`-th smallest value, counted from one. -/
def IsNth (xs : Multiset α) (m : ℕ) (x : α) : Prop :=
  0 < m ∧ xs.sort[m - 1]? = some x

/-- Nothing is below a bound in the empty multiset. -/
@[simp] theorem below_zero (t : α) : below (0 : Multiset α) t = 0 := rfl

/-- Below a bound are those of each part. -/
@[simp] theorem below_add (xs ys : Multiset α) (t : α) :
    below (xs + ys) t = below xs t + below ys t := Multiset.countP_add _ _ _

/-- No more are below a bound than there are. -/
theorem below_le_card (xs : Multiset α) (t : α) : below xs t ≤ xs.card :=
  Multiset.countP_le_card _ _

/-- More are below a higher bound. -/
theorem below_mono (xs : Multiset α) {s t : α} (h : s ≤ t) :
    below xs s ≤ below xs t := by
  induction xs using Multiset.induction_on with
  | empty => exact Nat.le_refl _
  | cons a xs ih =>
      unfold below at ih ⊢
      rw [Multiset.countP_cons, Multiset.countP_cons]
      by_cases ha : a < s
      · rw [if_pos ha, if_pos (ha.trans_le h)]
        omega
      · rw [if_neg ha]
        omega

/-- All are below a bound that each is below. -/
theorem below_eq_card {xs : Multiset α} {t : α} (h : ∀ x ∈ xs, x < t) :
    below xs t = xs.card :=
  Multiset.countP_eq_card.mpr h

/-- None is below a bound that none is below. -/
theorem below_eq_zero {xs : Multiset α} {t : α} (h : ∀ x ∈ xs, t ≤ x) :
    below xs t = 0 :=
  Multiset.countP_eq_zero.mpr fun x hx => not_lt.mpr (h x hx)

/-- In a sorted list the places below `t` come first. -/
theorem getElem?_lt_iff {l : List α} (hl : l.Pairwise (· ≤ ·)) {i : ℕ} {x : α}
    (hx : l[i]? = some x)
    (t : α) : x < t ↔ i < l.countP (fun y => decide (y < t)) := by
  induction l generalizing i with
  | nil => cases hx
  | cons a l ih =>
      obtain ⟨hfirst, hrest⟩ := List.pairwise_cons.mp hl
      have hnone : ¬ a < t → l.countP (fun y => decide (y < t)) = 0 := fun ha =>
        List.countP_eq_zero.mpr fun y hy => by
          simpa using (not_lt.mp ha).trans (hfirst y hy)
      rw [List.countP_cons]
      by_cases ha : a < t
      · rw [if_pos (by simpa using ha)]
        cases i with
        | zero =>
            obtain rfl : a = x := Option.some.inj hx
            exact iff_of_true ha (by omega)
        | succ i =>
            rw [ih hrest (by simpa using hx)]
            omega
      · rw [if_neg (by simpa using ha), hnone ha]
        refine iff_of_false ?_ (Nat.not_lt_zero _)
        cases i with
        | zero =>
            obtain rfl : a = x := Option.some.inj hx
            exact ha
        | succ i =>
            have hmem : x ∈ l := List.mem_of_getElem? (by simpa using hx)
            exact fun hlt => ha ((hfirst x hmem).trans_lt hlt)

/-- **The `m`-th smallest value is below `t`** when `m` values are. -/
theorem IsNth.lt_iff {xs : Multiset α} {m : ℕ} {x : α} (h : IsNth xs m x)
    (t : α) :
    x < t ↔ m ≤ below xs t := by
  have hbelow : below xs t = xs.sort.countP (fun y => decide (y < t)) := by
    unfold below
    conv_lhs => rw [← Multiset.sort_eq xs (· ≤ ·)]
    exact Multiset.coe_countP _ _
  rw [getElem?_lt_iff (Multiset.pairwise_sort xs (· ≤ ·)) h.2 t, ← hbelow]
  have := h.1
  omega

/-- Every place is taken. -/
theorem exists_isNth {xs : Multiset α} {m : ℕ} (hm : 0 < m)
    (hle : m ≤ xs.card) :
    ∃ x, IsNth xs m x := by
  have hlen : m - 1 < xs.sort.length := by
    rw [Multiset.length_sort]
    omega
  exact ⟨xs.sort[m - 1], hm, List.getElem?_eq_getElem hlen⟩

/-! ### The cell of a quantile -/

/-- The quantile `p` lies in the cell from `g k` to `g (k + 1)`. -/
structure InCell (g : ℕ → α) (xs : Multiset α) (p : ℚ) (k : ℕ) : Prop where
  lower : (below xs (g k) : ℚ) < p * xs.card
  upper : p * xs.card ≤ below xs (g (k + 1))

variable {g : ℕ → α}

/-- A larger part is not in an earlier cell. -/
theorem InCell.le (hg : Monotone g) {xs : Multiset α} {p q : ℚ} {k j : ℕ}
    (hp : InCell g xs p k)
    (hq : InCell g xs q j) (hpq : p ≤ q) : k ≤ j := by
  by_contra hlt
  have hcells : below xs (g (j + 1)) ≤ below xs (g k) :=
    below_mono xs (hg (by omega))
  have hpart : p * xs.card ≤ q * xs.card :=
    mul_le_mul_of_nonneg_right hpq (Nat.cast_nonneg _)
  have : (below xs (g k) : ℚ) < below xs (g (j + 1)) :=
    hp.lower.trans_le (hpart.trans hq.upper)
  exact absurd (Nat.cast_lt.mp this) (by omega)

/-- A quantile lies in one cell. -/
theorem InCell.unique (hg : Monotone g) {xs : Multiset α} {p : ℚ} {k j : ℕ}
    (hk : InCell g xs p k)
    (hj : InCell g xs p j) : k = j :=
  le_antisymm (hk.le hg hj le_rfl) (hj.le hg hk le_rfl)

/-- Where a quantile lies there are values. -/
theorem InCell.card_pos {xs : Multiset α} {p : ℚ} {k : ℕ}
    (h : InCell g xs p k) : 0 < xs.card := by
  by_contra hzero
  have hlower := h.lower
  rw [show xs.card = 0 by omega, Nat.cast_zero, mul_zero] at hlower
  exact absurd hlower (not_lt.mpr (Nat.cast_nonneg _))

/-- **The cell is that of the order statistic**, whose place is the part of the
sample rounded up. -/
theorem InCell.nth {xs : Multiset α} {p : ℚ} {k : ℕ} (h : InCell g xs p k)
    {x : α}
    (hx : IsNth xs ⌈p * xs.card⌉₊ x) : g k ≤ x ∧ x < g (k + 1) := by
  refine ⟨?_, (hx.lt_iff _).mpr (Nat.ceil_le.mpr h.upper)⟩
  by_contra hlt
  have hplace := (hx.lt_iff _).mp (not_le.mp hlt)
  exact absurd (Nat.ceil_le.mp hplace) (not_le.mpr h.lower)

/-- The place of a part is taken. -/
theorem exists_nth_part {xs : Multiset α} {p : ℚ} (hp : 0 < p) (hp1 : p ≤ 1)
    (hxs : 0 < xs.card) :
    ∃ x, IsNth xs ⌈p * xs.card⌉₊ x := by
  have hcard : (0 : ℚ) < xs.card := Nat.cast_pos.mpr hxs
  refine exists_isNth (Nat.ceil_pos.mpr (mul_pos hp hcard)) (Nat.ceil_le.mpr ?_)
  exact mul_le_of_le_one_left hcard.le hp1

/-! ### Pooling -/

/-- Some sample has as many values below `t` as the whole has on the average. -/
theorem exists_part_le {xss : List (Multiset α)} {p : ℚ} {t : α}
    (hcard : 0 < xss.sum.card)
    (h : p * xss.sum.card ≤ below xss.sum t) :
    ∃ xs ∈ xss, 0 < xs.card ∧ p * xs.card ≤ below xs t := by
  by_contra hnone
  push Not at hnone
  have hlt : ∀ l : List (Multiset α), (∀ xs ∈ l, xs ∈ xss) →
      (below l.sum t : ℚ) ≤ p * l.sum.card ∧
        (0 < l.sum.card → (below l.sum t : ℚ) < p * l.sum.card) := by
    intro l hl
    induction l with
    | nil => exact ⟨by simp, fun hpos => absurd hpos (by simp)⟩
    | cons xs l ih =>
        obtain ⟨hle, hstrict⟩ :=
          ih fun ys hys => hl ys (List.mem_cons_of_mem _ hys)
        have hxs := hnone xs (hl xs List.mem_cons_self)
        rw [List.sum_cons, below_add, Multiset.card_add, Nat.cast_add,
          Nat.cast_add, mul_add]
        rcases Nat.eq_zero_or_pos xs.card with hzero | hpos
        · have hbelow : below xs t = 0 :=
            Nat.le_zero.mp (hzero ▸ below_le_card xs t)
          rw [hzero, hbelow, Nat.cast_zero, mul_zero, zero_add, zero_add,
            Nat.zero_add]
          exact ⟨hle, hstrict⟩
        · have := hxs hpos
          exact ⟨(add_lt_add_of_lt_of_le this hle).le, fun _ =>
            add_lt_add_of_lt_of_le this hle⟩
  exact absurd h (not_le.mpr ((hlt xss fun _ h => h).2 hcard))

/-- Some sample has fewer values below `t` than its part, if the whole has. -/
theorem exists_lt_part {xss : List (Multiset α)} {p : ℚ} {t : α}
    (h : (below xss.sum t : ℚ) < p * xss.sum.card) :
    ∃ xs ∈ xss, (below xs t : ℚ) < p * xs.card := by
  by_contra hnone
  push Not at hnone
  induction xss with
  | nil => simp at h
  | cons xs xss ih =>
      have hxs := hnone xs List.mem_cons_self
      rw [List.sum_cons, below_add, Multiset.card_add, Nat.cast_add,
        Nat.cast_add, mul_add] at h
      refine ih ?_ fun ys hys => hnone ys (List.mem_cons_of_mem _ hys)
      by_contra hle
      exact absurd h (not_lt.mpr (add_le_add hxs (not_lt.mp hle)))

/-- **Pooled samples have their quantile between those of the parts.** -/
theorem InCell.pooled (hg : Monotone g) {xss : List (Multiset α)}
    {p : ℚ} {k : ℕ}
    (h : InCell g xss.sum p k)
    (hparts : ∀ xs ∈ xss, 0 < xs.card → ∃ j, InCell g xs p j) :
    (∃ xs ∈ xss, ∃ j, InCell g xs p j ∧ j ≤ k) ∧ ∃ xs ∈ xss, ∃ j,
      InCell g xs p j ∧ k ≤ j := by
  constructor
  · obtain ⟨xs, hxs, hpos, hle⟩ := exists_part_le h.card_pos h.upper
    obtain ⟨j, hj⟩ := hparts xs hxs hpos
    refine ⟨xs, hxs, j, hj, ?_⟩
    by_contra hlt
    have hcells : below xs (g (k + 1)) ≤ below xs (g j) :=
      below_mono xs (hg (by omega))
    have : (below xs (g j) : ℚ) < below xs (g (k + 1)) := hj.lower.trans_le hle
    exact absurd (Nat.cast_lt.mp this) (by omega)
  · obtain ⟨xs, hxs, hlt⟩ := exists_lt_part h.lower
    have hpos : 0 < xs.card := by
      by_contra hzero
      rw [show xs.card = 0 by omega, Nat.cast_zero, mul_zero] at hlt
      exact absurd hlt (not_lt.mpr (Nat.cast_nonneg _))
    obtain ⟨j, hj⟩ := hparts xs hxs hpos
    refine ⟨xs, hxs, j, hj, ?_⟩
    by_contra hgt
    have hcells : below xs (g (j + 1)) ≤ below xs (g k) :=
      below_mono xs (hg (by omega))
    have : (below xs (g k) : ℚ) < below xs (g (j + 1)) := hlt.trans_le hj.upper
    exact absurd (Nat.cast_lt.mp this) (by omega)

/-! ### Histograms -/

/-- The values of a sample are counted in ranges: each value in one range that
it lies in. -/
inductive Counted : List (α × α × ℤ) → Multiset α → Prop
  | nil : Counted [] 0
  | cons {lo hi : α} {rest : List (α × α × ℤ)} {ys xs : Multiset α}
      (hys : ∀ y ∈ ys, lo ≤ y ∧ y < hi) (hrest : Counted rest xs) :
      Counted ((lo, hi, (ys.card : ℤ)) :: rest) (ys + xs)

namespace Counted

variable {l l' : List (α × α × ℤ)} {xs ys : Multiset α}

/-- A histogram counts a multiset if its first range counts a part and the
others the rest. -/
theorem cons_iff {lo hi : α} {n : ℤ} : Counted ((lo, hi, n) :: l) xs ↔
    ∃ ys zs, (∀ y ∈ ys, lo ≤ y ∧ y < hi) ∧ Counted l zs ∧ n = ys.card ∧
      xs = ys + zs := by
  constructor
  · intro h
    cases h with
    | cons hys hrest => exact ⟨_, _, hys, hrest, rfl, rfl⟩
  · rintro ⟨ys, zs, hys, hrest, rfl, rfl⟩
    exact cons hys hrest

/-- The counts add up to the size of the sample. -/
theorem total (h : Counted l xs) : (l.map (fun b => b.2.2)).sum = xs.card := by
  induction h with
  | nil => rfl
  | cons hys _ ih =>
      rw [List.map_cons, List.sum_cons, ih, Multiset.card_add, Nat.cast_add]

/-- Every value lies in a range. -/
theorem exists_range (h : Counted l xs) :
    ∀ x ∈ xs, ∃ b ∈ l, b.1 ≤ x ∧ x < b.2.1 := by
  induction h with
  | nil => exact fun x hx => absurd hx (Multiset.notMem_zero x)
  | cons hys _ ih =>
      intro x hx
      rcases Multiset.mem_add.mp hx with hx | hx
      · exact ⟨_, List.mem_cons_self, hys x hx⟩
      · obtain ⟨b, hb, hrange⟩ := ih x hx
        exact ⟨b, List.mem_cons_of_mem _ hb, hrange⟩

/-- Two histograms count the sum. -/
theorem append (h : Counted l xs) (h' : Counted l' ys) :
    Counted (l ++ l') (xs + ys) := by
  induction h with
  | nil => rwa [List.nil_append, zero_add]
  | cons hys _ ih =>
      rw [add_assoc]
      exact cons hys ih

/-- The two parts of a histogram count two parts. -/
theorem of_append (h : Counted (l ++ l') xs) :
    ∃ ys zs, Counted l ys ∧ Counted l' zs ∧ xs = ys + zs := by
  induction l generalizing xs with
  | nil => exact ⟨0, xs, nil, h, (zero_add xs).symm⟩
  | cons b l ih =>
      obtain ⟨ws, vs, hws, hrest, hn, rfl⟩ := cons_iff.mp h
      obtain ⟨ys, zs, hys, hzs, rfl⟩ := ih hrest
      exact ⟨ws + ys, zs, cons_iff.mpr ⟨ws, ys, hws, hys, hn, rfl⟩, hzs,
        (add_assoc _ _ _).symm⟩

/-- The order of the ranges does not matter. -/
theorem perm (hp : l.Perm l') (h : Counted l xs) : Counted l' xs := by
  induction hp generalizing xs with
  | nil => exact h
  | cons b _ ih =>
      obtain ⟨ys, zs, hys, hrest, hn, rfl⟩ := cons_iff.mp h
      exact cons_iff.mpr ⟨ys, zs, hys, ih hrest, hn, rfl⟩
  | swap b c l =>
      obtain ⟨ys, ws, hys, hrest, hn, rfl⟩ := cons_iff.mp h
      obtain ⟨zs, vs, hzs, hvs, hm, rfl⟩ := cons_iff.mp hrest
      refine cons_iff.mpr ⟨zs, ys + vs, hzs,
        cons_iff.mpr ⟨ys, vs, hys, hvs, hn, rfl⟩, hm, ?_⟩
      rw [add_left_comm]
  | trans _ _ ih ih' => exact ih' (ih h)

/-- Two counts of one range are added. -/
theorem merge {lo hi : α} {n m : ℤ}
    (h : Counted ((lo, hi, n) :: (lo, hi, m) :: l) xs) :
    Counted ((lo, hi, n + m) :: l) xs := by
  obtain ⟨ys, ws, hys, hrest, rfl, rfl⟩ := cons_iff.mp h
  obtain ⟨zs, vs, hzs, hvs, rfl, rfl⟩ := cons_iff.mp hrest
  refine cons_iff.mpr ⟨ys + zs, vs, fun y hy => ?_, hvs, ?_,
    (add_assoc _ _ _).symm⟩
  · rcases Multiset.mem_add.mp hy with hy | hy
    · exact hys y hy
    · exact hzs y hy
  · rw [Multiset.card_add, Nat.cast_add]

/-- The histograms of several samples, one after the other. -/
theorem flatten {ls : List (List (α × α × ℤ))} {xss : List (Multiset α)}
    (h : List.Forall₂ Counted ls xss) : Counted ls.flatten xss.sum := by
  induction h with
  | nil => exact nil
  | cons hfirst _ ih => exact append hfirst ih

/-- **Where the counts reach the part that is asked for.**  The ranges are in
order, each is a cell of the grid, and the count reaches the part in the one
that is named. -/
theorem inCell (hg : StrictMono g) {pre post : List (α × α × ℤ)} {k : ℕ}
    {n : ℤ} {p : ℚ}
    (h : Counted (pre ++ (g k, g (k + 1), n) :: post) xs)
    (hcells : ∀ b ∈ pre, ∃ j, b.1 = g j ∧ b.2.1 = g (j + 1))
    (hpre : ∀ b ∈ pre, b.1 ≤ g k)
    (hpost : ∀ b ∈ post, g k ≤ b.1)
    (hlower : ((pre.map (fun b => b.2.2)).sum : ℤ) < p * xs.card)
    (hupper : p * xs.card ≤ ((pre.map (fun b => b.2.2)).sum + n : ℤ)) :
    InCell g xs p k := by
  obtain ⟨us, ws, hus, hrest, rfl⟩ := of_append h
  obtain ⟨ys, vs, hys, hvs, rfl, rfl⟩ := cons_iff.mp hrest
  rw [hus.total] at hlower hupper
  have hbefore : ∀ u ∈ us, u < g (k + 1) := by
    intro u hu
    obtain ⟨b, hb, -, hlt⟩ := hus.exists_range u hu
    obtain ⟨j, hj, hj'⟩ := hcells b hb
    have hjk : j ≤ k := hg.le_iff_le.mp (hj ▸ hpre b hb)
    exact (hj' ▸ hlt).trans_le (hg.monotone (by omega))
  have hafter : ∀ v ∈ vs, g k ≤ v := by
    intro v hv
    obtain ⟨b, hb, hle, -⟩ := hvs.exists_range v hv
    exact (hpost b hb).trans hle
  refine ⟨?_, ?_⟩
  · have hzero : Quantile.below (us + (ys + vs)) (g k) ≤ us.card := by
      rw [below_add, below_add, below_eq_zero fun y hy => (hys y hy).1,
        below_eq_zero hafter]
      have := below_le_card us (g k)
      omega
    exact (Nat.cast_le.mpr hzero).trans_lt (by exact_mod_cast hlower)
  · have hall : us.card + ys.card ≤
        Quantile.below (us + (ys + vs)) (g (k + 1)) := by
      rw [below_add, below_add, below_eq_card hbefore, below_eq_card fun y hy =>
        (hys y hy).2]
      omega
    refine le_trans hupper ?_
    exact_mod_cast hall

end Counted

end

end Quantile
