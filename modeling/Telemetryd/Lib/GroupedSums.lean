import Mathlib.Algebra.BigOperators.Group.List.Lemmas
import Mathlib.Algebra.Order.BigOperators.Group.List
import Mathlib.Algebra.Order.Group.Nat
import Mathlib.Algebra.Ring.Nat
import Mathlib.Data.List.Nodup
import Telemetryd.Lib.OrderedDict

/-!
# Sums by group

The elements of a list are grouped by a key, and the groups are summed.  Over
distinct keys nothing is lost and nothing is counted twice.
-/

namespace Telemetryd.GroupedSums

variable {α κ M : Type*} [DecidableEq κ] [AddCommMonoid M]

/-- The sum over the elements with one key. -/
def groupSum (key : α → κ) (value : α → M) (l : List α) (k : κ) : M :=
  ((l.filter (fun a => decide (key a = k))).map value).sum

variable (key : α → κ) (value : α → M)

@[simp] theorem groupSum_nil (k : κ) : groupSum key value [] k = 0 := rfl

theorem groupSum_cons (a : α) (l : List α) (k : κ) :
    groupSum key value (a :: l) k = (if key a = k then value a
      else 0) + groupSum key value l k := by
  unfold groupSum
  by_cases h : key a = k
  · simp [h]
  · simp [h]

theorem groupSum_append (l l' : List α) (k : κ) :
    groupSum key value (l ++ l') k = groupSum key value l k +
      groupSum key value l' k := by
  simp [groupSum]

/-- One value counted at its key. -/
theorem sum_map_single {ks : List κ} (hks : ks.Nodup) (k : κ) (v : M) :
    (ks.map (fun k' => if k = k' then v else 0)).sum = if k ∈ ks then v
      else 0 := by
  induction ks with
  | nil => rfl
  | cons k' ks ih =>
      obtain ⟨hnot, hks⟩ := List.nodup_cons.mp hks
      rw [List.map_cons, List.sum_cons, ih hks]
      by_cases h : k = k'
      · subst h
        simp [hnot]
      · simp [h]

/-- **The groups of distinct keys add up** to the sum over the elements that
have one of the keys. -/
theorem sum_groupSum {ks : List κ} (hks : ks.Nodup) {l : List α} {p : α → Bool}
    (hp : ∀ a ∈ l, p a = true ↔ key a ∈ ks) :
    (ks.map (groupSum key value l)).sum = ((l.filter p).map value).sum := by
  induction l with
  | nil =>
      have hzero : ks.map (groupSum key value []) = ks.map (fun _ => 0) :=
        List.map_congr_left fun k _ => groupSum_nil key value k
      simp [hzero]
  | cons a l ih =>
      have hsplit : ks.map (groupSum key value (a :: l))
          = ks.map (fun k =>
            (if key a = k then value a else 0) + groupSum key value l k) :=
        List.map_congr_left fun k _ => groupSum_cons key value a l k
      have ha := hp a List.mem_cons_self
      rw [hsplit, List.sum_map_add, sum_map_single hks,
        ih (fun b hb => hp b (List.mem_cons_of_mem _ hb))]
      by_cases h : key a ∈ ks
      · rw [if_pos h, List.filter_cons_of_pos (ha.mpr h), List.map_cons,
          List.sum_cons]
      · rw [if_neg h, List.filter_cons_of_neg (fun hpa => h (ha.mp hpa)),
          zero_add]

/-- When every element has one of the keys, the groups add up to the whole. -/
theorem sum_groupSum_of_forall {ks : List κ} (hks : ks.Nodup) {l : List α}
    (h : ∀ a ∈ l, key a ∈ ks) :
    (ks.map (groupSum key value l)).sum = (l.map value).sum := by
  have hall : l.filter (fun _ => true) = l :=
    List.filter_eq_self.mpr fun _ _ => rfl
  rw [sum_groupSum key value hks (fun a ha => iff_of_true rfl (h a ha)), hall]

/-- A group that is part of a larger one has a smaller sum. -/
theorem groupSum_filter_le {κ' : Type*} [DecidableEq κ'] {key : α → κ}
    {key' : α → κ'} {f g : α → Nat}
    {p q : α → Bool} {k : κ} {k' : κ'}
    (h : ∀ a, p a = true → key a = k → q a = true ∧ key' a = k' ∧ f a ≤ g a)
    (l : List α) :
    groupSum key f (l.filter p) k ≤ groupSum key' g (l.filter q) k' := by
  induction l with
  | nil => exact Nat.le_refl _
  | cons a l ih =>
      by_cases hp : p a = true
      · rw [List.filter_cons_of_pos hp, groupSum_cons]
        by_cases hk : key a = k
        · obtain ⟨hq, hk', hle⟩ := h a hp hk
          rw [List.filter_cons_of_pos hq, groupSum_cons, if_pos hk, if_pos hk']
          exact Nat.add_le_add hle ih
        · rw [if_neg hk, Nat.zero_add]
          refine ih.trans ?_
          by_cases hq : q a = true
          · rw [List.filter_cons_of_pos hq, groupSum_cons]
            exact Nat.le_add_left _ _
          · rw [List.filter_cons_of_neg hq]
      · rw [List.filter_cons_of_neg hp]
        refine ih.trans ?_
        by_cases hq : q a = true
        · rw [List.filter_cons_of_pos hq, groupSum_cons]
          exact Nat.le_add_left _ _
        · rw [List.filter_cons_of_neg hq]

/-- A group of small values is small. -/
theorem groupSum_le_length {key : α → κ} {f : α → Nat} {b : Nat}
    (h : ∀ a, f a ≤ b) (l : List α) (k : κ) :
    groupSum key f l k ≤ l.length * b := by
  induction l with
  | nil => exact Nat.zero_le _
  | cons a l ih =>
      have ha := h a
      rw [groupSum_cons, List.length_cons, Nat.add_mul, Nat.one_mul]
      split <;> omega

/-- How many elements have a key. -/
theorem groupSum_one (key : α → κ) (l : List α) (k : κ) :
    groupSum key (fun _ => 1) l k =
      (l.filter (fun a => decide (key a = k))).length := by
  unfold groupSum
  rw [List.map_const', List.sum_replicate_nat, Nat.mul_one]

/-- Groups of larger values have larger sums. -/
theorem groupSum_mono {key : α → κ} {f g : α → Nat} (h : ∀ a, f a ≤ g a)
    (l : List α) (k : κ) :
    groupSum key f l k ≤ groupSum key g l k := List.sum_le_sum fun a _ => h a

theorem groupSum_eq_zero {l : List α} {k : κ} (h : ∀ a ∈ l, key a ≠ k) :
    groupSum key value l k = 0 := by
  unfold groupSum
  rw [List.filter_eq_nil_iff.mpr fun a ha => by simpa using h a ha]
  rfl

theorem groupSum_perm {l l' : List α} (h : l.Perm l') (k : κ) :
    groupSum key value l k = groupSum key value l' k :=
  ((h.filter _).map value).sum_eq

theorem groupSum_natCast (value : α → Nat) (l : List α) (k : κ) :
    groupSum key (fun a => (value a : Int)) l k = groupSum key value l k := by
  induction l with
  | nil => rfl
  | cons a l ih =>
      rw [groupSum_cons, groupSum_cons, ih, Int.natCast_add]
      split <;> rfl

theorem groupSum_map {β : Type*} (f : β → α) (l : List β) (k : κ) :
    groupSum key value (l.map f) k = groupSum (key ∘ f) (value ∘ f) l k := by
  unfold groupSum
  rw [List.filter_map, List.map_map]
  rfl

/-! ### Parts -/

/-- A value counted in the one part its key is in. -/
theorem sum_part_single {parts : List (List κ)}
    (hparts : parts.Pairwise List.Disjoint) {k : κ}
    (hk : ∃ p ∈ parts, k ∈ p) (v : M) :
    (parts.map (fun p => if k ∈ p then v else 0)).sum = v := by
  induction parts with
  | nil =>
      obtain ⟨p, hp, -⟩ := hk
      exact absurd hp List.not_mem_nil
  | cons p parts ih =>
      obtain ⟨hp, hrest⟩ := List.pairwise_cons.mp hparts
      rw [List.map_cons, List.sum_cons]
      by_cases hmem : k ∈ p
      · have hnone : parts.map (fun p => if k ∈ p then v else 0) =
            parts.map (fun _ => 0) :=
          List.map_congr_left fun q hq => if_neg (hp q hq hmem)
        simp [hmem, hnone]
      · have hlater : ∃ q ∈ parts, k ∈ q := by
          obtain ⟨q, hq, hkq⟩ := hk
          rcases List.mem_cons.mp hq with rfl | hq
          · exact absurd hkq hmem
          · exact ⟨q, hq, hkq⟩
        rw [if_neg hmem, zero_add]
        exact ih hrest hlater

/-- **Disjoint parts that cover everything add up** to the whole. -/
theorem sum_parts {parts : List (List κ)}
    (hparts : parts.Pairwise List.Disjoint) {l : List α}
    (hcover : ∀ a ∈ l, ∃ p ∈ parts, key a ∈ p) :
    (parts.map (fun p =>
      (l.filterMap (fun a => if key a ∈ p then some (value a)
      else none)).sum)).sum
      = (l.map value).sum := by
  induction l with
  | nil => simp
  | cons a l ih =>
      have hsplit : ∀ p ∈ parts,
          ((a :: l).filterMap (fun a => if key a ∈ p then some (value a)
            else none)).sum
            = (if key a ∈ p then value a else 0)
              + (l.filterMap (fun a => if key a ∈ p then some (value a)
                else none)).sum := by
        intro p _
        rw [List.filterMap_cons]
        by_cases hmem : key a ∈ p
        · simp [hmem]
        · simp [hmem]
      rw [List.map_congr_left hsplit, List.sum_map_add,
        sum_part_single hparts (hcover a List.mem_cons_self),
        ih fun b hb => hcover b (List.mem_cons_of_mem _ hb), List.map_cons,
        List.sum_cons]

/-! ### Sums in a dictionary -/

/-- `d[k] = d.get(k, 0) + v` -/
def bump (d : OrderedDict κ M) (e : κ × M) : OrderedDict κ M :=
  d.insert e.1 ((d.get? e.1).getD 0 + e.2)

/-- **Counting into a dictionary.** -/
theorem get?_foldl_bump (es : List (κ × M)) (d : OrderedDict κ M) (k : κ) :
    (es.foldl bump d).get? k = if k ∈ es.map Prod.fst then
        some ((d.get? k).getD 0 + groupSum Prod.fst Prod.snd es k)
          else d.get? k := by
  induction es generalizing d with
  | nil => simp
  | cons e es ih =>
      rw [List.foldl_cons, ih, groupSum_cons]
      unfold bump
      rw [OrderedDict.get?_insert]
      by_cases hk : k = e.1
      · subst hk
        by_cases hmem : e.1 ∈ es.map Prod.fst
        · simp [hmem, add_assoc]
        · have hzero : groupSum Prod.fst Prod.snd es e.1 = 0 :=
            groupSum_eq_zero _ _ fun a ha heq =>
              hmem (heq ▸ List.mem_map_of_mem ha)
          simp [hmem, hzero]
      · have hne : ¬ e.1 = k := fun h => hk h.symm
        simp only [List.map_cons, List.mem_cons, hk, false_or, if_false, hne,
          zero_add]

/-- The values add up to what was counted. -/
theorem sum_values_of_get? {d : OrderedDict κ M} {es : List (κ × M)}
    (h : ∀ k, d.get? k =
      if k ∈ es.map Prod.fst then some (groupSum Prod.fst Prod.snd es k)
      else none) :
    d.values.sum = (es.map Prod.snd).sum := by
  have hvalues : d.values = d.keys.map (groupSum Prod.fst Prod.snd es) := by
    unfold OrderedDict.values OrderedDict.keys
    rw [List.map_map]
    refine List.map_congr_left fun e he => ?_
    have hget := (h e.1).symm.trans (OrderedDict.get?_eq_some_iff.mpr he)
    by_cases hmem : e.1 ∈ es.map Prod.fst
    · rw [if_pos hmem] at hget
      exact (Option.some.inj hget).symm
    · rw [if_neg hmem] at hget
      exact absurd hget (by simp)
  rw [hvalues, sum_groupSum_of_forall _ _ d.keys_nodup]
  intro e he
  exact OrderedDict.mem_keys_iff.mpr ⟨_,
    (h e.1).trans (if_pos (List.mem_map_of_mem he))⟩

/-- Entries with distinct keys are stored as they are. -/
theorem items_foldl_bump {es : List (κ × M)} (h : (es.map Prod.fst).Nodup) :
    (es.foldl bump (OrderedDict.empty : OrderedDict κ M)).items = es := by
  have hall : ∀ (es : List (κ × M)) (d : OrderedDict κ M),
      (d.keys ++ es.map Prod.fst).Nodup →
      (es.foldl bump d).items = d.items ++ es := by
    intro es
    induction es with
    | nil => simp
    | cons e es ih =>
        intro d hd
        have hnot : e.1 ∉ d.keys := by
          intro hmem
          exact (List.nodup_append.mp hd).2.2 _ hmem _ List.mem_cons_self rfl
        have hbump : bump d e = d.insert e.1 e.2 := by
          unfold bump
          rw [OrderedDict.get?_eq_none_iff.mpr hnot, Option.getD_none, zero_add]
        have hkeys : (d.insert e.1 e.2).keys = d.keys ++ [e.1] := by
          unfold OrderedDict.keys
          rw [OrderedDict.items_insert_of_notMem hnot, List.map_append]
          rfl
        rw [List.foldl_cons, hbump, ih _ (by rw [hkeys]; simpa using hd),
          OrderedDict.items_insert_of_notMem hnot]
        simp
  have := hall es .empty (by simpa using h)
  simpa using this

/-- The group of a key among entries with distinct keys is its value. -/
theorem groupSum_look {V : Type*} (f : V → M) {l : List (κ × V)}
    (h : (l.map Prod.fst).Nodup)
    (k : κ) : groupSum Prod.fst (fun e => f e.2) l k =
      ((OrderedDict.look k l).map f).getD 0 := by
  induction l with
  | nil => rfl
  | cons e l ih =>
      obtain ⟨hnot, hl⟩ := List.nodup_cons.mp h
      rw [groupSum_cons, OrderedDict.look_cons, ih hl]
      by_cases hk : e.1 = k
      · have hnone : OrderedDict.look k l = none :=
          OrderedDict.look_eq_none_iff.mpr (hk ▸ hnot)
        rw [if_pos hk, if_pos hk, hnone]
        simp
      · rw [if_neg hk, if_neg hk, zero_add]

/-- The group of a key among the entries of a dictionary is its value. -/
theorem groupSum_items {V : Type*} (d : OrderedDict κ V) (f : V → M) (k : κ) :
    groupSum Prod.fst (fun e => f e.2) d.items k = ((d.get? k).map f).getD 0 :=
  groupSum_look f d.nodup k

end Telemetryd.GroupedSums
