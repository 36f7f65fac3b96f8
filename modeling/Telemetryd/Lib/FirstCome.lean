import Mathlib.Data.List.Nodup
import Mathlib.Data.List.Pairwise
import Mathlib.Data.List.Perm.Basic

/-!
# First come, first served

Claimants stand in a row, and each takes the items that fit it and that nobody
before it has taken.  Nothing is taken twice.  What a claimant gets depends on
the row, unless no item fits two claimants; then everybody gets what fits.
-/

namespace FirstCome

variable {C T : Type*} [DecidableEq T]

/-- What each claimant of a row takes, if some items have already been taken. -/
def shares (fits : C → T → Bool) (items : List T) :
    List T → List C → List (List T)
  | _, [] => []
  | taken, c :: cs =>
      let mine := items.filter (fun t => fits c t && decide (t ∉ taken))
      mine :: shares fits items (taken ++ mine) cs

/-- No item fits two of the claimants. -/
def Exclusive (fits : C → T → Bool) (items : List T) (cs : List C) : Prop :=
  ∀ t ∈ items, ∀ c ∈ cs, ∀ d ∈ cs, fits c t = true → fits d t = true → c = d

section

variable {fits : C → T → Bool} {items : List T}

@[simp] theorem length_shares (taken : List T) (cs : List C) :
    (shares fits items taken cs).length = cs.length := by
  induction cs generalizing taken with
  | nil => rfl
  | cons c cs ih => simp [shares, ih]

/-- Nobody takes what does not fit. -/
theorem fits_of_mem_shares {taken : List T} {cs : List C} {entry : C × List T}
    (h : entry ∈ cs.zip (shares fits items taken cs)) {t : T}
    (ht : t ∈ entry.2) :
    fits entry.1 t = true := by
  induction cs generalizing taken with
  | nil => cases h
  | cons c cs ih =>
      rcases List.mem_cons.mp h with rfl | h
      · exact (Bool.and_eq_true_iff.mp (List.mem_filter.mp ht).2).1
      · exact ih h

/-- What has been taken is not taken again. -/
theorem notMem_of_taken {taken : List T} {cs : List C} {t : T}
    (ht : t ∈ taken) :
    ∀ s ∈ shares fits items taken cs, t ∉ s := by
  induction cs generalizing taken with
  | nil => exact List.forall_mem_nil _
  | cons c cs ih =>
      refine List.forall_mem_cons.mpr ⟨?_, ih (List.mem_append_left _ ht)⟩
      intro hmem
      simp [ht] at hmem

/-- **Nothing is taken twice.** -/
theorem pairwise_shares (taken : List T) (cs : List C) :
    (shares fits items taken cs).Pairwise List.Disjoint := by
  induction cs generalizing taken with
  | nil => exact List.Pairwise.nil
  | cons c cs ih =>
      refine List.pairwise_cons.mpr ⟨?_, ih _⟩
      intro s hs t ht hts
      exact notMem_of_taken (List.mem_append_right _ ht) s hs hts

/-- **Whoever is exclusive gets what fits.** -/
theorem shares_of_exclusive {taken : List T} {cs : List C} (hcs : cs.Nodup)
    (hexclusive : Exclusive fits items cs)
    (htaken : ∀ t ∈ taken, ∀ c ∈ cs, fits c t = false) :
    shares fits items taken cs = cs.map (fun c => items.filter (fits c)) := by
  induction cs generalizing taken with
  | nil => rfl
  | cons c cs ih =>
      obtain ⟨hc, hcs⟩ := List.nodup_cons.mp hcs
      have hmine : items.filter (fun t => fits c t && decide (t ∉ taken)) =
          items.filter (fits c) := by
        apply List.filter_congr
        intro t _
        by_cases ht : t ∈ taken
        · simp [htaken t ht c List.mem_cons_self]
        · simp [ht]
      have hothers : ∀ t ∈ taken ++ items.filter (fits c), ∀ d ∈ cs,
          fits d t = false := by
        intro t ht d hd
        rcases List.mem_append.mp ht with ht | ht
        · exact htaken t ht d (List.mem_cons_of_mem _ hd)
        · obtain ⟨hmem, hfits⟩ := List.mem_filter.mp ht
          by_contra hother
          obtain rfl :=
            hexclusive t hmem c List.mem_cons_self d (List.mem_cons_of_mem _ hd)
            hfits
            (by simpa using hother)
          exact hc hd
      have hrest := ih hcs
        (fun t ht d hd e he =>
          hexclusive t ht d (List.mem_cons_of_mem _ hd) e
          (List.mem_cons_of_mem _ he))
        hothers
      simp only [shares, hmine, hrest, List.map_cons]

/-- An exclusive row may be in any order. -/
theorem zip_shares_perm {cs cs' : List C} (hcs : cs.Nodup)
    (hexclusive : Exclusive fits items cs)
    (hperm : cs'.Perm cs) :
    (cs'.zip (shares fits items [] cs')).Perm
      (cs.zip (shares fits items [] cs)) := by
  have hexclusive' : Exclusive fits items cs' :=
    fun t ht c hc d hd =>
      hexclusive t ht c (hperm.mem_iff.mp hc) d (hperm.mem_iff.mp hd)
  rw [shares_of_exclusive hcs hexclusive (List.forall_mem_nil _),
    shares_of_exclusive (hperm.nodup_iff.mpr hcs) hexclusive'
      (List.forall_mem_nil _),
    ← List.map_prod_left_eq_zip, ← List.map_prod_left_eq_zip]
  exact hperm.map _

/-- A claimant of a row gets an item. -/
def Gets (fits : C → T → Bool) (items : List T) (cs : List C) (c : C) (t : T) :
    Prop :=
  ∃ s, (c, s) ∈ cs.zip (shares fits items [] cs) ∧ t ∈ s

/-- The first of a row gets what fits. -/
theorem gets_first {c : C} {t : T} (ht : t ∈ items) (hfits : fits c t = true)
    (cs : List C) :
    Gets fits items (c :: cs) c t := by
  refine ⟨_, List.mem_cons_self, ?_⟩
  simp [ht, hfits]

/-- An item goes to one claimant. -/
theorem eq_of_gets {cs : List C} {c d : C} {t : T} (hc : Gets fits items cs c t)
    (hd : Gets fits items cs d t) : c = d := by
  obtain ⟨s, hs, hts⟩ := hc
  obtain ⟨s', hs', hts'⟩ := hd
  have hpairs :
      (cs.zip (shares fits items [] cs)).Pairwise (fun x y =>
      x.2.Disjoint y.2) := by
    apply List.pairwise_map.mp
    rw [List.map_snd_zip (Nat.le_of_eq (length_shares _ _))]
    exact pairwise_shares _ _
  have hsymm : Std.Symm (fun x y : C × List T => x.2.Disjoint y.2) :=
    ⟨fun _ _ h => List.disjoint_symm h⟩
  by_contra hne
  have hdisjoint :=
    hpairs.forall hs hs' (fun heq => hne (congrArg Prod.fst heq))
  exact hdisjoint hts hts'

/-- **Only an exclusive row may be in any order.** -/
theorem exclusive_of_gets {cs : List C}
    (h : ∀ cs' : List C, cs'.Perm cs → ∀ c t, Gets fits items cs' c t →
      Gets fits items cs c t) :
    Exclusive fits items cs := by
  classical
  intro t ht c hc d hd hfitc hfitd
  have hget : ∀ e ∈ cs, fits e t = true → Gets fits items cs e t :=
    fun e he hfit =>
    h (e :: cs.erase e) (List.perm_cons_erase he).symm e t
      (gets_first ht hfit _)
  exact eq_of_gets (hget c hc hfitc) (hget d hd hfitd)

end

end FirstCome
