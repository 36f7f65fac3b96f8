import Mathlib.Data.Nat.Basic
import Mathlib.Algebra.Order.Group.Nat
import Telemetryd.Lib.Memory

/-!
# Walking page tables

An address is translated by a walk from table to table: each level is indexed by
the bits of the address from some shift on, and its entry maps a page of that
size or names the next table.  Within the page that a walk finds, the addresses
that follow are translated to those that follow.  So what is copied page by page
is what is copied byte by byte, whatever the sizes of the pages.
-/

namespace PageWalk

open Memory

section

variable {T E : Type*}

/-- What the entries of the tables mean.  `leaf` is asked at a level, which is
given by its shift. -/
structure Format (T E : Type*) where
  width : Nat
  present : E → Bool
  leaf : Nat → E → Bool
  frame : E → Nat
  next : E → T

/-- How a walk goes: a format without the frames of its pages. -/
structure Levels (T E : Type*) where
  width : Nat
  present : E → Bool
  leaf : Nat → E → Bool
  next : E → T

/-- The levels that a format walks. -/
def Format.levels (f : Format T E) : Levels T E :=
  ⟨f.width, f.present, f.leaf, f.next⟩

variable (f : Format T E) (l : Levels T E) (entry : T → Nat → E) (va : Nat)

/-- The entry that maps an address and the shift of its level, `none` where an
entry on the way is not present. -/
def mapping : List Nat → T → Option (E × Nat)
  | [], _ => none
  | shift :: shifts, table =>
      let e := entry table (va / 2 ^ shift % l.width)
      if l.present e then
        if l.leaf shift e then some (e, shift) else mapping shifts (l.next e)
      else none

/-- Every entry that is looked at has a property, which may depend on its
level. -/
def OnWalk (P : Nat → E → Prop) : List Nat → T → Prop
  | [], _ => True
  | shift :: shifts, table =>
      let e := entry table (va / 2 ^ shift % l.width)
      P shift e ∧ (l.present e = true → l.leaf shift e = false →
        OnWalk P shifts (l.next e))

instance decidableOnWalk
    (P : Nat → E → Prop) [∀ shift e, Decidable (P shift e)] :
    ∀ shifts table, Decidable (OnWalk l entry va P shifts table)
  | [], _ => isTrue trivial
  | shift :: shifts, table =>
      have := decidableOnWalk P shifts
        (l.next (entry table (va / 2 ^ shift % l.width)))
      inferInstanceAs
        (Decidable (P shift (entry table (va / 2 ^ shift % l.width)) ∧ (_ → _ →
        OnWalk l entry va P shifts
          (l.next (entry table (va / 2 ^ shift % l.width))))))

/-- Where an address is and how large its page is, `none` where an entry on the
way is not present. -/
def walk : List Nat → T → Option (Nat × Nat)
  | [], _ => none
  | shift :: shifts, table =>
      let e := entry table (va / 2 ^ shift % f.width)
      if f.present e then
        if f.leaf shift e then some (f.frame e + va % 2 ^ shift, 2 ^ shift)
        else walk shifts (f.next e)
      else none

/-- The entries that are looked at. -/
def visited : List Nat → T → List (T × Nat)
  | [], _ => []
  | shift :: shifts, table =>
      let index := va / 2 ^ shift % f.width
      let e := entry table index
      (table, index) ::
        if f.present e && !f.leaf shift e then visited shifts (f.next e) else []

variable {f l entry va}

/-- The page is that of the entry that maps the address. -/
theorem walk_eq_mapping (shifts : List Nat) (table : T) :
    walk f entry va shifts table = (mapping f.levels entry va shifts table).map
      (fun m => (f.frame m.1 + va % 2 ^ m.2, 2 ^ m.2)) := by
  induction shifts generalizing table with
  | nil => rfl
  | cons shift shifts ih =>
      rw [walk, mapping]
      cases hpresent : f.present (entry table (va / 2 ^ shift % f.width)) with
      | false => simp [Format.levels, hpresent]
      | true =>
          cases hleaf :
            f.leaf shift (entry table (va / 2 ^ shift % f.width)) with
          | false => simpa [Format.levels, hpresent, hleaf] using ih _
          | true => simp [Format.levels, hpresent, hleaf]

/-- Formats that mean the same by their entries map by the same ones. -/
theorem mapping_congr {l' : Levels T E} {shifts : List Nat}
    (hwidth : l.width = l'.width)
    (hpresent : ∀ e, l.present e = l'.present e)
    (hleaf : ∀ shift ∈ shifts, ∀ e, l.leaf shift e = l'.leaf shift e)
    (hnext : ∀ e, l.next e = l'.next e) (table : T) :
    mapping l entry va shifts table = mapping l' entry va shifts table := by
  induction shifts generalizing table with
  | nil => rfl
  | cons shift shifts ih =>
      have hrest := ih fun s hs => hleaf s (List.mem_cons_of_mem _ hs)
      simp only [mapping, hwidth, hpresent, hleaf shift List.mem_cons_self,
        hnext, hrest]

/-- What holds on the way holds of the entry that maps the address. -/
theorem OnWalk.of_mapping {P : Nat → E → Prop} {shifts : List Nat} {table : T}
    {m : E × Nat}
    (h : OnWalk l entry va P shifts table)
    (hm : mapping l entry va shifts table = some m) :
    m.2 ∈ shifts ∧ P m.2 m.1 ∧ l.present m.1 = true ∧
      l.leaf m.2 m.1 = true := by
  induction shifts generalizing table with
  | nil => cases hm
  | cons shift shifts ih =>
      rw [mapping] at hm
      obtain ⟨hfirst, hrest⟩ := h
      split at hm
      case isTrue hpresent =>
        split at hm
        case isTrue hleaf =>
          cases hm
          exact ⟨List.mem_cons_self, hfirst, hpresent, hleaf⟩
        case isFalse hleaf =>
          obtain ⟨hmem, hp⟩ := ih (hrest hpresent (by simpa using hleaf)) hm
          exact ⟨List.mem_cons_of_mem _ hmem, hp⟩
      case isFalse => cases hm

/-- **Unmapped means not present**: at some level, if the last one always
maps. -/
theorem mapping_eq_none_iff {shifts : List Nat} {last : Nat}
    (hlast : shifts.getLast? = some last) (hleaf : ∀ e, l.leaf last e = true)
    (table : T) :
    mapping l entry va shifts table = none ↔
      ¬ OnWalk l entry va (fun _ e => l.present e = true) shifts table := by
  induction shifts generalizing table with
  | nil => cases hlast
  | cons shift shifts ih =>
      simp only [mapping, OnWalk]
      by_cases hpresent :
        l.present (entry table (va / 2 ^ shift % l.width)) = true
      case neg => simp [hpresent]
      by_cases hmaps : l.leaf shift (entry table (va / 2 ^ shift % l.width)) =
        true
      case pos => simp [hpresent, hmaps]
      cases shifts with
      | nil =>
          cases hlast
          exact absurd (hleaf _) hmaps
      | cons next shifts =>
          have hrest :=
            ih hlast (l.next (entry table (va / 2 ^ shift % l.width)))
          simp only [hpresent, hmaps, if_true, Bool.false_eq_true, if_false,
            true_and, forall_const]
          exact hrest

/-- The size of a page is that of a level. -/
theorem size_of_walk {shifts : List Nat} {table : T} {pa size : Nat}
    (h : walk f entry va shifts table = some (pa, size)) :
    ∃ shift ∈ shifts, size = 2 ^ shift := by
  induction shifts generalizing table with
  | nil => cases h
  | cons shift shifts ih =>
      rw [walk] at h
      split at h
      · split at h
        · cases h
          exact ⟨shift, List.mem_cons_self, rfl⟩
        · obtain ⟨s, hs, hsize⟩ := ih h
          exact ⟨s, List.mem_cons_of_mem _ hs, hsize⟩
      · cases h

/-- The bits above a page do not change within it. -/
theorem div_pow_add {va k shift s : Nat} (hs : s ≤ shift)
    (hk : va % 2 ^ s + k < 2 ^ s) :
    (va + k) / 2 ^ shift = va / 2 ^ shift := by
  have hblock : (va + k) / 2 ^ s = va / 2 ^ s := by
    have hsplit : va + k = 2 ^ s * (va / 2 ^ s) + (va % 2 ^ s + k) := by
      have := Nat.div_add_mod va (2 ^ s)
      omega
    rw [hsplit, Nat.mul_add_div (Nat.two_pow_pos s), Nat.div_eq_of_lt hk,
      Nat.add_zero]
  obtain ⟨d, rfl⟩ : ∃ d, shift = s + d := ⟨shift - s, by omega⟩
  rw [Nat.pow_add, ← Nat.div_div_eq_div_mul, ← Nat.div_div_eq_div_mul, hblock]

/-- **Within a page the translation goes on**, from the largest pages down. -/
theorem walk_add {shifts : List Nat}
    (hshifts : shifts.Pairwise (fun a b => b ≤ a)) {table : T}
    {pa size : Nat} (h : walk f entry va shifts table = some (pa, size))
    {k : Nat}
    (hk : va % size + k < size) :
    walk f entry (va + k) shifts table = some (pa + k, size) := by
  induction shifts generalizing table with
  | nil => cases h
  | cons shift shifts ih =>
      obtain ⟨hle, hrest⟩ := List.pairwise_cons.mp hshifts
      obtain ⟨s, hs, rfl⟩ := size_of_walk h
      have hsle : s ≤ shift := by
        rcases List.mem_cons.mp hs with rfl | hs
        · exact Nat.le_refl _
        · exact hle s hs
      rw [walk] at h ⊢
      rw [div_pow_add hsle hk]
      split at h
      case isTrue hpresent =>
        rw [if_pos hpresent]
        split at h
        case isTrue hleaf =>
          rw [if_pos hleaf]
          obtain ⟨rfl, hsize⟩ := Prod.mk.inj (Option.some.inj h)
          rw [hsize]
          rw [← hsize] at hk ⊢
          have hmod : (va + k) % 2 ^ shift = va % 2 ^ shift + k := by
            have hdiv := div_pow_add (Nat.le_refl shift) hk
            have h1 := Nat.div_add_mod va (2 ^ shift)
            have h2 := Nat.div_add_mod (va + k) (2 ^ shift)
            rw [hdiv] at h2
            omega
          rw [hmod, Nat.add_assoc]
        case isFalse hleaf =>
          rw [if_neg hleaf]
          exact ih hrest h
      case isFalse => cases h

end

/-! ### Bytes -/

section

variable {A B : Type*} (ram : A → B) (translate : Nat → Option A)

/-- The bytes of `n` addresses, up to the first that is not mapped. -/
def bytewise : Nat → Nat → List B
  | 0, _ => []
  | n + 1, va =>
      match translate va with
      | some pa => ram pa :: bytewise n (va + 1)
      | none => []

theorem bytewise_none {va : Nat} (h : translate va = none) (n : Nat) :
    bytewise ram translate n va = [] := by
  cases n with
  | zero => rfl
  | succ n => simp only [bytewise, h]

/-- **A mapped block first.** -/
theorem bytewise_add {va : Nat} {addr : Nat → A} {m : Nat}
    (h : ∀ k < m, translate (va + k) = some (addr k)) (n : Nat) :
    bytewise ram translate (m + n) va =
      gather ram addr m ++ bytewise ram translate n (va + m) := by
  induction m generalizing va addr with
  | zero =>
      rw [Nat.zero_add]
      rfl
  | succ m ih =>
      have hfirst : translate va = some (addr 0) := h 0 (by omega)
      have hshifted :
          ∀ k < m, translate (va + 1 + k) =
          some ((fun k => addr (k + 1)) k) := by
        intro k hk
        rw [Nat.add_assoc, Nat.add_comm 1 k]
        exact h (k + 1) (by omega)
      have hrest := ih hshifted
      rw [show m + 1 + n = (m + n) + 1 by omega, bytewise, hfirst, gather_succ]
      dsimp only
      rw [hrest, List.cons_append, show va + 1 + m = va + (m + 1) by omega]

end

end PageWalk
