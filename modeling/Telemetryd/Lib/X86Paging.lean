import Mathlib.Data.Nat.Bitwise
import Mathlib.Tactic.Ring
import Telemetryd.Lib.PageWalk

/-!
# Four-level paging of x86-64

An entry is a word of 64 bits.  Bit 0 says that it is present, and bit 7 of a
PDPT or PD entry that it maps a page of 1 GiB or 2 MiB.  The address of a table
is in the bits 51 to 12, and that of a page in the bits from 51 down to the size
of the page; below them a large page has its PAT bit at 12, and zeros.  All
other bits are attributes, or free for software.
-/

namespace X86Paging

open PageWalk

/-- The bits `hi` to `lo` of a word, where they stand. -/
def bits (e hi lo : Nat) : Nat := e / 2 ^ lo % 2 ^ (hi + 1 - lo) * 2 ^ lo

/-- The levels PML4, PDPT, PD and PT, by the lowest bit of their index. -/
def shifts : List Nat := [39, 30, 21, 12]

/-- The four levels of the page tables. -/
def levels (T : Type*) [NatCast T] : Levels T Nat where
  width := 512
  present e := e.testBit 0
  leaf shift e := shift == 12 || (shift == 30 || shift == 21) && e.testBit 7
  next e := (bits e 51 12 : T)

/-- The reserved bits of an entry are zero: bit 7 at the highest level, and for
a large page those between its PAT bit and its address. -/
def ReservedZero (shift e : Nat) : Prop :=
  (shift = 39 → e.testBit 7 = false) ∧
    ((shift = 30 ∨ shift = 21) → e.testBit 7 = true → bits e (shift - 1) 13 = 0)

instance (shift e : Nat) : Decidable (ReservedZero shift e) :=
  inferInstanceAs (Decidable ((_ → _) ∧ (_ → _ → _)))

/-- The address of the page of an entry. -/
def pageBase (e shift : Nat) : Nat := bits e 51 shift

variable {T : Type*} [NatCast T]

/-- The entry that maps an address, and the shift of its level. -/
def mappingOf (entry : T → Nat → Nat) (va : Nat) (root : T) :
    Option (Nat × Nat) :=
  mapping (levels T) entry va shifts root

/-- The physical address of a virtual one and the size of its page. -/
def physical (entry : T → Nat → Nat) (va : Nat) (root : T) :
    Option (Nat × Nat) :=
  (mappingOf entry va root).map (fun m =>
    (pageBase m.1 m.2 + va % 2 ^ m.2, 2 ^ m.2))

/-- No present entry that is looked at for an address has a reserved bit. -/
def Legal (entry : T → Nat → Nat) (va : Nat) (root : T) : Prop :=
  OnWalk (levels T) entry va (fun shift e => e.testBit 0 = true →
    ReservedZero shift e) shifts root

instance (entry : T → Nat → Nat) (va : Nat) (root : T) :
    Decidable (Legal entry va root) :=
  decidableOnWalk _ _ _ _ _ _

/-- Every entry that is looked at for an address is present. -/
def AllPresent (entry : T → Nat → Nat) (va : Nat) (root : T) : Prop :=
  OnWalk (levels T) entry va (fun _ e => e.testBit 0 = true) shifts root

/-- The address is in a large page with its PAT bit. -/
def PatOfLargePage (entry : T → Nat → Nat) (va : Nat) (root : T) : Prop :=
  ∃ e shift, mappingOf entry va root = some (e, shift) ∧ 12 < shift ∧
    e.testBit 12 = true

variable {entry : T → Nat → Nat} {va : Nat} {root : T}

/-- **No translation means a level that is not present.** -/
theorem physical_eq_none_iff :
    physical entry va root = none ↔ ¬ AllPresent entry va root := by
  unfold physical mappingOf AllPresent
  rw [Option.map_eq_none_iff]
  exact mapping_eq_none_iff rfl (fun _ => rfl) root

/-- The entry of a mapped address has the level of a page, and zeros where it
has to. -/
theorem Legal.of_mapping (h : Legal entry va root) {e shift : Nat}
    (hm : mappingOf entry va root = some (e, shift)) :
    shift = 12 ∨ ((shift = 30 ∨ shift = 21) ∧ bits e (shift - 1) 13 = 0) := by
  obtain ⟨-, hzero, hpresent, hleaf⟩ := OnWalk.of_mapping h hm
  have hreserved := hzero hpresent
  simp only [levels, Bool.or_eq_true, Bool.and_eq_true, beq_iff_eq] at hleaf
  rcases hleaf with h12 | ⟨hlarge, hps⟩
  · exact Or.inl h12
  · exact Or.inr ⟨hlarge, hreserved.2 hlarge hps⟩

/-- A row of bits in two parts. -/
theorem bits_split (e hi mid lo : Nat) (hlo : lo < mid) (hhi : mid ≤ hi + 1) :
    bits e hi lo = bits e hi mid + bits e (mid - 1) lo := by
  obtain ⟨a, rfl⟩ : ∃ a, mid = lo + a := ⟨mid - lo, by omega⟩
  obtain ⟨b, hb⟩ : ∃ b, hi + 1 = lo + a + b := ⟨hi + 1 - (lo + a), by omega⟩
  unfold bits
  rw [hb, show lo + a + b - lo = a + b by omega, show lo + a + b - (lo + a) =
    b by omega,
    show lo + a - 1 + 1 - lo = a by
      omega, Nat.pow_add, Nat.mod_mul, Nat.div_div_eq_div_mul,
    ← Nat.pow_add]
  ring

/-- The bits from 51 down to 12 of a large page are its address and its PAT
bit. -/
theorem bits_of_large {e shift : Nat} (hshift : shift = 30 ∨ shift = 21)
    (hzero : bits e (shift - 1) 13 = 0) :
    bits e 51 12 = pageBase e shift + if e.testBit 12 = true then 2 ^ 12
      else 0 := by
  have hpat : bits e 12 12 = if e.testBit 12 = true then 2 ^ 12 else 0 := by
    unfold bits
    rw [Nat.testBit_eq_decide_div_mod_eq]
    have := Nat.mod_two_eq_zero_or_one (e / 2 ^ 12)
    grind
  have hsplit := bits_split e 51 13 12 (by omega) (by omega)
  have hpage := bits_split e 51 shift 13 (by omega) (by omega)
  rw [hsplit, hpage, hzero, hpat]
  rfl

end X86Paging
