import Mathlib.Data.List.Range
import Mathlib.Data.Nat.Cast.Basic
import Mathlib.Data.Int.Cast.Basic

/-!
# The contents of a memory

A memory gives a value to every address.  What lies at a row of addresses is
gathered in order; a row that is cut in two is gathered in two parts, and a row
of consecutive addresses is a block of cells.  Reading a scattered buffer piece
by piece is right if the addresses of the pieces, put together, are the row.
-/

namespace Memory

variable {A B : Type*} (ram : A → B)

/-- What lies at the first `n` addresses of a row. -/
def gather (addr : Nat → A) (n : Nat) : List B :=
  (List.range n).map (fun i => ram (addr i))

/-- As many bytes as were asked for. -/
@[simp] theorem length_gather (addr : Nat → A) (n : Nat) :
    (gather ram addr n).length = n := by
  simp [gather]

/-- Nothing is read of nothing. -/
@[simp] theorem gather_zero (addr : Nat → A) : gather ram addr 0 = [] := rfl

/-- The first byte, and the others from the next address on. -/
theorem gather_succ (addr : Nat → A) (n : Nat) :
    gather ram addr (n + 1) =
      ram (addr 0) :: gather ram (fun i => addr (i + 1)) n := by
  unfold gather
  rw [List.range_succ_eq_map, List.map_cons, List.map_map]
  rfl

/-- **A row cut in two.** -/
theorem gather_add (addr : Nat → A) (m n : Nat) :
    gather ram addr (m + n) =
      gather ram addr m ++ gather ram (fun i => addr (m + i)) n := by
  unfold gather
  rw [List.range_add, List.map_append, List.map_map]
  rfl

/-- Only the addresses of the bytes matter. -/
theorem gather_congr {addr addr' : Nat → A} {n : Nat}
    (h : ∀ i < n, addr i = addr' i) :
    gather ram addr n = gather ram addr' n :=
  List.map_congr_left fun i hi => congrArg ram (h i (List.mem_range.mp hi))

/-- The front of what is gathered is gathered. -/
theorem take_gather (addr : Nat → A) (k n : Nat) :
    (gather ram addr n).take k = gather ram addr (min k n) := by
  unfold gather
  rw [← List.map_take, List.take_range]

section

variable [Add A] [NatCast A]

/-- A block of `n` cells from the address `a` on. -/
def cells (a : A) (n : Nat) : List B := gather ram (fun i => a + (i : A)) n

/-- As many bytes as were asked for. -/
@[simp] theorem length_cells (a : A) (n : Nat) : (cells ram a n).length = n :=
  length_gather ram _ n

/-- A row of consecutive addresses. -/
theorem gather_eq_cells {addr : Nat → A} {a : A} {n : Nat}
    (h : ∀ i < n, addr i = a + (i : A)) :
    gather ram addr n = cells ram a n := gather_congr ram h

/-- A read gives what is in the memory wherever all its addresses are in a set.
`ok` wraps the result of a read that is no failure. -/
def ServedAt {R : Type*} (read : A → Nat → R) (ok : List B → R)
    (used : A → Prop) : Prop :=
  ∀ (a : A) (n : Nat), (∀ k < n, used (a + (k : A))) →
    read a n = ok (cells ram a n)

end

/-- A part of a block. -/
theorem take_drop_cells {R : Type*} [AddMonoidWithOne R] (ram : R → B) (a : R)
    {m k n : Nat}
    (h : m + k ≤ n) :
    ((cells ram a n).drop m).take k = cells ram (a + (m : R)) k := by
  obtain ⟨r, rfl⟩ : ∃ r, n = m + (k + r) := ⟨n - m - k, by omega⟩
  unfold cells
  rw [gather_add, List.drop_left' (length_gather ram _ m), take_gather,
    Nat.min_eq_left (by omega)]
  exact gather_congr ram fun i _ => by rw [Nat.cast_add, add_assoc]

end Memory
