import Mathlib.Data.List.Range
import Mathlib.Logic.Function.Basic

/-!
# Rings of slots

A ring has a fixed number of slots and a tail, the slot that is written next.
A push overwrites the slot at the tail and moves the tail on, back to the first
slot after the last.  Nothing is ever removed: a slot keeps its content until
the tail comes round to it again.
-/

namespace SlotRing

/-- A ring with at least one slot. -/
structure Ring (α : Type*) where
  depth : Nat
  tail : Nat
  slots : Nat → α
  tail_lt : tail < depth

namespace Ring

variable {α : Type*} (r : Ring α)

/-- A ring has a slot. -/
theorem depth_pos : 0 < r.depth := Nat.lt_of_le_of_lt (Nat.zero_le _) r.tail_lt

/-- The tail after one push. -/
def next : Nat := if r.tail + 1 = r.depth then 0 else r.tail + 1

/-- The next tail is a slot of the ring. -/
theorem next_lt : r.next < r.depth := by
  have := r.tail_lt
  unfold next
  split <;> omega

/-- An entry goes into the slot of the tail, and the tail moves on. -/
def push (a : α) : Ring α :=
  ⟨r.depth, r.next, Function.update r.slots r.tail a, r.next_lt⟩

/-- Entries go in one after the other. -/
def pushAll (as : List α) : Ring α := as.foldl push r

/-- The depth stays. -/
@[simp] theorem depth_push (a : α) : (r.push a).depth = r.depth := rfl

/-- The tail moves on. -/
@[simp] theorem tail_push (a : α) : (r.push a).tail = r.next := rfl

/-- The depth stays. -/
@[simp] theorem depth_pushAll (as : List α) :
    (r.pushAll as).depth = r.depth := by
  induction as generalizing r with
  | nil => rfl
  | cons a as ih => exact ih (r.push a)

/-- The entries of two lists, one list after the other. -/
theorem pushAll_append (as bs : List α) :
    r.pushAll (as ++ bs) = (r.pushAll as).pushAll bs :=
  List.foldl_append

/-- The slot `j` steps behind the one written last. -/
def back (j : Nat) : Nat :=
  if j < r.tail then r.tail - 1 - j else r.tail + r.depth - 1 - j

/-- Going back stays in the ring. -/
theorem back_lt {j : Nat} (hj : j < r.depth) : r.back j < r.depth := by
  have := r.tail_lt
  unfold back
  split <;> omega

/-- Different steps back meet different slots. -/
theorem back_inj {i j : Nat} (hi : i < r.depth) (hj : j < r.depth)
    (h : r.back i = r.back j) :
    i = j := by
  have := r.tail_lt
  unfold back at h
  split at h <;> split at h <;> omega

/-- Going back less than a turn does not come to the tail. -/
theorem back_ne_tail {j : Nat} (hj : j + 1 < r.depth) : r.back j ≠ r.tail := by
  have := r.tail_lt
  unfold back
  split <;> omega

/-- The newest entry is where the tail was. -/
theorem back_push_zero (a : α) : (r.push a).back 0 = r.tail := by
  have := r.tail_lt
  simp only [back, tail_push, depth_push, next]
  split <;> split <;> omega

/-- The others are a slot further back than before. -/
theorem back_push_succ (a : α) {j : Nat} (hj : j + 1 < r.depth) :
    (r.push a).back (j + 1) = r.back j := by
  have := r.tail_lt
  simp only [back, tail_push, depth_push, next]
  split <;> split <;> split <;> omega

/-- **Where a push went**: as many steps back as there were pushes since. -/
theorem back_pushAll (before : List α) (a : α) (after : List α)
    (hlen : after.length < r.depth) :
    (r.pushAll (before ++ a :: after)).back after.length =
      (r.pushAll before).tail := by
  induction after using List.reverseRecOn with
  | nil =>
      rw [pushAll_append]
      exact back_push_zero (r.pushAll before) a
  | append_singleton after b ih =>
      rw [List.length_append, List.length_singleton] at hlen ⊢
      have hsplit : before ++ a :: (after ++ [b]) = (before ++ a :: after) ++
        [b] := by simp
      rw [hsplit, pushAll_append]
      have hlen' :
        after.length + 1 < (r.pushAll (before ++ a :: after)).depth := by
          simpa using hlen
      exact (back_push_succ _ b hlen').trans (ih (by omega))

/-- **What the ring remembers.**  After a list of pushes the slot `j` steps back
holds the `j`-th most recent of them. -/
theorem slots_back (before : List α) (a : α) (after : List α)
    (hlen : after.length < r.depth) :
    (r.pushAll (before ++ a :: after)).slots
      ((r.pushAll (before ++ a :: after)).back after.length) = a := by
  induction after using List.reverseRecOn with
  | nil =>
      rw [pushAll_append]
      change ((r.pushAll before).push a).slots
        (((r.pushAll before).push a).back 0) = a
      rw [back_push_zero]
      exact Function.update_self _ _ _
  | append_singleton after b ih =>
      rw [List.length_append, List.length_singleton] at hlen ⊢
      have hsplit : before ++ a :: (after ++ [b]) = (before ++ a :: after) ++
        [b] := by simp
      rw [hsplit, pushAll_append]
      change ((r.pushAll (before ++ a :: after)).push b).slots
        (((r.pushAll (before ++ a :: after)).push b).back (after.length + 1)) =
          a
      have hlen' :
        after.length + 1 < (r.pushAll (before ++ a :: after)).depth := by
          simpa using hlen
      rw [back_push_succ _ _ hlen']
      exact (Function.update_of_ne (back_ne_tail _ hlen') _ _).trans
        (ih (by omega))

/-- The slots are counted from the new tail after some pushes. -/
theorem back_pushAll_add (as : List α) {j : Nat}
    (hj : j + as.length < r.depth) :
    (r.pushAll as).back (j + as.length) = r.back j := by
  induction as using List.reverseRecOn with
  | nil => rfl
  | append_singleton as a ih =>
      rw [List.length_append, List.length_singleton] at hj ⊢
      have hj' : j + as.length + 1 < (r.pushAll as).depth := by
        rw [depth_pushAll]
        omega
      rw [pushAll_append]
      exact (back_push_succ _ a hj').trans (ih (by omega))

/-- A whole turn back is the tail. -/
theorem back_last : r.back (r.depth - 1) = r.tail := by
  have := r.tail_lt
  unfold back
  split <;> omega

/-- Pushes come round to the slots from the farthest on. -/
theorem tail_pushAll (as : List α) (hlen : as.length < r.depth) :
    (r.pushAll as).tail = r.back (r.depth - 1 - as.length) := by
  have hlast := (r.pushAll as).back_last
  rw [depth_pushAll] at hlast
  have hsame :=
    r.back_pushAll_add as (show r.depth - 1 - as.length + as.length <
    r.depth by omega)
  rw [← hsame, ← hlast]
  congr 1
  omega

/-- A slot keeps its content until the pushes come round to it. -/
theorem slots_pushAll (as : List α) {j : Nat} (hj : j + as.length < r.depth) :
    (r.pushAll as).slots (r.back j) = r.slots (r.back j) := by
  induction as using List.reverseRecOn with
  | nil => rfl
  | append_singleton as a ih =>
      rw [List.length_append, List.length_singleton] at hj
      have hne : r.back j ≠ (r.pushAll as).tail := by
        rw [← r.back_pushAll_add as (by omega)]
        refine back_ne_tail _ ?_
        rw [depth_pushAll]
        omega
      rw [pushAll_append]
      exact (Function.update_of_ne hne _ _).trans (ih (by omega))

/-- A list cut around one of its entries. -/
theorem eq_take_append_getElem_drop (as : List α) {i : Nat}
    (hi : i < as.length) :
    as = as.take i ++ as[i] :: as.drop (i + 1) := by
  rw [← List.drop_eq_getElem_cons hi, List.take_append_drop]

/-- What was pushed last, by the steps back. -/
theorem slots_back_getElem (as : List α) {j : Nat} (hj : j < as.length)
    (hdepth : j < r.depth) :
    (r.pushAll as).slots ((r.pushAll as).back j) = as[as.length - 1 - j] := by
  have hsplit :=
    eq_take_append_getElem_drop as (show as.length - 1 - j < as.length by omega)
  have hafter : (as.drop (as.length - 1 - j + 1)).length = j := by
    rw [List.length_drop]
    omega
  have hslot := r.slots_back (as.take (as.length - 1 - j)) as[as.length - 1 - j]
    (as.drop (as.length - 1 - j + 1)) (by omega)
  rwa [← hsplit, hafter] at hslot

/-- What the slots hold once the pushes have come round to them. -/
theorem slots_pushAll_getElem (as : List α) {i : Nat} (hi : i < as.length)
    (hlen : as.length ≤ r.depth) :
    (r.pushAll as).slots (r.back (r.depth - 1 - i)) = as[i] := by
  have hsplit := eq_take_append_getElem_drop as hi
  have hbefore : (as.take i).length = i := by
    rw [List.length_take]
    omega
  have hafter : (as.drop (i + 1)).length < r.depth := by
    rw [List.length_drop]
    omega
  have hslot := r.slots_back (as.take i) as[i] (as.drop (i + 1)) hafter
  rwa [back_pushAll _ _ _ _ hafter, r.tail_pushAll _ (by omega),
    hbefore, ← hsplit] at hslot

/-- Walking back from the tail meets the slots below it downwards, and then
those from the last slot down to the tail. -/
theorem map_back_range :
    (List.range r.depth).map r.back
      = (List.range r.tail).reverse ++
        (List.range' r.tail (r.depth - r.tail)).reverse := by
  have hlt := r.tail_lt
  apply List.ext_getElem
  · simp
    omega
  · intro j hj _
    have hj' : j < r.depth := by simpa using hj
    rw [List.getElem_map, List.getElem_range, List.getElem_append]
    unfold back
    split
    case isTrue h =>
      rw [dif_pos (by simpa using h), List.getElem_reverse, List.getElem_range]
      simp
    case isFalse h =>
      rw [dif_neg (by simpa using h), List.getElem_reverse, List.getElem_range']
      simp
      omega

end Ring

end SlotRing
