import Mathlib.Data.List.Basic

/-!
# Generation numbers

Callbacks cannot be called back.  A program that starts work in the background
and may want to forget it keeps a counter: every piece of work carries the value
that the counter had when it was started, raising the counter puts all the work
of the past out of date, and a callback compares the two numbers before it does
anything.

A `Pool` is the counter with the work that is under way.  What counts is the
`current` work.  For it a pool is a mere list: raising the counter empties the
list, starting adds to it, and revising what is under way revises it.
-/

universe u

/-- Work under way, each piece with the generation it was started in.  No piece
comes from the future. -/
structure Pool (α : Type u) where
  gen : Nat
  tasks : List (Nat × α)
  past : ∀ t ∈ tasks, t.1 ≤ gen

namespace Pool

variable {α : Type u}

/-- Before any work. -/
def idle : Pool α := ⟨0, [], by simp⟩

/-- Everything under way is out of date. -/
def raise (p : Pool α) : Pool α :=
  ⟨p.gen + 1, p.tasks, fun t ht => Nat.le_succ_of_le (p.past t ht)⟩

/-- One more piece of work, of the present generation. -/
def start (a : α) (p : Pool α) : Pool α :=
  ⟨p.gen, p.tasks ++ [(p.gen, a)], by
    intro t ht
    rcases List.mem_append.mp ht with ht | ht
    · exact p.past t ht
    · simp_all⟩

/-- Pieces of work end, or go on as others, of the generation they had. -/
def revise (f : Nat → α → Option α) (p : Pool α) : Pool α :=
  ⟨p.gen, p.tasks.filterMap fun t => (f t.1 t.2).map fun b => (t.1, b), by
    intro t ht
    obtain ⟨s, hs, hst⟩ := List.mem_filterMap.mp ht
    obtain ⟨b, -, rfl⟩ := Option.map_eq_some_iff.mp hst
    exact p.past s hs⟩

/-- The work of the present generation. -/
def current (p : Pool α) : List α :=
  p.tasks.filterMap fun t => if t.1 = p.gen then some t.2 else none

/-- Raising the mark starts the next generation. -/
@[simp] theorem gen_raise (p : Pool α) : p.raise.gen = p.gen + 1 := rfl
@[simp] theorem gen_start (a : α) (p : Pool α) : (p.start a).gen = p.gen := rfl
@[simp] theorem gen_revise (f : Nat → α → Option α) (p : Pool α) :
    (p.revise f).gen = p.gen := rfl

/-- Raising the mark leaves the tasks alone. -/
@[simp] theorem tasks_raise (p : Pool α) : p.raise.tasks = p.tasks := rfl

/-- A task starts in the generation of the mark. -/
@[simp] theorem tasks_start (a : α) (p : Pool α) :
    (p.start a).tasks = p.tasks ++ [(p.gen, a)] := rfl

/-- The tasks after a revision, and what they were before it. -/
theorem mem_tasks_revise {f : Nat → α → Option α} {p : Pool α} {n : Nat}
    {b : α} :
    (n, b) ∈ (p.revise f).tasks ↔ ∃ a, (n, a) ∈ p.tasks ∧ f n a = some b := by
  simp only [revise, List.mem_filterMap, Option.map_eq_some_iff, Prod.exists,
    Prod.mk.injEq]
  constructor
  · rintro ⟨m, a, ha, c, hc, rfl, rfl⟩
    exact ⟨a, ha, hc⟩
  · rintro ⟨a, ha, hb⟩
    exact ⟨n, a, ha, b, hb, rfl, rfl⟩

/-- A task is current if it has the generation of the mark. -/
theorem mem_current {p : Pool α} {a : α} :
    a ∈ p.current ↔ (p.gen, a) ∈ p.tasks := by
  simp only [current, List.mem_filterMap, Option.ite_none_right_eq_some,
    Option.some.injEq]
  constructor
  · rintro ⟨⟨n, b⟩, hb, rfl, rfl⟩
    exact hb
  · exact fun h => ⟨(p.gen, a), h, rfl, rfl⟩

/-- An idle pool has no current task. -/
@[simp] theorem current_idle : (idle : Pool α).current = [] := rfl

/-- Right after raising the mark no task is current. -/
@[simp] theorem current_raise (p : Pool α) : p.raise.current = [] := by
  refine List.filterMap_eq_nil_iff.mpr fun t ht => if_neg ?_
  have := p.past t ht
  simp only [gen_raise]
  omega

/-- A task that starts is current. -/
@[simp] theorem current_start (a : α) (p : Pool α) :
    (p.start a).current = p.current ++ [a] := by
  change (p.tasks ++ [(p.gen, a)]).filterMap _ = p.current ++ [a]
  rw [List.filterMap_append]
  exact congrArg₂ (· ++ ·) rfl (by simp)

/-- A revision of the tasks is one of the current ones. -/
@[simp] theorem current_revise (f : Nat → α → Option α) (p : Pool α) :
    (p.revise f).current = p.current.filterMap (f p.gen) := by
  simp only [current, revise, List.filterMap_filterMap]
  refine List.filterMap_congr fun t _ => ?_
  by_cases h : t.1 = p.gen
  · cases hf : f p.gen t.2 <;> simp [h, hf]
  · cases f t.1 t.2 <;> simp [h]

end Pool
