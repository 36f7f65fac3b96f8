import Mathlib.Data.List.Basic
import Mathlib.Data.List.Induction

/-!
# The latest entry of a log

An entry of a log sets a value, drops it, or leaves it as it is.  After a log
there is the value of the latest entry that sets one, unless a later entry drops
it.
-/

namespace LatestEntry

universe u v

variable {X : Type u} {V : Type v}

/-- What an entry does to the value. -/
inductive Effect (V : Type v) where
  | sets (value : V)
  | drops
  | leaves

/-- The value after an entry. -/
def Effect.apply : Effect V → Option V → Option V
  | .sets value, _ => some value
  | .drops, _ => none
  | .leaves, found => found

variable (effect : X → Effect V)

/-- The value after a log. -/
def remains (log : List X) : Option V :=
  log.foldl (fun found x => (effect x).apply found) none

/-- The value is set by an entry of the log, and every later entry leaves it. -/
def Latest (log : List X) (value : V) : Prop :=
  ∃ before x after, log = before ++ x :: after ∧ effect x = .sets value ∧
    ∀ y ∈ after, effect y = .leaves

variable {effect} {log : List X} {x : X} {value : V}

/-- Nothing remains of an empty log. -/
@[simp] theorem remains_nil : remains effect [] = none := rfl

/-- What remains after one more entry. -/
theorem remains_concat :
    remains effect (log ++ [x]) = (effect x).apply (remains effect log) :=
  List.foldl_concat _ _ _ _

/-- An empty log has no latest value. -/
theorem not_latest_nil : ¬ Latest effect [] value := by
  rintro ⟨before, x, after, hlog, -, -⟩
  cases before <;> cases hlog

/-- The latest value after one more entry. -/
theorem latest_concat : Latest effect (log ++ [x]) value ↔
    effect x = .sets value ∨ effect x = .leaves ∧ Latest effect log value := by
  constructor
  · rintro ⟨before, y, after, hlog, hy, hafter⟩
    rcases List.eq_nil_or_concat' after with rfl | ⟨after, z, rfl⟩
    · obtain rfl : x = y := by simpa using (List.append_inj' hlog rfl).2
      exact .inl hy
    · rw [← List.cons_append, ← List.append_assoc] at hlog
      obtain ⟨rfl, hz⟩ := List.append_inj' hlog rfl
      obtain rfl : x = z := by simpa using hz
      exact .inr ⟨hafter x (by simp), before, y, after, rfl, hy,
        fun y hy => hafter y (List.mem_append_left _ hy)⟩
  · rintro (hx | ⟨hx, before, y, after, rfl, hy, hafter⟩)
    · exact ⟨log, x, [], rfl, hx, fun _ h => nomatch h⟩
    · refine ⟨before, y, after ++ [x], by simp, hy, fun z hz => ?_⟩
      rcases List.mem_append.mp hz with hz | hz
      · exact hafter z hz
      · rw [List.mem_singleton.mp hz]
        exact hx

/-- There is a value after a log exactly if it is the latest. -/
theorem latest_iff :
    Latest effect log value ↔ remains effect log = some value := by
  induction log using List.reverseRecOn with
  | nil => exact ⟨fun h => absurd h not_latest_nil, fun h => nomatch h⟩
  | append_singleton log x ih =>
      rw [latest_concat, remains_concat, ih]
      cases effect x <;> simp [Effect.apply]

end LatestEntry
