import Mathlib.Algebra.BigOperators.Group.List.Basic
import Mathlib.Algebra.Order.Field.Basic
import Mathlib.Tactic.Linarith
import Mathlib.Tactic.Ring

/-!
# Duty cycles

A worker is busy over a list of spans, in the order in which they start.  If
every span is followed by a pause of `f` times its own length, the time spent
in the spans before the last one is at most one part in `1 + f` of the time
elapsed between the first start and the last.
-/

namespace DutyCycle

variable {K : Type*} [Field K] [LinearOrder K] [IsStrictOrderedRing K]

/-- A stretch of work. -/
structure Span (K : Type*) where
  start : K
  finish : K

/-- How long a span takes. -/
def Span.length (s : Span K) : K := s.finish - s.start

/-- The time spent in all spans but the last. -/
def busy (spans : List (Span K)) : K := (spans.dropLast.map Span.length).sum

omit [LinearOrder K] [IsStrictOrderedRing K] in
/-- The time that is busy, span by span. -/
theorem busy_cons (s : Span K) {t : Span K} {spans : List (Span K)} :
    busy (s :: t :: spans) = s.length + busy (t :: spans) := by
  simp [busy]

/-- **The share of the worker.**  With a pause of `f` times its length after
each span, work takes at most one part in `1 + f` of the time. -/
theorem busy_le_elapsed {f : K} {spans : List (Span K)}
    (hpause : spans.IsChain (fun s t => s.finish + f * s.length ≤ t.start))
    {first last : Span K} (hfirst : spans.head? = some first)
    (hlast : spans.getLast? = some last) :
    (1 + f) * busy spans ≤ last.start - first.start := by
  induction spans generalizing first with
  | nil => cases hfirst
  | cons s rest ih =>
      obtain rfl : s = first := Option.some.inj hfirst
      cases rest with
      | nil =>
          obtain rfl : s = last := Option.some.inj hlast
          simp [busy]
      | cons t rest =>
          obtain ⟨hst, hrest⟩ := List.isChain_cons_cons.mp hpause
          have htail : (1 + f) * busy (t :: rest) ≤ last.start - t.start :=
            ih hrest rfl (by rwa [List.getLast?_cons_cons] at hlast)
          have hlen : s.length = s.finish - s.start := rfl
          rw [busy_cons]
          calc (1 + f) * (s.length + busy (t :: rest))
              = (s.finish + f * s.length - s.start) + (1 + f) *
                busy (t :: rest) := by
                rw [hlen]
                ring
            _ ≤ (t.start - s.start) + (last.start - t.start) := by linarith
            _ = last.start - s.start := by ring

end DutyCycle
