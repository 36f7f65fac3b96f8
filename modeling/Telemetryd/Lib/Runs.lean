/-!
# Runs of a step function

A run applies a list of steps, first to last.  `Each C` says that every step
of the run meets the condition `C` in the state it is taken from, `Always P`
that `P` holds of every state the run passes through, the first included.
The rules below turn a fact about single steps into one about runs.
-/

namespace Runs

universe u v

variable {S : Type u} {A : Type v} (step : S → A → S)

/-- Every step meets `C` in the state it is taken from. -/
def Each (C : S → A → Prop) : S → List A → Prop
  | _, [] => True
  | s, a :: as => C s a ∧ Each C (step s a) as

instance decidableEach (C : S → A → Prop) [∀ s a, Decidable (C s a)] :
    ∀ (s : S) (as : List A), Decidable (Each step C s as)
  | _, [] => isTrue trivial
  | s, a :: as =>
      @instDecidableAnd _ _ inferInstance (decidableEach C (step s a) as)

/-- `P` holds of every state of the run. -/
def Always (P : S → Prop) : S → List A → Prop
  | s, [] => P s
  | s, a :: as => P s ∧ Always P (step s a) as

variable {step} {C : S → A → Prop} {I P : S → Prop}

/-- An invariant kept by every step that meets the condition. -/
theorem always_of_each (hP : ∀ s, I s → P s)
    (hstep : ∀ s a, I s → C s a → I (step s a)) :
    ∀ {s : S} {as : List A}, I s → Each step C s as → Always step P s as := by
  intro s as hs hC
  induction as generalizing s with
  | nil => exact hP s hs
  | cons a as ih => exact ⟨hP s hs, ih (hstep s a hs hC.1) hC.2⟩

/-- An invariant kept by every step. -/
theorem always_of_step (hP : ∀ s, I s → P s)
    (hstep : ∀ s a, I s → I (step s a)) :
    ∀ {s : S} (as : List A), I s → Always step P s as := by
  intro s as hs
  induction as generalizing s with
  | nil => exact hP s hs
  | cons a as ih => exact ⟨hP s hs, ih (hstep s a hs)⟩

/-- If a step from an invariant state reaches a `P` state exactly when it meets
the condition, then so do whole runs. -/
theorem always_iff_each (hP : ∀ s, I s → P s)
    (hstep : ∀ s a, I s → C s a → I (step s a))
    (hback : ∀ s a, I s → P (step s a) → C s a) {s : S} {as : List A}
    (hs : I s) :
    Always step P s as ↔ Each step C s as := by
  refine ⟨fun h => ?_, always_of_each hP hstep hs⟩
  induction as generalizing s with
  | nil => trivial
  | cons a as ih =>
      obtain ⟨-, hrest⟩ := h
      have hnext : P (step s a) := by
        cases as with
        | nil => exact hrest
        | cons b bs => exact hrest.1
      have hC : C s a := hback s a hs hnext
      exact ⟨hC, ih (hstep s a hs hC) hrest⟩

/-- The condition holds throughout the front of a run. -/
theorem Each.of_prefix {s : S} {as bs : List A} (h : Each step C s bs)
    (hfront : as <+: bs) :
    Each step C s as := by
  induction as generalizing s bs with
  | nil => trivial
  | cons a as ih =>
      obtain ⟨rest, rfl⟩ := hfront
      exact ⟨h.1, ih h.2 (List.prefix_append as rest)⟩

/-- Conditions that agree in the states of an invariant agree on runs. -/
theorem each_congr {D : S → A → Prop} {H : A → Prop}
    (hstep : ∀ s a, I s → H a → I (step s a))
    (hCD : ∀ s a, I s → H a → (C s a ↔ D s a))
    {s : S} {as : List A} (hs : I s) (hH : ∀ a ∈ as, H a) :
    Each step C s as ↔ Each step D s as := by
  induction as generalizing s with
  | nil => exact Iff.rfl
  | cons a as ih =>
      have ha : H a := hH a List.mem_cons_self
      exact and_congr (hCD s a hs ha)
        (ih (hstep s a hs ha) fun b hb => hH b (List.mem_cons_of_mem _ hb))

/-- What holds always holds at the end. -/
theorem Always.last {s : S} {as : List A} (h : Always step P s as) :
    P (as.foldl step s) := by
  induction as generalizing s with
  | nil => exact h
  | cons a as ih => exact ih h.2

end Runs
