/-!
# `while` loops

The body of a loop takes a state and either goes on with another one or leaves
the loop with a result.  Nothing makes a loop return.  `Returns` says that it
does, and with what; `run` goes around for so many rounds at most.  A loop with
an invariant and a variant, a number that every round lowers, returns after as
many rounds.
-/

namespace WhileLoop

universe u v

variable {S : Type u} {A : Type v}

/-- The loop returns from a state. -/
inductive Returns (body : S → S ⊕ A) : S → A → Prop
  | leave {s : S} {a : A} (h : body s = .inr a) : Returns body s a
  | goOn {s s' : S} {a : A} (h : body s = .inl s') (rest : Returns body s' a) :
    Returns body s a

/-- The loop, for so many rounds at most. -/
def run (body : S → S ⊕ A) : Nat → S → Option A
  | 0, _ => none
  | rounds + 1, s => match body s with
      | .inl s' => run body rounds s'
      | .inr a => some a

variable {body : S → S ⊕ A} {s s' : S} {a a' : A}

theorem run_goOn (h : body s = .inl s') (rounds : Nat) :
    run body (rounds + 1) s = run body rounds s' := by
  rw [run, h]

theorem run_leave (h : body s = .inr a) (rounds : Nat) :
    run body (rounds + 1) s = some a := by
  rw [run, h]

/-- **A loop returns** if it does so within some number of rounds. -/
theorem returns_iff_run :
    Returns body s a ↔ ∃ rounds, run body rounds s = some a := by
  constructor
  · intro h
    induction h with
    | leave h => exact ⟨1, run_leave h 0⟩
    | goOn h _ ih =>
        obtain ⟨rounds, hrun⟩ := ih
        exact ⟨rounds + 1, (run_goOn h rounds).trans hrun⟩
  · intro h
    obtain ⟨rounds, hrun⟩ := h
    induction rounds generalizing s with
    | zero => cases hrun
    | succ rounds ih =>
        cases hbody : body s with
        | inl next =>
            rw [run_goOn hbody] at hrun
            exact .goOn hbody (ih hrun)
        | inr out =>
            rw [run_leave hbody] at hrun
            exact .leave (hbody.trans (congrArg Sum.inr (Option.some.inj hrun)))

/-- A loop has one result. -/
theorem Returns.unique (h : Returns body s a) (h' : Returns body s a') :
    a = a' := by
  induction h with
  | leave hbody =>
      cases h' with
      | leave hbody' => exact Sum.inr.inj (hbody.symm.trans hbody')
      | goOn hbody' _ => cases hbody.symm.trans hbody'
  | goOn hbody _ ih =>
      cases h' with
      | leave hbody' => cases hbody.symm.trans hbody'
      | goOn hbody' rest' =>
          obtain rfl := Sum.inl.inj (hbody.symm.trans hbody')
          exact ih rest'

variable {I : S → Prop} {Q : A → Prop}

/-- **The rule of invariants.**  If the loop returns, it is from a state of the
invariant. -/
theorem Returns.of_invariant (h : Returns body s a) (hs : I s)
    (hgo : ∀ s s', I s → body s = .inl s' → I s')
    (hout : ∀ s a, I s → body s = .inr a → Q a) : Q a := by
  induction h with
  | leave hbody => exact hout _ _ hs hbody
  | goOn hbody _ ih => exact ih (hgo _ _ hs hbody)

/-- **The rule of variants.**  A loop returns after as many rounds as its
variant says. -/
theorem exists_run (variant : S → Nat)
    (hgo : ∀ s s', I s → body s = .inl s' → I s' ∧ variant s' < variant s)
    (hs : I s) {rounds : Nat}
    (hrounds : variant s < rounds) : ∃ a, run body rounds s = some a := by
  induction rounds generalizing s with
  | zero => exact absurd hrounds (Nat.not_lt_zero _)
  | succ rounds ih =>
      cases hbody : body s with
      | inl next =>
          obtain ⟨hnext, hless⟩ := hgo s next hs hbody
          obtain ⟨a, ha⟩ :=
            ih hnext (Nat.lt_of_lt_of_le hless (Nat.lt_succ_iff.mp hrounds))
          exact ⟨a, (run_goOn hbody rounds).trans ha⟩
      | inr out => exact ⟨out, run_leave hbody rounds⟩

/-- **Total correctness.**  A loop with a variant returns, once, and from a
state of the invariant. -/
theorem exists_returns (variant : S → Nat)
    (hgo : ∀ s s', I s → body s = .inl s' → I s' ∧ variant s' < variant s)
    (hout : ∀ s a, I s → body s = .inr a → Q a) (hs : I s) :
    ∃ a, (∀ a', Returns body s a' ↔ a' = a) ∧ Q a := by
  obtain ⟨a, ha⟩ := exists_run variant hgo hs (Nat.lt_succ_self _)
  have hreturns : Returns body s a := returns_iff_run.mpr ⟨_, ha⟩
  refine ⟨a, fun a' => ⟨fun h => h.unique hreturns, fun h => h ▸ hreturns⟩, ?_⟩
  exact hreturns.of_invariant hs (fun s s' hI hbody =>
    (hgo s s' hI hbody).1) hout

end WhileLoop
