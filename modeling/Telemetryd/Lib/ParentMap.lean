import Mathlib.Data.Fintype.Card
import Mathlib.Data.Fintype.EquivFin
import Mathlib.Data.List.Chain
import Mathlib.Data.List.Nodup
import Mathlib.Data.Set.Finite.Basic
import Mathlib.Logic.Relation
import Mathlib.Order.WellFounded

/-!
# Lines of ancestors

A forest is given by the parent of each element that is not a root.  If no
element is its own ancestor and there are finitely many, each has a line: the
elements from its root down to it, which are its ancestors and itself, each
once.

Where there may be cycles, a walk upward passes parent after parent and ends at
a root, or where it has been before.
-/

namespace ParentMap

variable {β : Type} {up : β → Option β} {a b : β} {l l' : List β}

/-- `a` is the parent of `b`. -/
def Above (up : β → Option β) (b a : β) : Prop := up b = some a

/-- No element is its own ancestor. -/
def Acyclic (up : β → Option β) : Prop :=
  ∀ b, ¬ Relation.TransGen (Above up) b b

/-- The elements from a root down to an element. -/
inductive LineTo (up : β → Option β) : β → List β → Prop
  | root {b : β} (h : up b = none) : LineTo up b [b]
  | child {a b : β} {l : List β} (h : up b = some a) (line : LineTo up a l) :
    LineTo up b (l ++ [b])

/-- Without cycles a finite map can be climbed by induction. -/
theorem wellFounded_of_acyclic [Finite β] (h : Acyclic up) :
    WellFounded (fun a b => Above up b a) := by
  have htrans : IsTrans β fun a b => Relation.TransGen (Above up) b a :=
    ⟨fun _ _ _ hab hbc => hbc.trans hab⟩
  have hirrefl : Std.Irrefl fun a b => Relation.TransGen (Above up) b a := ⟨h⟩
  have hwf : WellFounded fun a b => Relation.TransGen (Above up) b a :=
    Finite.wellFounded_of_trans_of_irrefl _
  exact Subrelation.wf (fun hstep => Relation.TransGen.single hstep) hwf

/-- Parents of lower rank make no cycle. -/
theorem acyclic_of_rank (rank : β → Nat)
    (h : ∀ b a, Above up b a → rank a < rank b) : Acyclic up := by
  have hless : ∀ b a, Relation.TransGen (Above up) b a → rank a < rank b := by
    intro b a hreach
    induction hreach with
    | single hstep => exact h _ _ hstep
    | tail _ hstep ih => exact (h _ _ hstep).trans ih
  exact fun b hcycle => (hless b b hcycle).false

/-- **Each element has a line.** -/
theorem exists_lineTo [Finite β] (h : Acyclic up) (b : β) :
    ∃ l, LineTo up b l := by
  induction b using (wellFounded_of_acyclic h).induction with
  | _ b ih =>
      cases hup : up b with
      | none => exact ⟨[b], .root hup⟩
      | some a =>
          obtain ⟨l, hl⟩ := ih a hup
          exact ⟨l ++ [b], .child hup hl⟩

/-- The line of an element is made of its ancestors and itself. -/
theorem LineTo.mem_iff (h : LineTo up b l) :
    a ∈ l ↔ Relation.ReflTransGen (Above up) b a := by
  induction h with
  | @root b hup =>
      rw [List.mem_singleton]
      constructor
      · rintro rfl
        exact .refl
      · intro hreach
        rcases hreach.cases_head with heq | ⟨c, hstep, -⟩
        · exact heq.symm
        · rw [Above, hup] at hstep
          cases hstep
  | @child c b l hup _ ih =>
      rw [List.mem_append, List.mem_singleton, ih]
      constructor
      · rintro (hreach | rfl)
        · exact .head hup hreach
        · exact .refl
      · intro hreach
        rcases hreach.cases_head with heq | ⟨d, hstep, hrest⟩
        · exact Or.inr heq.symm
        · rw [Above, hup] at hstep
          cases hstep
          exact Or.inl hrest

/-- No element is on a line twice. -/
theorem LineTo.nodup (hacyclic : Acyclic up) (h : LineTo up b l) : l.Nodup := by
  induction h with
  | root => exact List.nodup_singleton _
  | @child c b l hup hline ih =>
      refine List.nodup_append'.mpr ⟨ih, List.nodup_singleton _, ?_⟩
      intro d hd hd'
      rw [List.mem_singleton.mp hd'] at hd
      exact hacyclic b (Relation.TransGen.head' hup (hline.mem_iff.mp hd))

/-- A line is no longer than there are elements. -/
theorem LineTo.length_le [Fintype β] (hacyclic : Acyclic up)
    (h : LineTo up b l) :
    l.length ≤ Fintype.card β := (h.nodup hacyclic).length_le_card

/-! ### Walks upward -/

variable {up : β → Option β} {start : β}

/-- The elements that are passed on the way up to an element. -/
inductive Climbs (up : β → Option β) (start : β) : List β → β → Prop
  | here : Climbs up start [] start
  | step {a b : β} {l : List β} (climb : Climbs up start l b)
      (h : up b = some a) :
      Climbs up start (l ++ [b]) a

/-- The elements of a walk that goes up until there is no way up or it has been
there. -/
inductive Walk (up : β → Option β) (start : β) : List β → Prop
  | repeats {b : β} {l : List β} (climb : Climbs up start l b) (h : b ∈ l) :
    Walk up start l
  | root {b : β} {l : List β} (climb : Climbs up start l b) (h : up b = none) :
      Walk up start (l ++ [b])

/-- What is climbed to is above the start. -/
theorem Climbs.reaches (h : Climbs up start l b) :
    Relation.ReflTransGen (Above up) start b := by
  induction h with
  | here => exact .refl
  | step _ hup ih => exact ih.tail hup

/-- A climb begins at its start. -/
theorem Climbs.head (h : Climbs up start l b) :
    (l ++ [b]).head? = some start := by
  induction h with
  | here => rfl
  | @step a b l climb hup ih =>
      rw [List.head?_append, ih]
      rfl

/-- Each step of a climb leads one up. -/
theorem Climbs.isChain (h : Climbs up start l b) :
    (l ++ [b]).IsChain (Above up) := by
  induction h with
  | here => exact List.isChain_singleton _
  | @step a b l climb hup ih =>
      refine List.isChain_append.mpr ⟨ih, List.isChain_singleton _, ?_⟩
      intro x hx y hy
      rw [List.getLast?_concat] at hx
      obtain rfl := Option.some.inj hx
      obtain rfl := Option.some.inj hy
      exact hup

/-- The parent of what is passed is passed next. -/
theorem Climbs.above (h : Climbs up start l b) {c : β} (hc : c ∈ l) :
    ∃ d, up c = some d ∧ d ∈ l ++ [b] := by
  induction h with
  | here => cases hc
  | @step a b l climb hup ih =>
      rcases List.mem_append.mp hc with hc | hc
      · obtain ⟨d, hd, hmem⟩ := ih hc
        exact ⟨d, hd, List.mem_append_left _ hmem⟩
      · rw [List.mem_singleton.mp hc]
        exact ⟨a, hup, List.mem_append_right _ (List.mem_singleton_self a)⟩

/-- Only the last step can be at the top. -/
theorem Climbs.up_ne_none (h : Climbs up start l b) {c : β} (hc : c ∈ l) :
    up c ≠ none := by
  obtain ⟨d, hd, -⟩ := h.above hc
  rw [hd]
  exact Option.some_ne_none d

/-- Who comes back to where they have been gets nowhere else. -/
theorem Climbs.mem_of_repeat (h : Climbs up start l b) (hb : b ∈ l) {c : β}
    (hc : Relation.ReflTransGen (Above up) start c) : c ∈ l := by
  have hback : ∀ d ∈ l ++ [b], d ∈ l := by
    intro d hd
    rcases List.mem_append.mp hd with hd | hd
    · exact hd
    · exact (List.mem_singleton.mp hd).symm ▸ hb
  induction hc with
  | refl => exact hback _ (List.mem_of_mem_head? h.head)
  | tail _ hstep ih =>
      obtain ⟨d, hd, hmem⟩ := h.above ih
      rw [Above, hd] at hstep
      exact Option.some.inj hstep ▸ hback d hmem

/-- A walk begins at its start. -/
theorem Walk.head (h : Walk up start l) : l.head? = some start := by
  cases h with
  | root climb => exact climb.head
  | repeats climb hb =>
      have hhead := climb.head
      obtain ⟨c, l, rfl⟩ := List.exists_cons_of_ne_nil (List.ne_nil_of_mem hb)
      exact hhead

/-- Each step of a walk leads one up. -/
theorem Walk.isChain (h : Walk up start l) : l.IsChain (Above up) := by
  cases h with
  | root climb => exact climb.isChain
  | repeats climb _ => exact (List.isChain_append.mp climb.isChain).1

/-- Only the last element of a walk can be a root. -/
theorem Walk.exists_concat (h : Walk up start l) :
    ∃ passed b, l = passed ++ [b] ∧ ∀ c ∈ passed, up c ≠ none := by
  cases h with
  | root climb _ => exact ⟨_, _, rfl, fun c hc => climb.up_ne_none hc⟩
  | repeats climb hb =>
      obtain rfl | ⟨passed, last, rfl⟩ := List.eq_nil_or_concat' l
      · cases hb
      · exact ⟨passed, last, rfl, fun c hc =>
          climb.up_ne_none (List.mem_append_left _ hc)⟩

/-- **A walk has a root** if there is one upward. -/
theorem Walk.exists_root_iff (h : Walk up start l) : (∃ b ∈ l, up b = none) ↔
    ∃ root, Relation.ReflTransGen (Above up) start root ∧ up root = none := by
  cases h with
  | repeats climb hrepeat =>
      refine iff_of_false (fun hroot => ?_) (fun hroot => ?_)
      · obtain ⟨c, hc, hup⟩ := hroot
        exact climb.up_ne_none hc hup
      · obtain ⟨c, hc, hup⟩ := hroot
        exact climb.up_ne_none (climb.mem_of_repeat hrepeat hc) hup
  | @root b l climb hup =>
      refine iff_of_true ⟨b, ?_, hup⟩ ⟨b, climb.reaches, hup⟩
      exact List.mem_append_right _ (List.mem_singleton_self b)

end ParentMap
