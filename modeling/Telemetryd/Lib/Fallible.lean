import Mathlib.Data.List.Forall2

/-!
# Computations that may fail

What it means that a row of steps succeeds, for any kind of failure.
-/

universe u v

namespace Fallible

variable {ε : Type v} {α β : Type u}

theorem bind_eq_ok {x : Except ε α} {f : α → Except ε β} {b : β} :
    (x >>= f) = .ok b ↔ ∃ a, x = .ok a ∧ f a = .ok b := by
  cases x with
  | error e => simp [bind, Except.bind]
  | ok a => simp [bind, Except.bind]

theorem pure_eq_ok {a b : α} : (pure a : Except ε α) = .ok b ↔ a = b :=
  ⟨Except.ok.inj, congrArg Except.ok⟩

theorem mapM_cons_eq_ok {f : α → Except ε β} {a : α} {l : List α}
    {bs : List β} :
    (a :: l).mapM f = .ok bs ↔ ∃ b cs, f a = .ok b ∧ l.mapM f = .ok cs ∧
    bs = b :: cs := by
  rw [List.mapM_cons]
  simp only [bind_eq_ok, pure_eq_ok]
  constructor
  · intro h
    obtain ⟨b, hb, cs, hcs, rfl⟩ := h
    exact ⟨b, cs, hb, hcs, rfl⟩
  · intro h
    obtain ⟨b, cs, hb, hcs, rfl⟩ := h
    exact ⟨b, hb, cs, hcs, rfl⟩

/-- All elements succeed, each with its own result. -/
theorem mapM_eq_ok {f : α → Except ε β} {l : List α} {bs : List β} :
    l.mapM f = .ok bs ↔ List.Forall₂ (fun a b => f a = .ok b) l bs := by
  induction l generalizing bs with
  | nil =>
      rw [List.forall₂_nil_left_iff]
      exact ⟨fun h => (Except.ok.inj h).symm, fun h => by rw [h]; rfl⟩
  | cons a l ih =>
      rw [mapM_cons_eq_ok, List.forall₂_cons_left_iff]
      simp only [ih]

/-- The results are those of the elements. -/
theorem mapM_eq_ok_iff_map {f : α → Except ε β} {l : List α} {bs : List β} :
    l.mapM f = .ok bs ↔ l.map f = bs.map Except.ok := by
  rw [mapM_eq_ok, ← List.forall₂_eq_eq_eq, List.forall₂_map_left_iff,
    List.forall₂_map_right_iff]

theorem mapM_eq_ok_of_forall {f : α → Except ε β} {g : α → β} {l : List α}
    (h : ∀ a ∈ l, f a = .ok (g a)) : l.mapM f = .ok (l.map g) :=
  mapM_eq_ok.mpr (List.forall₂_map_right_iff.mpr (List.forall₂_same.mpr h))

/-- What comes out comes of an element. -/
theorem exists_of_mem_mapM {f : α → Except ε β} {l : List α} {bs : List β}
    (h : l.mapM f = .ok bs)
    {b : β} (hb : b ∈ bs) : ∃ a ∈ l, f a = .ok b := by
  obtain ⟨i, hi, rfl⟩ := List.getElem_of_mem hb
  have hall := List.forall₂_iff_get.mp (mapM_eq_ok.mp h)
  exact ⟨_, List.get_mem l ⟨i, hall.1 ▸ hi⟩, hall.2 i (hall.1 ▸ hi) hi⟩

/-- Every element comes out. -/
theorem exists_of_mem {f : α → Except ε β} {l : List α} {bs : List β}
    (h : l.mapM f = .ok bs)
    {a : α} (ha : a ∈ l) : ∃ b ∈ bs, f a = .ok b := by
  obtain ⟨i, hi, rfl⟩ := List.getElem_of_mem ha
  have hall := List.forall₂_iff_get.mp (mapM_eq_ok.mp h)
  exact ⟨_, List.get_mem bs ⟨i, hall.1 ▸ hi⟩, hall.2 i hi (hall.1 ▸ hi)⟩

/-- It is enough that every element succeeds. -/
theorem exists_mapM_eq_ok {f : α → Except ε β} {l : List α}
    (h : ∀ a ∈ l, ∃ b, f a = .ok b) :
    ∃ bs, l.mapM f = .ok bs := by
  induction l with
  | nil => exact ⟨[], rfl⟩
  | cons a l ih =>
      obtain ⟨b, hb⟩ := h a List.mem_cons_self
      obtain ⟨bs, hbs⟩ := ih fun x hx => h x (List.mem_cons_of_mem _ hx)
      exact ⟨b :: bs, mapM_eq_ok.mpr (List.Forall₂.cons hb (mapM_eq_ok.mp hbs))⟩

/-- A row of steps each of which succeeds on some elements with one result. -/
theorem mapM_eq_ok_map {f : α → Except ε β} {g : α → β} {P : α → Prop}
    (h : ∀ a b, f a = .ok b ↔ P a ∧ b = g a) {l : List α} {bs : List β} :
    l.mapM f = .ok bs ↔ (∀ a ∈ l, P a) ∧ bs = l.map g := by
  have hrel : (fun a b => f a = .ok b) = fun a b => P a ∧ b = g a :=
    funext fun a => funext fun b => propext (h a b)
  rw [mapM_eq_ok, hrel]
  induction l generalizing bs with
  | nil => simp
  | cons a l ih =>
      rw [List.forall₂_cons_left_iff]
      constructor
      · intro hall
        obtain ⟨b, rest, ⟨ha, hb⟩, hrest, rfl⟩ := hall
        obtain ⟨hl, rfl⟩ := ih.mp hrest
        exact ⟨List.forall_mem_cons.mpr ⟨ha, hl⟩, by rw [hb, List.map_cons]⟩
      · intro hall
        obtain ⟨hP, rfl⟩ := hall
        obtain ⟨ha, hl⟩ := List.forall_mem_cons.mp hP
        exact ⟨g a, l.map g, ⟨ha, rfl⟩, ih.mpr ⟨hl, rfl⟩, rfl⟩

/-- The same of a loop. -/
theorem foldlM_eq_ok_foldl {f : β → α → Except ε β} {g : β → α → β}
    {P : α → Prop}
    (h : ∀ s a s', f s a = .ok s' ↔ P a ∧ s' = g s a) {l : List α} {s r : β} :
    l.foldlM f s = .ok r ↔ (∀ a ∈ l, P a) ∧ r = l.foldl g s := by
  induction l generalizing s with
  | nil =>
      rw [List.foldlM_nil, List.foldl_nil]
      exact ⟨fun heq => ⟨List.forall_mem_nil _, (Except.ok.inj heq).symm⟩,
        fun heq => by rw [heq.2]; rfl⟩
  | cons a l ih =>
      rw [List.foldlM_cons, bind_eq_ok, List.foldl_cons]
      constructor
      · intro hall
        obtain ⟨s', hs', hrest⟩ := hall
        obtain ⟨ha, rfl⟩ := (h s a s').mp hs'
        obtain ⟨hl, hr⟩ := ih.mp hrest
        exact ⟨List.forall_mem_cons.mpr ⟨ha, hl⟩, hr⟩
      · intro hall
        obtain ⟨ha, hl⟩ := List.forall_mem_cons.mp hall.1
        exact ⟨g s a, (h s a _).mpr ⟨ha, rfl⟩, ih.mpr ⟨hl, hall.2⟩⟩

/-- **The invariant of a loop**: where each step keeps it, nothing fails. -/
theorem exists_foldlM_eq_ok {f : β → α → Except ε β} {P : β → Prop} {l : List α}
    (h : ∀ s, P s → ∀ a ∈ l, ∃ s', f s a = .ok s' ∧ P s') {s : β} (hs : P s) :
    ∃ r, l.foldlM f s = .ok r ∧ P r := by
  induction l generalizing s with
  | nil => exact ⟨s, rfl, hs⟩
  | cons a l ih =>
      obtain ⟨s', hs', hP⟩ := h s hs a List.mem_cons_self
      obtain ⟨r, hr, hend⟩ :=
        ih (fun x hx b hb => h x hx b (List.mem_cons_of_mem _ hb)) hP
      exact ⟨r, bind_eq_ok.mpr ⟨s', hs', hr⟩, hend⟩

/-- A step that is taken for its failures only. -/
theorem seq_eq_ok {x : Except ε PUnit} {y : Except ε β} {b : β} :
    (x >>= fun _ => y) = .ok b ↔ x = .ok ⟨⟩ ∧ y = .ok b := by
  rw [bind_eq_ok]
  exact ⟨fun h => ⟨h.choose_spec.1, h.choose_spec.2⟩, fun h => ⟨⟨⟩, h⟩⟩

/-- A row of such steps. -/
theorem forM_eq_ok_iff {f : α → Except ε PUnit} {l : List α} :
    l.forM f = .ok ⟨⟩ ↔ ∀ a ∈ l, f a = .ok ⟨⟩ := by
  induction l with
  | nil => exact ⟨fun _ => List.forall_mem_nil _, fun _ => rfl⟩
  | cons a l ih =>
      have hstep : (a :: l).forM f = (f a >>= fun _ => l.forM f) := rfl
      rw [hstep, seq_eq_ok, List.forall_mem_cons, ih]

end Fallible
