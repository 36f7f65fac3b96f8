import Telemetryd.Lib.RoseTree

/-!
# Trees drawn as lines

A tree is often printed with a line for each node, behind a connector that says
whether more siblings follow, below the columns of the nodes above it.  Lines
with notes on the node may follow its own.  If the connectors are told from the
columns, the lines say which tree was drawn.
-/

namespace RoseTree

variable {α β γ : Type}

/-! ### Other labels -/

mutual

/-- The tree with other labels. -/
def map (f : α → β) : RoseTree α → RoseTree β
  | .node a cs => .node (f a) (mapAll f cs)

/-- The map of some trees. -/
def mapAll (f : α → β) : List (RoseTree α) → List (RoseTree β)
  | [] => []
  | c :: cs => map f c :: mapAll f cs

end

theorem mapAll_eq (f : α → β) (cs : List (RoseTree α)) :
    mapAll f cs = cs.map (map f) := by
  induction cs with
  | nil => rfl
  | cons c cs ih => rw [mapAll, ih, List.map_cons]

theorem map_node (f : α → β) (a : α) (cs : List (RoseTree α)) :
    map f (.node a cs) = .node (f a) (cs.map (map f)) := by
  rw [map, mapAll_eq]

theorem map_map (g : β → γ) (f : α → β) (t : RoseTree α) :
    (t.map f).map g = t.map (g ∘ f) := by
  induction t using induct with
  | node a cs ih =>
      rw [map_node, map_node, map_node, List.map_map]
      exact congrArg _ (List.map_congr_left ih)

theorem map_injective {f : α → β} (hf : Function.Injective f) :
    Function.Injective (map f) := by
  intro t s h
  induction t using induct generalizing s with
  | node a cs ih =>
      obtain ⟨a', cs'⟩ := s
      rw [map_node, map_node, node.injEq] at h
      obtain ⟨ha, hcs⟩ := h
      rw [hf ha]
      refine congrArg _ ?_
      induction cs generalizing cs' with
      | nil => exact (List.map_eq_nil_iff.mp hcs.symm).symm
      | cons c cs ihcs =>
          cases cs' with
          | nil => cases hcs
          | cons c' cs' =>
              obtain ⟨hc, hrest⟩ := List.forall_mem_cons.mp ih
              rw [List.map_cons, List.map_cons, List.cons.injEq] at hcs
              rw [hc hcs.1, ihcs hrest cs' hcs.2]

/-! ### The lines -/

/-- The parts of a drawing: the connector and the column of a node that is the
last of its siblings, or not, and what is put before a note. -/
structure Drawing (γ : Type) where
  turn : Bool → List γ
  column : Bool → List γ
  note : List γ
  length_eq : ∀ b c, (turn b).length = (column c).length
  turn_injective : Function.Injective turn
  apart : ∀ b c, column b ≠ turn c
  column_prefix_note : column true <+: note

namespace Drawing

variable (d : Drawing γ) (head : α → List γ) (notes : α → List (List γ))

mutual

/-- The lines of a tree, behind what is above it. -/
def lines (above : List γ) (isLast : Bool) : RoseTree α → List (List γ)
  | .node a cs =>
      (above ++ d.turn isLast ++ head a) ::
        ((notes a).map (above ++ d.column isLast ++ d.note ++ ·) ++
          linesAll (above ++ d.column isLast) cs)

/-- The lines of some trees. -/
def linesAll (above : List γ) : List (RoseTree α) → List (List γ)
  | [] => []
  | c :: cs => lines above cs.isEmpty c ++ linesAll above cs

end

/-- What is drawn of a label. -/
def entry (a : α) : List γ × List (List γ) := (head a, notes a)

variable {d head notes}

/-- A line of siblings is one of theirs. -/
theorem of_mem_linesAll {cs : List (RoseTree α)} {above l : List γ}
    (h : l ∈ d.linesAll head notes above cs) :
    ∃ c ∈ cs, ∃ b, l ∈ d.lines head notes above b c := by
  induction cs with
  | nil => cases h
  | cons c cs ih =>
      rcases List.mem_append.mp h with h | h
      · exact ⟨c, List.mem_cons_self, _, h⟩
      · obtain ⟨c', hc', hl⟩ := ih h
        exact ⟨c', List.mem_cons_of_mem _ hc', hl⟩

/-- A line stands below the columns of the nodes above it. -/
theorem above_prefix {t : RoseTree α} {above : List γ} {isLast : Bool} :
    ∀ l ∈ d.lines head notes above isLast t, above <+: l := by
  induction t using induct generalizing above isLast with
  | node a cs ih =>
      intro l hl
      rcases List.mem_cons.mp hl with rfl | hl
      · rw [List.append_assoc]
        exact List.prefix_append _ _
      · rcases List.mem_append.mp hl with hl | hl
        · obtain ⟨note, -, rfl⟩ := List.mem_map.mp hl
          simp only [List.append_assoc]
          exact List.prefix_append _ _
        · obtain ⟨c, hc, b, hl⟩ := of_mem_linesAll hl
          exact (List.prefix_append above _).trans (ih c hc l hl)

theorem above_prefix_all {cs : List (RoseTree α)} {above : List γ} :
    ∀ l ∈ d.linesAll head notes above cs, above <+: l := by
  intro l hl
  obtain ⟨c, -, b, hl⟩ := of_mem_linesAll hl
  exact above_prefix l hl

/-- A property of all that is put into the lines. -/
theorem forall_mem_lines {P : γ → Prop} (hturn : ∀ b, ∀ x ∈ d.turn b, P x)
    (hcolumn : ∀ b, ∀ x ∈ d.column b, P x) (hnote : ∀ x ∈ d.note, P x)
    {t : RoseTree α}
    (hlabels : ∀ a ∈ t.labels, (∀ x ∈ head a, P x) ∧
      ∀ l ∈ notes a, ∀ x ∈ l, P x)
    {above : List γ} (habove : ∀ x ∈ above, P x) {isLast : Bool} :
    ∀ l ∈ d.lines head notes above isLast t, ∀ x ∈ l, P x := by
  induction t using induct generalizing above isLast with
  | node a cs ih =>
      rw [labels_node] at hlabels
      obtain ⟨⟨hhead, hnotes⟩, hbelow⟩ := List.forall_mem_cons.mp hlabels
      have hup : ∀ x ∈ above ++ d.column isLast, P x :=
        List.forall_mem_append.mpr ⟨habove, hcolumn isLast⟩
      intro l hl
      rcases List.mem_cons.mp hl with rfl | hl
      · exact List.forall_mem_append.mpr
          ⟨List.forall_mem_append.mpr ⟨habove, hturn isLast⟩, hhead⟩
      · rcases List.mem_append.mp hl with hl | hl
        · obtain ⟨note, hmem, rfl⟩ := List.mem_map.mp hl
          exact List.forall_mem_append.mpr
            ⟨List.forall_mem_append.mpr ⟨hup, hnote⟩, hnotes note hmem⟩
        · obtain ⟨c, hc, b, hl⟩ := of_mem_linesAll hl
          exact ih c hc (fun a ha =>
            hbelow a (List.mem_flatMap.mpr ⟨c, hc, ha⟩)) hup l hl

/-- No line with a connector has a column in its place. -/
theorem not_column_prefix (above rest : List γ) (b c : Bool) :
    ¬ above ++ d.column b <+: above ++ d.turn c ++ rest := by
  intro h
  rw [List.append_assoc, List.prefix_append_right_inj] at h
  have hturn :=
    List.prefix_of_prefix_length_le h (List.prefix_append (d.turn c) rest)
    (Nat.le_of_eq (d.length_eq c b).symm)
  exact d.apart b c (hturn.eq_of_length (d.length_eq c b).symm)

/-- The lines of siblings start at a connector. -/
theorem not_column_prefix_head {above : List γ} {cs : List (RoseTree α)}
    (b : Bool) :
    ∀ l ∈ (d.linesAll head notes above cs).head?,
      ¬ above ++ d.column b <+: l := by
  intro l hl
  cases cs with
  | nil => cases hl
  | cons c cs =>
      obtain ⟨a, ds⟩ := c
      obtain rfl := Option.some.inj hl
      exact not_column_prefix _ _ _ _

/-- Lists are split where a property of the elements ends. -/
theorem append_inj_of_forall {δ : Type} {p : δ → Prop} {l l' r r' : List δ}
    (hl : ∀ x ∈ l, p x)
    (hl' : ∀ x ∈ l', p x) (hr : ∀ x ∈ r.head?, ¬ p x)
    (hr' : ∀ x ∈ r'.head?, ¬ p x)
    (h : l ++ r = l' ++ r') : l = l' ∧ r = r' := by
  induction l generalizing l' with
  | nil =>
      cases l' with
      | nil => exact ⟨rfl, h⟩
      | cons x l' =>
          rw [List.nil_append] at h
          rw [h] at hr
          exact absurd (hl' x List.mem_cons_self) (hr x rfl)
  | cons x l ih =>
      cases l' with
      | nil =>
          rw [List.nil_append] at h
          rw [← h] at hr'
          exact absurd (hl x List.mem_cons_self) (hr' x rfl)
      | cons y l' =>
          rw [List.cons_append, List.cons_append, List.cons.injEq] at h
          obtain ⟨rfl, h⟩ := h
          obtain ⟨rfl, hrest⟩ :=
            ih (List.forall_mem_cons.mp hl).2 (List.forall_mem_cons.mp hl').2 h
          exact ⟨rfl, hrest⟩

/-- The lines of a node after its own. -/
theorem lines_eq_cons (above : List γ) (isLast : Bool) (t : RoseTree α) :
    ∃ x rest, d.lines head notes above isLast t =
      (above ++ d.turn isLast ++ x) :: rest ∧
      ∀ l ∈ rest, above ++ d.column isLast <+: l := by
  obtain ⟨a, cs⟩ := t
  refine ⟨_, _, rfl, fun l hl => ?_⟩
  rcases List.mem_append.mp hl with hl | hl
  · obtain ⟨note, -, rfl⟩ := List.mem_map.mp hl
    rw [List.append_assoc]
    exact List.prefix_append _ _
  · exact above_prefix_all l hl

/-- Siblings that are drawn alike are drawn alike one by one. -/
theorem linesAll_cons_inj {above : List γ} {c c' : RoseTree α}
    {cs cs' : List (RoseTree α)}
    (h : d.linesAll head notes above (c :: cs) =
      d.linesAll head notes above (c' :: cs')) :
    d.lines head notes above cs.isEmpty c =
      d.lines head notes above cs'.isEmpty c' ∧
      d.linesAll head notes above cs = d.linesAll head notes above cs' := by
  obtain ⟨x, rest, hc, hrest⟩ :
      ∃ x rest, d.lines head notes above cs.isEmpty c =
        (above ++ d.turn cs.isEmpty ++ x) :: rest ∧
          ∀ l ∈ rest, above ++ d.column cs.isEmpty <+: l :=
    lines_eq_cons above _ c
  obtain ⟨x', rest', hc', hrest'⟩ :
      ∃ x rest, d.lines head notes above cs'.isEmpty c' =
        (above ++ d.turn cs'.isEmpty ++ x) :: rest ∧
        ∀ l ∈ rest, above ++ d.column cs'.isEmpty <+: l :=
    lines_eq_cons above _ c'
  rw [linesAll, linesAll, hc, hc', List.cons_append, List.cons_append,
    List.cons.injEq] at h
  obtain ⟨hfirst, h⟩ := h
  obtain ⟨hsame, hbelow⟩ :=
    append_inj_of_forall (p := fun l => ∃ b, above ++ d.column b <+: l)
    (fun l hl => ⟨_, hrest l hl⟩) (fun l hl => ⟨_, hrest' l hl⟩)
    (fun l hl ⟨b, hb⟩ => not_column_prefix_head b l hl hb)
    (fun l hl ⟨b, hb⟩ => not_column_prefix_head b l hl hb) h
  rw [hc, hc', hfirst, hsame]
  exact ⟨rfl, hbelow⟩

/-- Siblings that are drawn alike are alike if one that is drawn alike is. -/
theorem linesAll_inj_of {above : List γ} {cs cs' : List (RoseTree α)}
    (hone : ∀ c ∈ cs, ∀ s b b', d.lines head notes above b c =
      d.lines head notes above b' s →
      c.map (entry head notes) = s.map (entry head notes))
    (h : d.linesAll head notes above cs = d.linesAll head notes above cs') :
    cs.map (map (entry head notes)) = cs'.map (map (entry head notes)) := by
  induction cs generalizing cs' with
  | nil =>
      cases cs' with
      | nil => rfl
      | cons c cs' =>
          obtain ⟨_, _⟩ := c
          cases h
  | cons c cs ih =>
      cases cs' with
      | nil =>
          obtain ⟨_, _⟩ := c
          cases h
      | cons c' cs' =>
          obtain ⟨hc, hcs⟩ := List.forall_mem_cons.mp hone
          obtain ⟨hfirst, hrest⟩ := linesAll_cons_inj h
          rw [List.map_cons, List.map_cons, hc c' _ _ hfirst, ih hcs hrest]

/-- The own line of a node says the connector and the head. -/
theorem turn_head_inj {above x y : List γ} {b c : Bool}
    (h : above ++ d.turn b ++ x = above ++ d.turn c ++ y) : b = c ∧ x = y := by
  rw [List.append_assoc, List.append_assoc, List.append_cancel_left_eq] at h
  obtain ⟨hturn, hhead⟩ :=
    List.append_inj h ((d.length_eq b true).trans (d.length_eq c true).symm)
  exact ⟨d.turn_injective hturn, hhead⟩

/-- The lines after it say the notes and the lines of the children. -/
theorem notes_inj {up : List γ} {l l' : List (List γ)}
    {cs cs' : List (RoseTree α)}
    (h : l.map (up ++ d.note ++ ·) ++ d.linesAll head notes up cs
      = l'.map (up ++ d.note ++ ·) ++ d.linesAll head notes up cs') :
    l = l' ∧ d.linesAll head notes up cs = d.linesAll head notes up cs' := by
  have hnote : ∀ l : List (List γ), ∀ x ∈ l.map (up ++ d.note ++ ·),
      up ++ d.column true <+: x := by
    intro l x hx
    obtain ⟨note, -, rfl⟩ := List.mem_map.mp hx
    rw [List.append_assoc, List.prefix_append_right_inj]
    exact d.column_prefix_note.trans (List.prefix_append _ _)
  obtain ⟨hnotes, hbelow⟩ := append_inj_of_forall (hnote l) (hnote l')
    (not_column_prefix_head true) (not_column_prefix_head true) h
  exact ⟨List.map_injective_iff.mpr (fun _ _ => List.append_cancel_left) hnotes,
    hbelow⟩

/-- **The lines of a tree** say what is drawn of it. -/
theorem lines_inj {t s : RoseTree α} {above : List γ} {b c : Bool}
    (h : d.lines head notes above b t = d.lines head notes above c s) :
    t.map (entry head notes) = s.map (entry head notes) := by
  induction t using induct generalizing s above b c with
  | node a cs ih =>
      obtain ⟨a', cs'⟩ := s
      rw [lines, lines, List.cons.injEq] at h
      obtain ⟨rfl, hhead⟩ := turn_head_inj h.1
      obtain ⟨hnotes, hbelow⟩ := notes_inj h.2
      have hentry : entry head notes a = entry head notes a' :=
        Prod.ext hhead hnotes
      rw [map_node, map_node, hentry,
        linesAll_inj_of (fun c hc s b b' => ih c hc) hbelow]

/-- What is drawn is all that the lines are made from. -/
theorem lines_map (t : RoseTree α) (above : List γ) (b : Bool) :
    d.lines head notes above b t =
      d.lines Prod.fst Prod.snd above b (t.map (entry head notes)) := by
  induction t using induct generalizing above b with
  | node a cs ih =>
      have hall : ∀ up, d.linesAll head notes up cs =
          d.linesAll Prod.fst Prod.snd up
            (cs.map (map (entry head notes))) := by
        intro up
        induction cs with
        | nil => rfl
        | cons c cs ihcs =>
            obtain ⟨hc, hcs⟩ := List.forall_mem_cons.mp ih
            rw [linesAll, List.map_cons, linesAll, ihcs hcs, hc,
              List.isEmpty_map]
      rw [map_node, lines, lines, hall]
      rfl

theorem linesAll_map (cs : List (RoseTree α)) (above : List γ) :
    d.linesAll head notes above cs =
    d.linesAll Prod.fst Prod.snd above (cs.map (map (entry head notes))) := by
  induction cs with
  | nil => rfl
  | cons c cs ih =>
      rw [linesAll, List.map_cons, linesAll, ih, lines_map, List.isEmpty_map]

/-- **The lines of siblings** say what is drawn of them, and nothing else. -/
theorem linesAll_eq_iff {above : List γ} {cs cs' : List (RoseTree α)} :
    d.linesAll head notes above cs = d.linesAll head notes above cs' ↔
      cs.map (map (entry head notes)) = cs'.map (map (entry head notes)) := by
  constructor
  · exact linesAll_inj_of fun c _ s b b' => lines_inj
  · intro h
    rw [linesAll_map cs, linesAll_map cs', h]

end Drawing

end RoseTree
