import Mathlib.Data.List.Induction
import Mathlib.Data.List.Nodup
import Mathlib.Logic.Function.Basic
import Telemetryd.Lib.RoseTree

/-!
# Trees with an index

A program builds a tree and looks each node up by its key before it makes one.
A node that is there already is neither moved nor changed, so that the first
request for a key decides where its node is and what it says.  Other trees are
hung below a node and not entered in the index.

The chains of the tree that is built are those of the first requests and of the
trees that are hung (`chains_grow`), and another order of the same moves gives a
tree that differs in the order of siblings only (`alike_grow`).
-/

open RoseTree

/-- A tree and the keys by which its nodes are found. -/
structure IndexedTree (α K : Type) where
  tree : RoseTree α
  index : List K

namespace IndexedTree

/-- A node that is asked for: its key, the key of the node above it and its
label, which may be impossible to make. -/
structure NodeRequest (α K ε : Type) where
  parent : K
  key : K
  describe : Except ε α

/-- What is done to the tree. -/
inductive Move (α K ε : Type) where
  | place (r : NodeRequest α K ε)
  | hang (parent : K) (t : RoseTree α)

variable {α K ε : Type} [DecidableEq K]

section

variable (key : α → K)

/-- A node is found, or made below another one. -/
def place (s : IndexedTree α K) (r : NodeRequest α K ε) :
    Except ε (IndexedTree α K) :=
  if r.key ∈ s.index then .ok s
  else do
    let a ← r.describe
    return { tree := graft key r.parent (.node a []) s.tree, index := s.index ++ [r.key] }

/-- A tree becomes the last child of a node. -/
def hang (s : IndexedTree α K) (parent : K) (t : RoseTree α) :
    IndexedTree α K :=
  { s with tree := graft key parent t s.tree }

/-- One move on an indexed tree. -/
def move (s : IndexedTree α K) : Move α K ε → Except ε (IndexedTree α K)
  | .place r => s.place key r
  | .hang parent t => .ok (s.hang key parent t)

/-- A run of the program. -/
def grow (s : IndexedTree α K) (ms : List (Move α K ε)) :
    Except ε (IndexedTree α K) :=
  ms.foldlM (move key) s

end

/-! ### First requests -/

/-- The requests that make a node. -/
def news : List K → List (Move α K ε) → List (NodeRequest α K ε)
  | _, [] => []
  | index, .place r :: ms =>
      if r.key ∈ index then news index ms else r :: news (index ++ [r.key]) ms
  | index, .hang _ _ :: ms => news index ms

theorem place_mem_of_mem_news {ms : List (Move α K ε)} {index : List K}
    {r : NodeRequest α K ε}
    (h : r ∈ news index ms) : Move.place r ∈ ms := by
  induction ms generalizing index with
  | nil => cases h
  | cons m ms ih =>
      cases m with
      | hang parent t => exact List.mem_cons_of_mem _ (ih h)
      | place q =>
          rw [news] at h
          split at h
          · exact List.mem_cons_of_mem _ (ih h)
          · rcases List.mem_cons.mp h with rfl | h
            · exact List.mem_cons_self
            · exact List.mem_cons_of_mem _ (ih h)

/-- No two of them have the same key, and none has a key of the index. -/
theorem nodup_news {ms : List (Move α K ε)} {index : List K} (h : index.Nodup) :
    (index ++ (news index ms).map NodeRequest.key).Nodup := by
  induction ms generalizing index with
  | nil =>
      rw [news, List.map_nil, List.append_nil]
      exact h
  | cons m ms ih =>
      cases m with
      | hang parent t => exact ih h
      | place q =>
          rw [news]
          by_cases hq : q.key ∈ index
          · rw [if_pos hq]
            exact ih h
          · have hnew : (index ++ [q.key]).Nodup :=
              List.nodup_append'.mpr ⟨h,
                List.nodup_singleton _, by simpa using hq⟩
            have := ih hnew
            rw [List.append_assoc] at this
            rw [if_neg hq]
            exact this

/-- Each key that is asked for was there, or has a first request. -/
theorem exists_mem_news {ms : List (Move α K ε)} {r : NodeRequest α K ε}
    (h : Move.place r ∈ ms)
    (index : List K) : r.key ∈ index ∨ ∃ q ∈ news index ms, q.key = r.key := by
  induction ms generalizing index with
  | nil => cases h
  | cons m ms ih =>
      cases m with
      | hang parent t =>
          rcases List.mem_cons.mp h with h | h
          · cases h
          · exact ih h index
      | place q =>
          rw [news]
          by_cases hq : q.key ∈ index
          · rw [if_pos hq]
            rcases List.mem_cons.mp h with h | h
            · injection h with h
              exact Or.inl (h ▸ hq)
            · exact ih h index
          · rw [if_neg hq]
            rcases List.mem_cons.mp h with h | h
            · injection h with h
              exact Or.inr ⟨q, List.mem_cons_self,
                congrArg NodeRequest.key h.symm⟩
            · rcases ih h (index ++ [q.key]) with hin | ⟨q', hq', hkey⟩
              · rcases List.mem_append.mp hin with hin | hin
                · exact Or.inl hin
                · exact Or.inr ⟨q, List.mem_cons_self,
                    (List.mem_singleton.mp hin).symm⟩
              · exact Or.inr ⟨q', List.mem_cons_of_mem _ hq', hkey⟩

/-- The requests among the moves. -/
def requests (ms : List (Move α K ε)) : List (NodeRequest α K ε) :=
  ms.filterMap fun
    | .place r => some r
    | .hang _ _ => none

omit [DecidableEq K] in
theorem mem_requests {ms : List (Move α K ε)} {r : NodeRequest α K ε} :
    r ∈ requests ms ↔ Move.place r ∈ ms := by
  unfold requests
  rw [List.mem_filterMap]
  constructor
  · rintro ⟨m, hm, h⟩
    cases m with
    | place q => exact Option.some.inj h ▸ hm
    | hang parent t => cases h
  · exact fun h => ⟨_, h, rfl⟩

/-- **A first request** is what a search for its key finds. -/
theorem mem_news_iff_find? {ms : List (Move α K ε)} {index : List K}
    {r : NodeRequest α K ε} :
    r ∈ news index ms ↔
      r.key ∉ index ∧ (requests ms).find? (fun q => decide (q.key = r.key)) =
        some r := by
  induction ms generalizing index with
  | nil => simp [news, requests]
  | cons m ms ih =>
      cases m with
      | hang parent t => exact ih
      | place q =>
          have hrequests : requests (.place q :: ms) = q :: requests ms := rfl
          rw [news, hrequests, List.find?_cons]
          by_cases hkey : q.key = r.key
          · rw [decide_eq_true hkey]
            by_cases hq : q.key ∈ index
            · rw [if_pos hq]
              refine iff_of_false (fun h => ?_) fun h => h.1 (hkey ▸ hq)
              exact (ih.mp h).1 (hkey ▸ hq)
            · rw [if_neg hq, List.mem_cons]
              constructor
              · rintro (rfl | h)
                · exact ⟨hq, rfl⟩
                · exact absurd
                    (List.mem_append_right _ (List.mem_singleton.mpr hkey.symm))
                    (ih.mp h).1
              · rintro ⟨-, h⟩
                exact Or.inl (Option.some.inj h).symm
          · rw [decide_eq_false hkey]
            by_cases hq : q.key ∈ index
            · rw [if_pos hq]
              exact ih
            · rw [if_neg hq, List.mem_cons, ih, List.mem_append,
                List.mem_singleton]
              have hne : r ≠ q :=
                fun h => hkey (congrArg NodeRequest.key h.symm)
              have hne' : r.key ≠ q.key := Ne.symm hkey
              simp only [hne, hne', false_or, or_false]

/-! ### Runs -/

section

variable {key : α → K} {s s' : IndexedTree α K}

theorem place_of_mem {r : NodeRequest α K ε} (h : r.key ∈ s.index) :
    s.place key r = .ok s := if_pos h

theorem place_eq_ok {r : NodeRequest α K ε} {a : α} (h : r.key ∉ s.index)
    (ha : r.describe = .ok a) :
    s.place key r
      = .ok { tree := graft key r.parent (.node a []) s.tree, index := s.index ++ [r.key] } := by
  rw [place, if_neg h, ha]
  rfl

theorem place_eq_error {r : NodeRequest α K ε} {e : ε} (h : r.key ∉ s.index)
    (he : r.describe = .error e) : s.place key r = .error e := by
  rw [place, if_neg h, he]
  rfl

theorem grow_cons (m : Move α K ε) (ms : List (Move α K ε)) :
    s.grow key (m :: ms) = (do
      let t ← s.move key m
      t.grow key ms) := List.foldlM_cons

/-- **The run ends** if each first request can be met. -/
theorem succeeds_grow_iff {ms : List (Move α K ε)} :
    (∃ t, s.grow key ms = .ok t) ↔ ∀ r ∈ news s.index ms, ∃ a,
      r.describe = .ok a := by
  induction ms generalizing s with
  | nil => exact iff_of_true ⟨s, rfl⟩ fun r hr => absurd hr List.not_mem_nil
  | cons m ms ih =>
      rw [grow_cons]
      cases m with
      | hang parent t => exact ih
      | place r =>
          rw [move, news]
          by_cases hr : r.key ∈ s.index
          · rw [place_of_mem hr, if_pos hr]
            exact ih
          · rw [if_neg hr, List.forall_mem_cons]
            cases hdescribe : r.describe with
            | error e =>
                rw [place_eq_error hr hdescribe]
                constructor
                · rintro ⟨t, ht⟩
                  cases ht
                · rintro ⟨⟨a, ha⟩, -⟩
                  cases ha
            | ok a =>
                rw [place_eq_ok hr hdescribe]
                exact ih.trans ⟨fun h => ⟨⟨a, rfl⟩, h⟩, fun h => h.2⟩

/-- The keys of the tree at the end. -/
theorem index_grow {ms : List (Move α K ε)} (h : s.grow key ms = .ok s') :
    s'.index = s.index ++ (news s.index ms).map NodeRequest.key := by
  induction ms generalizing s with
  | nil =>
      rw [← Except.ok.inj h, news, List.map_nil, List.append_nil]
  | cons m ms ih =>
      rw [grow_cons] at h
      cases m with
      | hang parent t =>
          have hrest : (s.hang key parent t).grow key ms = .ok s' := h
          exact ih (s := s.hang key parent t) hrest
      | place r =>
          rw [move] at h
          rw [news]
          by_cases hr : r.key ∈ s.index
          · rw [place_of_mem hr] at h
            rw [if_pos hr]
            exact ih h
          · rw [if_neg hr]
            cases hdescribe : r.describe with
            | error e =>
                rw [place_eq_error hr hdescribe] at h
                cases h
            | ok a =>
                rw [place_eq_ok hr hdescribe] at h
                rw [ih h, List.map_cons, List.append_assoc]
                rfl

/-! ### The chains of the tree -/

/-- Each move is below a node of the index. -/
def Placed : List K → List (Move α K ε) → Prop
  | _, [] => True
  | index, .place r :: ms => r.parent ∈ index ∧ Placed (index ++ [r.key]) ms
  | index, .hang parent _ :: ms => parent ∈ index ∧ Placed index ms

omit [DecidableEq K] in
theorem Placed.mono {ms : List (Move α K ε)} {index index' : List K}
    (h : Placed index ms)
    (hsub : index ⊆ index') : Placed index' ms := by
  induction ms generalizing index index' with
  | nil => trivial
  | cons m ms ih =>
      cases m with
      | hang parent t => exact ⟨hsub h.1, ih h.2 hsub⟩
      | place r =>
          refine ⟨hsub h.1, ih h.2 fun k hk => ?_⟩
          rcases List.mem_append.mp hk with hk | hk
          · exact List.mem_append_left _ (hsub hk)
          · exact List.mem_append_right _ hk

omit [DecidableEq K] in
theorem Placed.append {ms ms' : List (Move α K ε)} {index : List K}
    (h : Placed index ms)
    (h' : Placed index ms') : Placed index (ms ++ ms') := by
  induction ms generalizing index with
  | nil => exact h'
  | cons m ms ih =>
      cases m with
      | hang parent t => exact ⟨h.1, ih h.2 h'⟩
      | place r => exact ⟨h.1, ih h.2 (h'.mono (List.subset_append_left _ _))⟩

/-- The requests for the nodes of a path, each below the one before. -/
def path (parent : K) : List (K × Except ε α) → List (NodeRequest α K ε)
  | [] => []
  | e :: l => ⟨parent, e.1, e.2⟩ :: path e.1 l

/-- The key at the end of a path. -/
def lastKey (parent : K) : List (K × Except ε α) → K
  | [] => parent
  | e :: l => lastKey e.1 l

omit [DecidableEq K] in
/-- A path and what is hung at its end. -/
theorem placed_path {parent : K} {index : List K} (h : parent ∈ index)
    (l : List (K × Except ε α))
    (t : RoseTree α) :
    Placed index ((path parent l).map Move.place ++
      [.hang (lastKey parent l) t]) := by
  induction l generalizing parent index with
  | nil => exact ⟨h, trivial⟩
  | cons e l ih =>
      exact ⟨h, ih (List.mem_append_right _ (List.mem_singleton_self _))⟩

omit [DecidableEq K] in
theorem path_append (parent : K) (l : List (K × Except ε α))
    (e : K × Except ε α) :
    path parent (l ++ [e]) =
      path parent l ++ [⟨lastKey parent l, e.1, e.2⟩] := by
  induction l generalizing parent with
  | nil => rfl
  | cons d l ih => exact congrArg (_ :: ·) (ih d.1)

omit [DecidableEq K] in
theorem lastKey_append (parent : K) (l : List (K × Except ε α))
    (e : K × Except ε α) :
    lastKey parent (l ++ [e]) = e.1 := by
  induction l generalizing parent with
  | nil => rfl
  | cons d l ih => exact ih d.1

/-- A node says the key that it was asked for by, an inner key, and a tree that
is hung has no inner keys. -/
def Move.Proper (key : α → K) (inner : K → Prop) : Move α K ε → Prop
  | .place r => inner r.key ∧ ∀ a, r.describe = .ok a → key a = r.key
  | .hang _ t => ∀ a ∈ t.labels, ¬ inner (key a)

/-- The chain to the node of each inner key of the index, and that there is no
other. -/
def Known (key : α → K) (inner : K → Prop) (real : K → List α)
    (s : IndexedTree α K) : Prop :=
  ∀ k, inner k → (chains s.tree).filter (endsAt key k) =
    if k ∈ s.index then [real k] else []

variable {inner : K → Prop} {real : K → List α}

/-- The chains of the tree after a tree is grafted. -/
theorem Known.chains_graft (h : Known key inner real s) {p : K} (hp : inner p)
    (hmem : p ∈ s.index)
    (x : RoseTree α) :
    (chains (graft key p x s.tree)).Perm (chains s.tree ++
      (chains x).map (real p ++ ·)) :=
  chains_graft_of_unique (by rw [h p hp, if_pos hmem])

theorem Known.filter_graft (h : Known key inner real s) {p : K} (hp : inner p)
    (hmem : p ∈ s.index)
    (x : RoseTree α) (k : K) :
    ((chains (graft key p x s.tree)).filter (endsAt key k)).Perm
      ((chains s.tree).filter (endsAt key k) ++
        ((chains x).filter (endsAt key k)).map (real p ++ ·)) := by
  have hfilter : ((chains x).map (real p ++ ·)).filter (endsAt key k)
      = ((chains x).filter (endsAt key k)).map (real p ++ ·) := by
    rw [List.filter_map]
    refine congrArg _ (List.filter_congr fun c hc => ?_)
    exact endsAt_append key k (real p) (ne_nil_of_mem_chains hc)
  have := (h.chains_graft hp hmem x).filter (endsAt key k)
  rwa [List.filter_append, hfilter] at this

/-- **A new node** keeps the chains known. -/
theorem Known.place (h : Known key inner real s) {r : NodeRequest α K ε} {a : α}
    (hp : inner r.parent)
    (hmem : r.parent ∈ s.index) (hr : r.key ∉ s.index) (hkey : key a = r.key)
    (hreal : real r.key = real r.parent ++ [a]) :
    Known key inner real
      { tree := graft key r.parent (.node a []) s.tree,
        index := s.index ++ [r.key] } := by
  have hchains : chains (.node a []) = [[a]] := rfl
  intro k hinner
  have hperm := h.filter_graft hp hmem (.node a []) k
  rw [h k hinner, hchains] at hperm
  by_cases heq : k = r.key
  · have hends : [[a]].filter (endsAt key k) = [[a]] := by
      simp [endsAt, hkey, heq]
    rw [hends, heq, if_neg hr, List.nil_append,
      List.map_singleton, ← hreal] at hperm
    rw [heq, if_pos (List.mem_append_right _ (List.mem_singleton_self _))]
    exact List.perm_singleton.mp hperm
  · have hends : [[a]].filter (endsAt key k) = [] := by
      simp [endsAt, hkey, Ne.symm heq]
    rw [hends, List.map_nil, List.append_nil] at hperm
    have hsame : (k ∈ s.index ++ [r.key]) = (k ∈ s.index) := by
      simp [heq]
    simp only [hsame]
    by_cases hin : k ∈ s.index
    · rw [if_pos hin] at hperm ⊢
      exact List.perm_singleton.mp hperm
    · rw [if_neg hin] at hperm ⊢
      exact List.perm_nil.mp hperm

/-- A tree that is hung keeps the chains known. -/
theorem Known.hang (h : Known key inner real s) {p : K} (hp : inner p)
    (hmem : p ∈ s.index)
    {t : RoseTree α} (ht : ∀ a ∈ t.labels, ¬ inner (key a)) :
    Known key inner real (s.hang key p t) := by
  intro k hinner
  have hperm := h.filter_graft hp hmem t k
  have hends : (chains t).filter (endsAt key k) = [] := by
    refine List.filter_eq_nil_iff.mpr fun c hc hend => ?_
    obtain ⟨a, ha, hkey⟩ := Option.map_eq_some_iff.mp (of_decide_eq_true hend)
    exact ht a (List.mem_filterMap.mpr ⟨c, hc, ha⟩) (hkey ▸ hinner)
  rw [hends, List.map_nil, List.append_nil, h k hinner] at hperm
  by_cases hin : k ∈ s.index
  · rw [if_pos hin] at hperm
    rw [if_pos (show k ∈ (s.hang key p t).index from hin)]
    exact List.perm_singleton.mp hperm
  · rw [if_neg hin] at hperm
    rw [if_neg (show k ∉ (s.hang key p t).index from hin)]
    exact List.perm_nil.mp hperm

/-- The chains that a move adds by hanging a tree. -/
def hung (real : K → List α) : Move α K ε → List (List α)
  | .place _ => []
  | .hang parent t => (chains t).map (real parent ++ ·)

/-- **The chains of the tree at the end** are those at the start, one for each
first request, and those of the trees that are hung. -/
theorem chains_grow {ms : List (Move α K ε)} (h : s.grow key ms = .ok s')
    (hknown : Known key inner real s) (hindex : ∀ k ∈ s.index, inner k)
    (hplaced : Placed s.index ms)
    (hproper : ∀ m ∈ ms, m.Proper key inner)
    (hreal : ∀ r ∈ news s.index ms, ∀ a, r.describe = .ok a →
      real r.key = real r.parent ++ [a]) :
    Known key inner real s' ∧ (chains s'.tree).Perm (chains s.tree ++
      ((news s.index ms).map (fun r => real r.key) ++
        ms.flatMap (hung real))) := by
  induction ms generalizing s with
  | nil =>
      rw [← Except.ok.inj h]
      refine ⟨hknown, ?_⟩
      rw [news, List.map_nil, List.flatMap_nil, List.append_nil,
        List.append_nil]
  | cons m ms ih =>
      obtain ⟨hm, hothers⟩ := List.forall_mem_cons.mp hproper
      rw [grow_cons] at h
      cases m with
      | hang parent t =>
          have hrest : (s.hang key parent t).grow key ms = .ok s' := h
          obtain ⟨hmem, hplaced⟩ := hplaced
          have hp := hindex parent hmem
          obtain ⟨hknown', hperm⟩ :=
            ih hrest (hknown.hang hp hmem hm) hindex hplaced hothers hreal
          refine ⟨hknown', hperm.trans ?_⟩
          have hgraft := hknown.chains_graft hp hmem t
          refine (hgraft.append_right _).trans ?_
          rw [List.flatMap_cons, hung, List.append_assoc]
          refine List.Perm.append_left _ ?_
          exact List.perm_append_comm_assoc _ _ _
      | place r =>
          rw [move] at h
          obtain ⟨hmem, hplaced⟩ := hplaced
          have hp := hindex r.parent hmem
          rw [news] at hreal ⊢
          by_cases hr : r.key ∈ s.index
          · rw [place_of_mem hr] at h
            rw [if_pos hr] at hreal ⊢
            refine ih h hknown hindex (hplaced.mono ?_) hothers hreal
            simp [hr]
          · rw [if_neg hr] at hreal ⊢
            obtain ⟨hfirst, hreal⟩ := List.forall_mem_cons.mp hreal
            cases hdescribe : r.describe with
            | error e =>
                rw [place_eq_error hr hdescribe] at h
                cases h
            | ok a =>
                rw [place_eq_ok hr hdescribe] at h
                have hchain := hfirst a hdescribe
                have hnew := hknown.place hp hmem hr (hm.2 a hdescribe) hchain
                have hindex' : ∀ k ∈ s.index ++ [r.key], inner k := by
                  intro k hk
                  rcases List.mem_append.mp hk with hk | hk
                  · exact hindex k hk
                  · rw [List.mem_singleton.mp hk]
                    exact hm.1
                obtain ⟨hknown', hperm⟩ :=
                  ih h hnew hindex' hplaced hothers hreal
                refine ⟨hknown', hperm.trans ?_⟩
                have hgraft := hknown.chains_graft hp hmem (.node a [])
                refine (hgraft.append_right _).trans ?_
                rw [List.map_cons, hchain, List.append_assoc, List.flatMap_cons,
                  hung]
                exact List.Perm.refl _

/-- A property of chains that a graft keeps. -/
theorem forall_chains_graft {Q : List α → Prop} {p : K} {x t : RoseTree α}
    (ht : ∀ c ∈ chains t, Q c)
    (hx : ∀ c, Q c → endsAt key p c = true → ∀ d ∈ chains x, Q (c ++ d)) :
    ∀ c ∈ chains (graft key p x t), Q c := by
  intro c hc
  rcases List.mem_append.mp ((chains_graft t).mem_iff.mp hc) with hc | hc
  · exact ht c hc
  · obtain ⟨b, hb, hc⟩ := List.mem_flatMap.mp hc
    obtain ⟨hb, hends⟩ := List.mem_filter.mp hb
    obtain ⟨d, hd, rfl⟩ := List.mem_map.mp hc
    exact hx b (ht b hb) hends d hd

/-- **A property of chains that every move keeps** holds of the tree at the
end. -/
theorem forall_chains_grow {Q : List α → Prop} {ms : List (Move α K ε)}
    (h : s.grow key ms = .ok s') (hstart : ∀ c ∈ chains s.tree, Q c)
    (hplace : ∀ r, Move.place r ∈ ms → ∀ a, r.describe = .ok a → ∀ c, Q c →
      endsAt key r.parent c = true → Q (c ++ [a]))
    (hhang : ∀ p t, Move.hang p t ∈ ms → ∀ c, Q c → endsAt key p c = true →
      ∀ d ∈ chains t, Q (c ++ d)) :
    ∀ c ∈ chains s'.tree, Q c := by
  induction ms generalizing s with
  | nil =>
      rw [← Except.ok.inj h]
      exact hstart
  | cons m ms ih =>
      rw [grow_cons] at h
      have hplace' := fun r hr => hplace r (List.mem_cons_of_mem m hr)
      have hhang' := fun p t ht => hhang p t (List.mem_cons_of_mem m ht)
      cases m with
      | hang p t =>
          have hrest : (s.hang key p t).grow key ms = .ok s' := h
          refine ih hrest ?_ hplace' hhang'
          exact forall_chains_graft hstart (hhang p t List.mem_cons_self)
      | place r =>
          rw [move] at h
          by_cases hr : r.key ∈ s.index
          · rw [place_of_mem hr] at h
            exact ih h hstart hplace' hhang'
          · cases hdescribe : r.describe with
            | error e =>
                rw [place_eq_error hr hdescribe] at h
                cases h
            | ok a =>
                rw [place_eq_ok hr hdescribe] at h
                refine ih h ?_ hplace' hhang'
                refine forall_chains_graft hstart fun c hc hends d hd => ?_
                obtain rfl := List.mem_singleton.mp hd
                exact hplace r List.mem_cons_self a hdescribe c hc hends

/-- The keys of a tree that is hung. -/
def hungKeys (key : α → K) : Move α K ε → List K
  | .place _ => []
  | .hang _ t => t.labels.map key

/-- **The keys of the tree at the end** are those at the start, those of the
first requests and those of the trees that are hung. -/
theorem keys_grow {ms : List (Move α K ε)} (h : s.grow key ms = .ok s')
    (hknown : Known key inner real s) (hindex : ∀ k ∈ s.index, inner k)
    (hplaced : Placed s.index ms)
    (hproper : ∀ m ∈ ms, m.Proper key inner)
    (hreal : ∀ r ∈ news s.index ms, ∀ a, r.describe = .ok a →
      real r.key = real r.parent ++ [a]) :
    (s'.tree.labels.map key).Perm (s.tree.labels.map key ++
      ((news s.index ms).map NodeRequest.key ++
        ms.flatMap (hungKeys key))) := by
  have hlast : ∀ r ∈ news s.index ms, (real r.key).getLast?.map key =
      some r.key := by
    intro r hr
    obtain ⟨a, ha⟩ := succeeds_grow_iff.mp ⟨s', h⟩ r hr
    rw [hreal r hr a ha, List.getLast?_concat, Option.map_some,
      (hproper _ (place_mem_of_mem_news hr)).2 a ha]
  have hnews :
      (((news s.index ms).map fun r => real r.key).filterMap List.getLast?).map
      key
      = (news s.index ms).map NodeRequest.key := by
    rw [List.filterMap_map, List.map_filterMap]
    exact (List.filterMap_congr hlast).trans (congrFun List.filterMap_eq_map _)
  have hhung : ((ms.flatMap (hung real)).filterMap List.getLast?).map key
      = ms.flatMap (hungKeys key) := by
    rw [List.filterMap_flatMap, List.map_flatMap]
    refine List.flatMap_congr fun m _ => ?_
    cases m with
    | place r => rfl
    | hang parent t =>
        exact congrArg (List.map key)
          (filterMap_getLast?_append (fun c hc =>
            ne_nil_of_mem_chains hc) (real parent))
  have hperm :=
    ((chains_grow h hknown hindex hplaced hproper hreal).2.filterMap
    List.getLast?).map key
  rw [List.filterMap_append, List.filterMap_append, List.map_append,
    List.map_append, hnews,
    hhung] at hperm
  exact hperm

/-- The node that a move is below. -/
def Move.parent : Move α K ε → K
  | .place r => r.parent
  | .hang parent _ => parent

/-- What is above a move was there, or is asked for. -/
theorem exists_parent {ms : List (Move α K ε)} {index : List K}
    (hplaced : Placed index ms)
    {m : Move α K ε} (hm : m ∈ ms) :
    m.parent ∈ index ∨ ∃ q ∈ news index ms, q.key = m.parent := by
  induction ms generalizing index with
  | nil => cases hm
  | cons m' ms ih =>
      cases m' with
      | hang parent t =>
          rcases List.mem_cons.mp hm with rfl | hm
          · exact Or.inl hplaced.1
          · exact ih hplaced.2 hm
      | place r =>
          rw [news]
          rcases List.mem_cons.mp hm with rfl | hm
          · exact Or.inl hplaced.1
          · by_cases hr : r.key ∈ index
            · rw [if_pos hr]
              exact ih (hplaced.2.mono (by simp [hr])) hm
            · rw [if_neg hr]
              rcases ih hplaced.2 hm with hin | ⟨q, hq, hkey⟩
              · rcases List.mem_append.mp hin with hin | hin
                · exact Or.inl hin
                · exact Or.inr ⟨r, List.mem_cons_self,
                    (List.mem_singleton.mp hin).symm⟩
              · exact Or.inr ⟨q, List.mem_cons_of_mem _ hq, hkey⟩

/-- The chains to the nodes of the index have inner keys only. -/
theorem inner_of_mem_real {ms : List (Move α K ε)} {index : List K}
    (hplaced : Placed index ms)
    (hproper : ∀ m ∈ ms, m.Proper key inner)
    (hok : ∀ r ∈ news index ms, ∃ a, r.describe = .ok a)
    (hreal : ∀ r ∈ news index ms, ∀ a, r.describe = .ok a →
      real r.key = real r.parent ++ [a])
    (hstart : ∀ k ∈ index, ∀ a ∈ real k, inner (key a)) :
    ∀ r ∈ news index ms, ∀ a ∈ real r.key, inner (key a) := by
  induction ms generalizing index with
  | nil => exact fun r hr => absurd hr List.not_mem_nil
  | cons m ms ih =>
      obtain ⟨hm, hothers⟩ := List.forall_mem_cons.mp hproper
      cases m with
      | hang parent t => exact ih hplaced.2 hothers hok hreal hstart
      | place r =>
          rw [news] at hok hreal ⊢
          by_cases hr : r.key ∈ index
          · rw [if_pos hr] at hok hreal ⊢
            exact ih (hplaced.2.mono (by simp [hr])) hothers hok hreal hstart
          · rw [if_neg hr] at hok hreal ⊢
            obtain ⟨⟨a, ha⟩, hok⟩ := List.forall_mem_cons.mp hok
            obtain ⟨hfirst, hreal⟩ := List.forall_mem_cons.mp hreal
            have hself : ∀ b ∈ real r.key, inner (key b) := by
              intro b hb
              rw [hfirst a ha] at hb
              rcases List.mem_append.mp hb with hb | hb
              · exact hstart _ hplaced.1 b hb
              · rw [List.mem_singleton.mp hb, hm.2 a ha]
                exact hm.1
            refine List.forall_mem_cons.mpr ⟨hself,
              ih hplaced.2 hothers hok hreal fun k hk => ?_⟩
            rcases List.mem_append.mp hk with hk | hk
            · exact hstart k hk
            · rw [List.mem_singleton.mp hk]
              exact hself

section Path

variable {ms : List (Move α K ε)} {index : List K} {root : K}
    {l : List (K × Except ε α)} {as : List α}
  (hreal : ∀ r ∈ news index ms, ∀ a, r.describe = .ok a →
    real r.key = real r.parent ++ [a])
  (hdescribe : l.map Prod.snd = as.map Except.ok)

include hreal hdescribe

/-- A path of first requests is the chain to its end. -/
theorem real_lastKey (h : ∀ r ∈ path root l, r ∈ news index ms) :
    real (lastKey root l) = real root ++ as := by
  induction l generalizing root as with
  | nil =>
      rw [List.map_nil, eq_comm, List.map_eq_nil_iff] at hdescribe
      rw [hdescribe, List.append_nil]
      rfl
  | cons e l ih =>
      cases as with
      | nil => cases hdescribe
      | cons a as =>
          obtain ⟨ha, hrest⟩ := List.cons.inj hdescribe
          obtain ⟨hfirst, hnews⟩ := List.forall_mem_cons.mp h
          have htail := ih hrest hnews
          have hstep := hreal _ hfirst a ha
          rw [lastKey, htail, hstep, List.append_assoc]
          rfl

/-- **A path that is the chain to its end** consists of first requests. -/
theorem mem_news_of_real (hok : ∀ r ∈ news index ms, ∃ a, r.describe = .ok a)
    (hends : ∀ r ∈ news index ms, endsAt key r.parent (real r.parent) = true)
    (hroot : endsAt key root (real root) = true)
    (hasked : ∀ r ∈ path root l, Move.place r ∈ ms ∧ r.key ∉ index)
    (hkeys : ∀ e ∈ l, ∀ a, e.2 = .ok a → key a = e.1)
    (h : real (lastKey root l) = real root ++ as) :
    ∀ r ∈ path root l, r ∈ news index ms := by
  induction l using List.reverseRecOn generalizing as with
  | nil => exact fun r hr => absurd hr List.not_mem_nil
  | append_singleton l e ih =>
      obtain ⟨as, a, rfl⟩ : ∃ as' a, as = as' ++ [a] := by
        rcases List.eq_nil_or_concat as with rfl | ⟨as', a, rfl⟩
        · simp at hdescribe
        · exact ⟨as', a, List.concat_eq_append⟩
      rw [List.map_append, List.map_append] at hdescribe
      obtain ⟨hfront, hlast⟩ := List.append_inj' hdescribe rfl
      have he : e.2 = .ok a := List.singleton_inj.mp hlast
      rw [path_append] at hasked ⊢
      rw [lastKey_append, ← List.append_assoc] at h
      have hself :=
        hasked _ (List.mem_append_right _ (List.mem_singleton_self _))
      obtain ⟨q, hq, hkey⟩ : ∃ q ∈ news index ms, q.key = e.1 := by
        rcases exists_mem_news hself.1 index with hin | hq
        · exact absurd hin hself.2
        · exact hq
      obtain ⟨b, hb⟩ := hok q hq
      have hchain := hreal q hq b hb
      rw [hkey, h] at hchain
      obtain ⟨habove, hsame⟩ := List.append_inj' hchain rfl
      have hb : q.describe = e.2 := by
        rw [hb, he, List.singleton_inj.mp hsame]
      -- the node above is the end of the shorter path, since their chains end at one key
      have hparent : q.parent = lastKey root l := by
        have hend := hends q hq
        rw [← habove] at hend
        rcases List.eq_nil_or_concat l with rfl | ⟨l', d, rfl⟩
        · rw [List.map_nil, eq_comm, List.map_eq_nil_iff] at hfront
          rw [hfront, List.append_nil] at hend
          have h1 := of_decide_eq_true hend
          have h2 := of_decide_eq_true hroot
          exact Option.some.inj (h1.symm.trans h2)
        · rw [List.concat_eq_append] at hfront hkeys ⊢
          rcases List.eq_nil_or_concat as with rfl | ⟨as', c, rfl⟩
          · simp at hfront
          · rw [List.concat_eq_append, List.map_append,
              List.map_append] at hfront
            have hc : d.2 = .ok c :=
              List.singleton_inj.mp (List.append_inj' hfront rfl).2
            have hd := hkeys d (by simp) c hc
            rw [List.concat_eq_append, ← List.append_assoc, endsAt,
              List.getLast?_concat] at hend
            rw [lastKey_append, ← hd]
            exact (Option.some.inj (of_decide_eq_true hend)).symm
      have hfirst : (⟨lastKey root l, e.1, e.2⟩ : NodeRequest α K ε) = q := by
        rw [← hparent, ← hkey, ← hb]
      have hrest := ih hfront (fun r hr => hasked r (List.mem_append_left _ hr))
        (fun d hd =>
          hkeys d (List.mem_append_left _ hd)) (by rw [← hparent, ← habove])
      intro r hr
      rcases List.mem_append.mp hr with hr | hr
      · exact hrest r hr
      · rw [List.mem_singleton.mp hr, hfirst]
        exact hq

end Path

/-- There is a chain for each key that makes these equations true. -/
theorem exists_real {ms : List (Move α K ε)} {index : List K}
    (hplaced : Placed index ms)
    (start : K → List α) :
    ∃ real : K → List α, (∀ k ∈ index, real k = start k) ∧
      ∀ r ∈ news index ms, ∀ a, r.describe = .ok a →
        real r.key = real r.parent ++ [a] := by
  induction ms generalizing index start with
  | nil => exact ⟨start, fun _ _ => rfl, fun r hr => absurd hr List.not_mem_nil⟩
  | cons m ms ih =>
      cases m with
      | hang parent t => exact ih hplaced.2 start
      | place r =>
          obtain ⟨hmem, hplaced⟩ := hplaced
          rw [news]
          by_cases hr : r.key ∈ index
          · rw [if_pos hr]
            refine ih (hplaced.mono ?_) start
            simp [hr]
          · rw [if_neg hr]
            have hne : ∀ k ∈ index, k ≠ r.key := fun k hk heq => hr (heq ▸ hk)
            let below : List α := match r.describe with
              | .ok a => start r.parent ++ [a]
              | .error _ => []
            obtain ⟨real, hstart, hreal⟩ :=
              ih hplaced (Function.update start r.key below)
            have hagree : ∀ k ∈ index, real k = start k := by
              intro k hk
              rw [hstart k (List.mem_append_left _ hk),
                Function.update_of_ne (hne k hk)]
            refine ⟨real, hagree, List.forall_mem_cons.mpr ⟨?_, hreal⟩⟩
            intro a ha
            have hself :=
              hstart r.key (List.mem_append_right _ (List.mem_singleton_self _))
            rw [Function.update_self] at hself
            rw [hself, hagree _ hmem]
            simp only [below, ha]

/-! ### Another order -/

/-- A tree and the node that it is grafted to. -/
abbrev Graft (α K : Type) := K × RoseTree α

/-- Grafts onto a tree, one after the other. -/
def graftAll (key : α → K) (t : RoseTree α) (l : List (Graft α K)) :
    RoseTree α :=
  l.foldl (fun t g => graft key g.1 g.2 t) t

/-- The tree has a node with the inner key. -/
def Makes (key : α → K) (inner : K → Prop) (t : RoseTree α) (k : K) : Prop :=
  inner k ∧ k ∈ t.labels.map key

/-- Each graft is to a node that is present. -/
def Ready (key : α → K) (inner : K → Prop) :
    (K → Prop) → List (Graft α K) → Prop
  | _, [] => True
  | present, g :: l =>
      present g.1 ∧
        Ready key inner (fun k => present k ∨ Makes key inner g.2 k) l

/-- No two of the grafts make a node with the same inner key. -/
def Separate (key : α → K) (inner : K → Prop) (g g' : Graft α K) : Prop :=
  ∀ k, Makes key inner g.2 k → ¬ Makes key inner g'.2 k

omit [DecidableEq K] in
theorem Ready.mono {l : List (Graft α K)} {present present' : K → Prop}
    (h : Ready key inner present l) (hsub : ∀ k, present k → present' k) :
    Ready key inner present' l := by
  induction l generalizing present present' with
  | nil => trivial
  | cons g l ih => exact ⟨hsub _ h.1, ih h.2 fun k hk => hk.imp_left (hsub k)⟩

omit [DecidableEq K] in
/-- What is grafted to was present, or is made before. -/
theorem Ready.exists_makes {a b : List (Graft α K)} {present : K → Prop}
    (h : Ready key inner present (a ++ b)) {g : Graft α K} (hg : g ∈ a) :
    present g.1 ∨ ∃ g' ∈ a, Makes key inner g'.2 g.1 := by
  induction a generalizing present with
  | nil => cases hg
  | cons g₀ a ih =>
      obtain ⟨hfirst, hrest⟩ := h
      rcases List.mem_cons.mp hg with rfl | hg
      · exact Or.inl hfirst
      · rcases ih hrest hg with (hp | hmake) | ⟨g', hg', hmake⟩
        · exact Or.inl hp
        · exact Or.inr ⟨g₀, List.mem_cons_self, hmake⟩
        · exact Or.inr ⟨g', List.mem_cons_of_mem _ hg', hmake⟩

omit [DecidableEq K] in
/-- A graft may come first. -/
theorem Ready.move {a b : List (Graft α K)} {g : Graft α K} {present : K → Prop}
    (h : Ready key inner present (a ++ g :: b)) :
    Ready key inner (fun k => present k ∨ Makes key inner g.2 k) (a ++ b) := by
  induction a generalizing present with
  | nil => exact h.2
  | cons g₀ a ih =>
      obtain ⟨hfirst, hrest⟩ := h
      exact ⟨Or.inl hfirst, (ih hrest).mono fun k hk => or_right_comm.mp hk⟩

theorem alike_graftAll {s t : RoseTree α} (h : Alike s t)
    (l : List (Graft α K)) :
    Alike (graftAll key s l) (graftAll key t l) := by
  induction l generalizing s t with
  | nil => exact h
  | cons g l ih => exact ih h.graft

/-- A graft goes past others that it does not depend on. -/
theorem alike_graft_past {g : Graft α K} {a : List (Graft α K)}
    (h : ∀ g' ∈ a, g.1 ∉ g'.2.labels.map key ∧ g'.1 ∉ g.2.labels.map key)
    (t : RoseTree α) :
    Alike (graft key g.1 g.2 (graftAll key t a))
      (graftAll key (graft key g.1 g.2 t) a) := by
  induction a generalizing t with
  | nil => exact Alike.refl _
  | cons g' a ih =>
      obtain ⟨⟨hg, hg'⟩, hrest⟩ := List.forall_mem_cons.mp h
      exact (ih hrest _).trans (alike_graftAll (graft_comm hg hg' t) a)

/-- **Grafts in another order** give an alike tree, if each is to a node that is
present. -/
theorem alike_of_perm {l l' : List (Graft α K)} (hp : l.Perm l')
    {present : K → Prop}
    (hinner : ∀ k, present k → inner k) (hready : Ready key inner present l)
    (hready' : Ready key inner present l')
    (hapart : ∀ g ∈ l, ∀ k, present k → ¬ Makes key inner g.2 k)
    (hsep : l.Pairwise (Separate key inner)) (t : RoseTree α) :
    Alike (graftAll key t l) (graftAll key t l') := by
  induction l generalizing l' present t with
  | nil =>
      rw [List.nil_perm.mp hp]
      exact Alike.refl _
  | cons g l ih =>
      obtain ⟨a, b, rfl⟩ := List.append_of_mem (hp.subset List.mem_cons_self)
      have hrest : l.Perm (a ++ b) := (hp.trans List.perm_middle).cons_inv
      obtain ⟨hfirst, hready⟩ := hready
      obtain ⟨hgl, hsep⟩ := List.pairwise_cons.mp hsep
      obtain ⟨hg, hl⟩ := List.forall_mem_cons.mp hapart
      have hsub : ∀ g' ∈ a, g' ∈ l := fun g' hg' =>
        hrest.symm.subset (List.mem_append_left _ hg')
      -- a graft before `g` neither makes its parent nor has a parent that `g` makes
      have hpast : ∀ g' ∈ a, g.1 ∉ g'.2.labels.map key ∧
          g'.1 ∉ g.2.labels.map key := by
        intro g' hg'
        refine ⟨fun hmem =>
          hl g' (hsub g' hg') g.1 hfirst ⟨hinner _ hfirst, hmem⟩,
          fun hmem => ?_⟩
        rcases hready'.exists_makes hg' with hpresent | ⟨h, hh, hmake⟩
        · exact hg _ hpresent ⟨hinner _ hpresent, hmem⟩
        · exact hgl h (hsub h hh) _ ⟨hmake.1, hmem⟩ hmake
      have hfront :
          Alike (graftAll key t (a ++ g :: b))
          (graftAll key (graft key g.1 g.2 t) (a ++ b)) := by
        unfold graftAll
        rw [List.foldl_append, List.foldl_append, List.foldl_cons]
        exact alike_graftAll (alike_graft_past hpast t) b
      have hinner' : ∀ k, present k ∨ Makes key inner g.2 k → inner k :=
        fun k hk => hk.elim (hinner k) And.left
      have hapart' : ∀ h ∈ l, ∀ k, present k ∨ Makes key inner g.2 k →
          ¬ Makes key inner h.2 k :=
        fun h hh k hk => hk.elim (hl h hh k) (hgl h hh k)
      exact (ih hrest hinner' hready hready'.move hapart' hsep
        (graft key g.1 g.2 t)).trans hfront.symm

/-! ### The grafts of a run -/

/-- The node of a request, as a graft. -/
def NodeRequest.graft? (r : NodeRequest α K ε) : Option (Graft α K) :=
  match r.describe with
  | .ok a => some (r.parent, .node a [])
  | .error _ => none

/-- What a move grafts, if it is no placing. -/
def Move.graft? : Move α K ε → Option (Graft α K)
  | .place _ => none
  | .hang parent t => some (parent, t)

/-- The grafts that moves come down to, in order. -/
def grafts : List K → List (Move α K ε) → List (Graft α K)
  | _, [] => []
  | index, .hang parent t :: ms => (parent, t) :: grafts index ms
  | index, .place r :: ms =>
      if r.key ∈ index then grafts index ms
      else r.graft?.toList ++ grafts (index ++ [r.key]) ms

theorem tree_grow {ms : List (Move α K ε)} (h : s.grow key ms = .ok s') :
    s'.tree = graftAll key s.tree (grafts s.index ms) := by
  induction ms generalizing s with
  | nil =>
      rw [← Except.ok.inj h]
      rfl
  | cons m ms ih =>
      rw [grow_cons] at h
      cases m with
      | hang parent t =>
          have hrest : (s.hang key parent t).grow key ms = .ok s' := h
          exact ih (s := s.hang key parent t) hrest
      | place r =>
          rw [move] at h
          rw [grafts]
          by_cases hr : r.key ∈ s.index
          · rw [place_of_mem hr] at h
            rw [if_pos hr]
            exact ih h
          · rw [if_neg hr, NodeRequest.graft?]
            cases hdescribe : r.describe with
            | error e =>
                rw [place_eq_error hr hdescribe] at h
                cases h
            | ok a =>
                rw [place_eq_ok hr hdescribe] at h
                exact ih h

theorem grafts_perm (index : List K) (ms : List (Move α K ε)) :
    (grafts index ms).Perm
    ((news index ms).filterMap NodeRequest.graft? ++
      ms.filterMap Move.graft?) := by
  induction ms generalizing index with
  | nil => exact List.Perm.refl _
  | cons m ms ih =>
      cases m with
      | hang parent t =>
          rw [grafts, news,
            List.filterMap_cons_some (show Move.graft? (.hang parent t) =
            _ from rfl)]
          exact ((ih index).cons _).trans List.perm_middle.symm
      | place r =>
          rw [grafts, news,
            List.filterMap_cons_none (show Move.graft? (.place r) =
            none from rfl)]
          by_cases hr : r.key ∈ index
          · rw [if_pos hr, if_pos hr]
            exact ih index
          · rw [if_neg hr, if_neg hr]
            have hrest := ih (index ++ [r.key])
            cases hgraft : r.graft? with
            | none =>
                rw [List.filterMap_cons_none hgraft]
                exact hrest
            | some g =>
                rw [List.filterMap_cons_some hgraft]
                exact hrest.cons g

/-- What a graft makes was not in the index. -/
theorem notMem_of_makes {ms : List (Move α K ε)} {index : List K}
    (hproper : ∀ m ∈ ms, m.Proper key inner) {g : Graft α K}
    (hg : g ∈ grafts index ms) {k : K}
    (hk : Makes key inner g.2 k) : k ∉ index := by
  induction ms generalizing index with
  | nil => cases hg
  | cons m ms ih =>
      obtain ⟨hm, hothers⟩ := List.forall_mem_cons.mp hproper
      cases m with
      | hang parent t =>
          rcases List.mem_cons.mp hg with rfl | hg
          · obtain ⟨a, ha, hkey⟩ := List.mem_map.mp hk.2
            exact absurd (hkey ▸ hk.1) (hm a ha)
          · exact ih hothers hg
      | place r =>
          rw [grafts] at hg
          split at hg
          · exact ih hothers hg
          · next hr =>
            rcases List.mem_append.mp hg with hg | hg
            · unfold NodeRequest.graft? at hg
              split at hg
              · next a ha =>
                rw [List.mem_singleton.mp hg] at hk
                have heq : k = key a := List.mem_singleton.mp hk.2
                rw [heq, hm.2 a ha]
                exact hr
              · cases hg
            · exact fun hmem => ih hothers hg (List.mem_append_left _ hmem)

theorem pairwise_grafts {ms : List (Move α K ε)}
    (hproper : ∀ m ∈ ms, m.Proper key inner)
    (index : List K) : (grafts index ms).Pairwise (Separate key inner) := by
  induction ms generalizing index with
  | nil => exact List.Pairwise.nil
  | cons m ms ih =>
      obtain ⟨hm, hothers⟩ := List.forall_mem_cons.mp hproper
      cases m with
      | hang parent t =>
          refine List.pairwise_cons.mpr ⟨fun g _ k hk _ => ?_, ih hothers index⟩
          obtain ⟨a, ha, hkey⟩ := List.mem_map.mp hk.2
          exact hm a ha (hkey ▸ hk.1)
      | place r =>
          rw [grafts]
          split
          · exact ih hothers index
          · have hrest := ih hothers (index ++ [r.key])
            unfold NodeRequest.graft?
            split
            · next a ha =>
              refine List.pairwise_cons.mpr ⟨fun g hg k hk hk' => ?_, hrest⟩
              have heq : k = key a := List.mem_singleton.mp hk.2
              refine notMem_of_makes hothers hg hk' (List.mem_append_right _ ?_)
              rw [heq, hm.2 a ha]
              exact List.mem_singleton_self _
            · exact hrest

theorem ready_grafts {ms : List (Move α K ε)} {index : List K}
    (hplaced : Placed index ms)
    (hproper : ∀ m ∈ ms, m.Proper key inner)
    (hok : ∀ r ∈ news index ms, ∃ a, r.describe = .ok a) :
    Ready key inner (· ∈ index) (grafts index ms) := by
  induction ms generalizing index with
  | nil => trivial
  | cons m ms ih =>
      obtain ⟨hm, hothers⟩ := List.forall_mem_cons.mp hproper
      cases m with
      | hang parent t =>
          obtain ⟨hmem, hplaced⟩ := hplaced
          exact ⟨hmem, (ih hplaced hothers hok).mono fun k hk => Or.inl hk⟩
      | place r =>
          obtain ⟨hmem, hplaced⟩ := hplaced
          rw [news] at hok
          rw [grafts]
          by_cases hr : r.key ∈ index
          · rw [if_pos hr] at hok ⊢
            exact ih (hplaced.mono (by simp [hr])) hothers hok
          · rw [if_neg hr] at hok ⊢
            obtain ⟨⟨a, ha⟩, hok⟩ := List.forall_mem_cons.mp hok
            have hgraft : r.graft? = some (r.parent, .node a []) := by
              rw [NodeRequest.graft?, ha]
            rw [hgraft]
            refine ⟨hmem, (ih hplaced hothers hok).mono fun k hk => ?_⟩
            rcases List.mem_append.mp hk with hk | hk
            · exact Or.inl hk
            · rw [List.mem_singleton.mp hk]
              refine Or.inr ⟨hm.1, ?_⟩
              rw [← hm.2 a ha]
              exact List.mem_singleton_self _

/-- Where all requests with one key are the same, the first ones are all that
have a new key. -/
theorem mem_news_iff {ms : List (Move α K ε)} {index : List K}
    (hindex : index.Nodup)
    (hsame : ∀ r q, Move.place r ∈ ms → Move.place q ∈ ms →
      r.key = q.key → r = q)
    (r : NodeRequest α K ε) :
    r ∈ news index ms ↔ Move.place r ∈ ms ∧ r.key ∉ index := by
  constructor
  · intro h
    refine ⟨place_mem_of_mem_news h, fun hmem => ?_⟩
    have hnodup : (index ++ (news index ms).map NodeRequest.key).Nodup :=
      nodup_news hindex
    exact (List.nodup_append'.mp hnodup).2.2 hmem (List.mem_map.mpr ⟨r, h, rfl⟩)
  · rintro ⟨h, hnew⟩
    rcases exists_mem_news h index with hmem | ⟨q, hq, hkey⟩
    · exact absurd hmem hnew
    · rwa [← hsame q r (place_mem_of_mem_news hq) h hkey]

/-- **Another order of the moves** gives a tree that differs in the order of
siblings only, if a key always stands for the same request. -/
theorem alike_grow {ms ms' : List (Move α K ε)} {t t' : IndexedTree α K}
    (hp : ms.Perm ms')
    (h : s.grow key ms = .ok t) (h' : s.grow key ms' = .ok t')
    (hindex : s.index.Nodup)
    (hinner : ∀ k ∈ s.index, inner k) (hplaced : Placed s.index ms)
    (hplaced' : Placed s.index ms')
    (hproper : ∀ m ∈ ms, m.Proper key inner)
    (hsame : ∀ r q, Move.place r ∈ ms → Move.place q ∈ ms →
      r.key = q.key → r = q) :
    Alike t.tree t'.tree := by
  have hproper' : ∀ m ∈ ms', m.Proper key inner :=
    fun m hm => hproper m (hp.symm.subset hm)
  have hsame' : ∀ r q, Move.place r ∈ ms' → Move.place q ∈ ms' →
      r.key = q.key → r = q :=
    fun r q hr hq => hsame r q (hp.symm.subset hr) (hp.symm.subset hq)
  have hnodup : ∀ l : List (Move α K ε), (news s.index l).Nodup := fun l =>
    (nodup_news hindex).of_append_right.of_map _
  have hnews : (news s.index ms).Perm (news s.index ms') := by
    refine (List.perm_ext_iff_of_nodup (hnodup ms) (hnodup ms')).mpr fun r => ?_
    rw [mem_news_iff hindex hsame, mem_news_iff hindex hsame', hp.mem_iff]
  have hgrafts : (grafts s.index ms).Perm (grafts s.index ms') :=
    (grafts_perm s.index ms).trans
      (((hnews.filterMap _).append (hp.filterMap _)).trans
        (grafts_perm s.index ms').symm)
  rw [tree_grow h, tree_grow h']
  refine alike_of_perm hgrafts hinner
    (ready_grafts hplaced hproper (succeeds_grow_iff.mp ⟨t, h⟩))
    (ready_grafts hplaced' hproper' (succeeds_grow_iff.mp ⟨t', h'⟩)) ?_
      (pairwise_grafts hproper _) _
  exact fun g hg k hk hmake => notMem_of_makes hproper hg hmake hk

end

end IndexedTree
