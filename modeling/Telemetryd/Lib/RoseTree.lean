import Mathlib.Data.List.Basic
import Mathlib.Data.List.Flatten
import Mathlib.Data.List.Perm.Basic

/-!
# Rose trees

Trees of labelled nodes with any number of children, in order.  A tree is known
by its chains, the lists of labels from its root to each of its nodes.  It grows
by grafts: another tree becomes the last child of the nodes whose label has a
given key. Grafts that do not depend on each other commute, up to the order of
siblings.
-/

/-- A label and the children below it. -/
inductive RoseTree (α : Type) where
  | node (label : α) (children : List (RoseTree α))

namespace RoseTree

variable {α K : Type}

/-- Induction with a hypothesis for each child. -/
@[elab_as_elim]
theorem induct {motive : RoseTree α → Prop}
    (node : ∀ a cs, (∀ c ∈ cs, motive c) → motive (.node a cs)) : ∀ t, motive t
  | .node a cs => node a cs fun c _ => induct node c

/-! ### Chains -/

mutual

/-- The labels from the root to each node. -/
def chains : RoseTree α → List (List α)
  | .node a cs => [a] :: (chainsAll cs).map (a :: ·)

/-- The chains of some trees. -/
def chainsAll : List (RoseTree α) → List (List α)
  | [] => []
  | c :: cs => chains c ++ chainsAll cs

end

/-- They are those of each tree in turn. -/
theorem chainsAll_eq (cs : List (RoseTree α)) :
    chainsAll cs = cs.flatMap chains := by
  induction cs with
  | nil => rfl
  | cons c cs ih => rw [chainsAll, ih, List.flatMap_cons]

/-- The chains of a node are the root alone and the root before each chain
below. -/
theorem chains_node (a : α) (cs : List (RoseTree α)) :
    chains (.node a cs) = [a] :: (cs.flatMap chains).map (a :: ·) := by
  rw [chains, chainsAll_eq]

/-- A chain is not empty. -/
theorem ne_nil_of_mem_chains {t : RoseTree α} {c : List α} (h : c ∈ chains t) :
    c ≠ [] := by
  cases t with
  | node a cs =>
      rw [chains_node] at h
      rcases List.mem_cons.mp h with rfl | h
      · exact List.cons_ne_nil _ _
      · obtain ⟨d, -, rfl⟩ := List.mem_map.mp h
        exact List.cons_ne_nil _ _

/-- The labels of the nodes. -/
def labels (t : RoseTree α) : List α := (chains t).filterMap List.getLast?

/-- The last labels of chains that are continued. -/
theorem filterMap_getLast?_append {l : List (List α)} (hl : ∀ c ∈ l, c ≠ [])
    (above : List α) :
    (l.map (above ++ ·)).filterMap List.getLast? =
      l.filterMap List.getLast? := by
  rw [List.filterMap_map]
  refine List.filterMap_congr fun c hc => ?_
  simp [List.getLast?_append, List.getLast?_eq_getLast_of_ne_nil (hl c hc)]

/-- The labels of a node are its own and those below. -/
theorem labels_node (a : α) (cs : List (RoseTree α)) :
    labels (.node a cs) = a :: cs.flatMap labels := by
  have hne : ∀ c ∈ cs.flatMap chains, c ≠ [] := by
    intro c hc
    obtain ⟨t, -, ht⟩ := List.mem_flatMap.mp hc
    exact ne_nil_of_mem_chains ht
  have hrest := filterMap_getLast?_append hne [a]
  unfold labels
  rw [chains_node,
    List.filterMap_cons_some (show [a].getLast? = some a from rfl)]
  exact congrArg (a :: ·) (hrest.trans (List.filterMap_flatMap))

/-- A chain starts at the root. -/
theorem exists_cons_of_mem_chains {a : α} {cs : List (RoseTree α)} {c : List α}
    (h : c ∈ chains (.node a cs)) : ∃ d, c = a :: d := by
  rw [chains_node] at h
  rcases List.mem_cons.mp h with rfl | h
  · exact ⟨[], rfl⟩
  · obtain ⟨d, -, rfl⟩ := List.mem_map.mp h
    exact ⟨d, rfl⟩

/-- What is on a chain is a node of the tree. -/
theorem mem_labels_of_mem_chains {t : RoseTree α} {c : List α}
    (hc : c ∈ chains t) {a : α}
    (ha : a ∈ c) : a ∈ t.labels := by
  induction t using induct generalizing c with
  | node b cs ih =>
      rw [labels_node]
      rw [chains_node] at hc
      rcases List.mem_cons.mp hc with rfl | hc
      · rw [List.mem_singleton.mp ha]
        exact List.mem_cons_self
      · obtain ⟨d, hd, rfl⟩ := List.mem_map.mp hc
        rcases List.mem_cons.mp ha with rfl | ha
        · exact List.mem_cons_self
        · obtain ⟨child, hchild, hd⟩ := List.mem_flatMap.mp hd
          exact List.mem_cons_of_mem _ (List.mem_flatMap.mpr ⟨child, hchild,
            ih child hchild hd ha⟩)

/-! ### The order of siblings -/

/-- Two trees that differ in the order of siblings: the children of a node are
put in another order, any number of times. -/
inductive Alike : RoseTree α → RoseTree α → Prop
  | perm (a : α) {cs ds : List (RoseTree α)} (h : cs.Perm ds) :
    Alike (.node a cs) (.node a ds)
  | child (a : α) (l r : List (RoseTree α)) {c d : RoseTree α} (h : Alike c d) :
      Alike (.node a (l ++ c :: r)) (.node a (l ++ d :: r))
  | trans {s t u : RoseTree α} (h : Alike s t) (h' : Alike t u) : Alike s u

namespace Alike

variable {s t u : RoseTree α}

/-- A tree is alike to itself. -/
theorem refl : (t : RoseTree α) → Alike t t
  | .node a _ => .perm a (List.Perm.refl _)

/-- Being alike goes both ways. -/
theorem symm (h : Alike s t) : Alike t s := by
  induction h with
  | perm a h => exact .perm a h.symm
  | child a l r _ ih => exact .child a l r ih
  | trans _ _ ih ih' => exact ih'.trans ih

/-- The children may be replaced by alike ones. -/
theorem children {cs ds : List (RoseTree α)} (h : List.Forall₂ Alike cs ds)
    (a : α) :
    Alike (.node a cs) (.node a ds) := by
  have hfrom : ∀ pre, Alike (.node a (pre ++ cs)) (.node a (pre ++ ds)) := by
    induction h with
    | nil => exact fun pre => refl _
    | @cons c d cs ds hhead _ ih =>
        intro pre
        have hrest := ih (pre ++ [d])
        rw [List.append_assoc, List.append_assoc] at hrest
        exact (Alike.child a pre cs hhead).trans hrest
  exact hfrom []

end Alike

/-! ### Grafts -/

section Graft

variable [DecidableEq K] (key : α → K) (p : K) (x : RoseTree α)

mutual

/-- A tree becomes the last child of the nodes with a key. -/
def graft : RoseTree α → RoseTree α
  | .node a cs => .node a (graftAll cs ++ if key a = p then [x] else [])

/-- Grafting onto some trees. -/
def graftAll : List (RoseTree α) → List (RoseTree α)
  | [] => []
  | c :: cs => graft c :: graftAll cs

end

/-- Each tree is grafted onto. -/
theorem graftAll_eq (cs : List (RoseTree α)) :
    graftAll key p x cs = cs.map (graft key p x) := by
  induction cs with
  | nil => rfl
  | cons c cs ih => rw [graftAll, ih, List.map_cons]

/-- Below the root and, if it is the parent, right under it. -/
theorem graft_node (a : α) (cs : List (RoseTree α)) : graft key p x (.node a cs)
    = .node a (cs.map (graft key p x) ++ if key a = p then [x] else []) := by
  rw [graft, graftAll_eq]

/-- Without a node of the key nothing is grafted. -/
theorem graft_of_notMem {t : RoseTree α} (h : p ∉ t.labels.map key) :
    graft key p x t = t := by
  induction t using induct with
  | node a cs ih =>
      rw [labels_node, List.map_cons, List.mem_cons, not_or] at h
      have hcs : cs.map (graft key p x) = cs := by
        refine (List.map_congr_left fun c hc => ih c hc fun hmem =>
          h.2 ?_).trans (List.map_id cs)
        obtain ⟨b, hb, hkey⟩ := List.mem_map.mp hmem
        exact List.mem_map.mpr ⟨b, List.mem_flatMap.mpr ⟨c, hc, hb⟩, hkey⟩
      rw [graft_node, if_neg fun heq => h.1 heq.symm, hcs, List.append_nil]

variable {key p x}

/-- Alike trees stay alike. -/
theorem Alike.graft {s t : RoseTree α} (h : Alike s t) :
    Alike (RoseTree.graft key p x s) (RoseTree.graft key p x t) := by
  induction h with
  | perm a h =>
      rw [graft_node, graft_node]
      exact .perm a ((h.map _).append_right _)
  | child a l r _ ih =>
      rw [graft_node, graft_node]
      simp only [List.map_append, List.map_cons, List.append_assoc,
        List.cons_append]
      exact .child a _ _ ih
  | trans _ _ ih ih' => exact ih.trans ih'

/-- A tree without the parent is not changed by a graft. -/
theorem map_graft_ite {y : RoseTree α} (hy : p ∉ y.labels.map key) (b : Prop)
    [Decidable b] :
    (if b then [y] else []).map (graft key p x) = if b then [y] else [] := by
  split
  · rw [List.map_singleton, graft_of_notMem key p x hy]
  · rfl

/-- **Grafts commute** if neither makes a place for the other. -/
theorem graft_comm {q : K} {y : RoseTree α} (hy : p ∉ y.labels.map key)
    (hx : q ∉ x.labels.map key)
    (t : RoseTree α) :
    Alike (graft key p x (graft key q y t))
    (graft key q y (graft key p x t)) := by
  induction t using induct with
  | node a cs ih =>
      have hcs : List.Forall₂ Alike (cs.map (fun c =>
          graft key p x (graft key q y c)))
          (cs.map (fun c => graft key q y (graft key p x c))) :=
        List.forall₂_map_left_iff.mpr (List.forall₂_map_right_iff.mpr
          (List.forall₂_same.mpr fun c hc => ih c hc))
      simp only [graft_node, List.map_append, List.map_map, map_graft_ite hy,
        map_graft_ite hx,
        List.append_assoc]
      have hsame : ∀ l : List (RoseTree α), List.Forall₂ Alike l l :=
        fun l => List.forall₂_same.mpr fun c _ => Alike.refl c
      refine (Alike.children (List.rel_append hcs (hsame _)) a).trans
        (Alike.perm a ?_)
      exact List.perm_append_comm.append_left _

end Graft

/-! ### The chains of a graft -/

section Chains

variable [DecidableEq K]

/-- The chain leads to a node with the key. -/
def endsAt (key : α → K) (p : K) (c : List α) : Bool :=
  decide (c.getLast?.map key = some p)

/-- Where a chain ends does not depend on what is above. -/
theorem endsAt_cons (key : α → K) (p : K) (a : α) {c : List α} (hc : c ≠ []) :
    endsAt key p (a :: c) = endsAt key p c := by
  rw [endsAt, endsAt, List.getLast?_cons_of_ne_nil hc]

/-- Where a chain ends does not depend on what is above. -/
theorem endsAt_append (key : α → K) (p : K) (above : List α) {c : List α}
    (hc : c ≠ []) :
    endsAt key p (above ++ c) = endsAt key p c := by
  rw [endsAt, endsAt, List.getLast?_append_of_ne_nil above hc]

/-- The chains of a tree, continued from each chain that ends at a key. -/
def under (key : α → K) (p : K) (x : RoseTree α) (l : List (List α)) :
    List (List α) :=
  (l.filter (endsAt key p)).flatMap (fun c => (chains x).map (c ++ ·))

variable {key : α → K} {p : K} {x : RoseTree α}

/-- What hangs under some chains and others. -/
theorem under_append (l r : List (List α)) :
    under key p x (l ++ r) = under key p x l ++ under key p x r := by
  rw [under, List.filter_append, List.flatMap_append]
  rfl

/-- What hangs under the chains of some trees. -/
theorem under_flatMap (cs : List (RoseTree α)) :
    under key p x (cs.flatMap chains) =
      cs.flatMap (fun c => under key p x (chains c)) := by
  induction cs with
  | nil => rfl
  | cons c cs ih => rw [List.flatMap_cons, under_append, ih, List.flatMap_cons]

/-- A label above the chains is above what hangs under them. -/
theorem under_map_cons (a : α) {l : List (List α)} (hl : ∀ c ∈ l, c ≠ []) :
    under key p x (l.map (a :: ·)) = (under key p x l).map (a :: ·) := by
  induction l with
  | nil => rfl
  | cons c l ih =>
      obtain ⟨hc, hl⟩ := List.forall_mem_cons.mp hl
      have hsplit : under key p x ((a :: c) :: l.map (a :: ·))
          = under key p x [a :: c] ++ under key p x (l.map (a :: ·)) :=
            under_append [a :: c] _
      have hsplit' :
          under key p x (c :: l) = under key p x [c] ++ under key p x l :=
        under_append [c] l
      have hhead :
          under key p x [a :: c] = (under key p x [c]).map (a :: ·) := by
        unfold under
        rw [List.filter_singleton, List.filter_singleton,
          endsAt_cons key p a hc]
        cases endsAt key p c with
        | false => rfl
        | true => simp
      rw [List.map_cons, hsplit, ih hl, hsplit', List.map_append, hhead]

/-- What hangs under the root alone. -/
theorem under_root (a : α) :
    under key p x [[a]] = if key a = p then (chains x).map (a :: ·)
      else [] := by
  unfold under endsAt
  by_cases h : key a = p
  · simp [h]
  · simp [h]

/-- **The chains of a graft** are the old ones and, below each node with the
key, those of the new tree. -/
theorem chains_graft (t : RoseTree α) :
    (chains (graft key p x t)).Perm (chains t ++ under key p x (chains t)) := by
  induction t using induct with
  | node a cs ih =>
      have hne : ∀ c ∈ cs.flatMap chains, c ≠ [] := by
        intro c hc
        obtain ⟨t, -, ht⟩ := List.mem_flatMap.mp hc
        exact ne_nil_of_mem_chains ht
      have hcs : ((cs.map (graft key p x)).flatMap chains).Perm
          (cs.flatMap chains ++ under key p x (cs.flatMap chains)) := by
        rw [List.flatMap_map, under_flatMap]
        exact (List.Perm.flatMap_left cs ih).trans
          (List.flatMap_append_perm cs _ _).symm
      have hroot : ((if key a = p then [x] else []).flatMap chains).map (a :: ·)
          = under key p x [[a]] := by
        rw [under_root]
        split
        · rw [List.flatMap_singleton]
        · rfl
      have hunder : under key p x (chains (.node a cs))
          = under key p x [[a]] ++
            (under key p x (cs.flatMap chains)).map (a :: ·) := by
        rw [chains_node, ← under_map_cons a hne]
        exact under_append [[a]] _
      rw [graft_node, chains_node, List.flatMap_append, List.map_append, hroot,
        hunder, chains_node,
        List.cons_append]
      refine List.Perm.cons _ ?_
      have hall := ((hcs.map (a :: ·)).append_right (under key p x [[a]]))
      rw [List.map_append, List.append_assoc] at hall
      exact hall.trans (List.perm_append_comm.append_left _)

/-- The chains of a graft at one node. -/
theorem chains_graft_of_unique {t : RoseTree α} {c : List α}
    (h : (chains t).filter (endsAt key p) = [c]) :
    (chains (graft key p x t)).Perm (chains t ++ (chains x).map (c ++ ·)) := by
  have : (chains (graft key p x t)).Perm (chains t ++
    under key p x (chains t)) := chains_graft t
  rwa [under, h, List.flatMap_singleton] at this

end Chains

end RoseTree
