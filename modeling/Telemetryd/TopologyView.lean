import Mathlib.Data.Finset.Basic
import Telemetryd.Lib.OrderedDict
import Telemetryd.TopologyMoves

/-!
# The topology as it is drawn

The dashboard draws the topology with most of it folded up.  When a device is
selected it unfolds, once, the way to all that belongs to the device, but no
group of queues, so that the queues do not fill the screen.  What is unfolded is
kept by the ids of the nodes.

`renderTopology` draws a tree of rows.  It is shown which nodes are drawn, for
any tree and then for the trees that the backend builds.
-/

namespace Telemetryd

open RoseTree

/-! ### Drawing -/

/-- The variables of the view: the device that is selected, the root of
`topoData`, `topoAutoExpandedFor`, `topoExpanded`, `topoSelected` and the box
`topo-details-all`. -/
structure TopologyView where
  device : Option PyText
  root : Option TopologyNode
  autoExpandedFor : Option PyText
  expanded : Finset PyText
  selected : Finset PyText
  detailsAll : Bool

/-- A row of the tree: the node, the arrow and the number of children if it has
any, the two highlights, and whether the details are shown. -/
structure TopoRow where
  node : TopologyInfo
  toggle : Option (Bool × Nat)
  mine : Bool
  onPath : Bool
  details : Bool

/-- The device of the view, where it is not an empty text. -/
def TopologyView.selectedDevice (v : TopologyView) : Option PyText :=
  v.device.filter (· ≠ [])

mutual

/-- `topoPathIds`, with the set `acc` that it fills. -/
def topoPathIds (device : PyText) :
    TopologyNode → List PyText → List PyText → List PyText × Bool
  | .node info children, acc, chain =>
      let here := chain ++ [info.id]
      let (acc, hit) :=
        topoPathIdsAll device children acc here (info.device == device)
      (if hit then acc ++ here else acc, hit)

/-- Its loop over the children. -/
def topoPathIdsAll (device : PyText) :
    List TopologyNode → List PyText → List PyText → Bool → List PyText × Bool
  | [], acc, _, hit => (acc, hit)
  | c :: cs, acc, here, hit =>
      let (acc, hitBelow) := topoPathIds device c acc here
      topoPathIdsAll device cs acc here (hitBelow || hit)

end

mutual

/-- `topoKindMap` -/
def topoKindMap :
    TopologyNode → OrderedDict PyText TopoKind → OrderedDict PyText TopoKind
  | .node info children, acc =>
      topoKindMapAll children (acc.insert info.id info.kind)

/-- The kinds of some trees. -/
def topoKindMapAll :
    List TopologyNode → OrderedDict PyText TopoKind →
      OrderedDict PyText TopoKind
  | [], acc => acc
  | c :: cs, acc => topoKindMapAll cs (topoKindMap c acc)

end

section

variable (v : TopologyView) (onPath : List PyText)

/-- The row of a node. -/
def topoRow (info : TopologyInfo) (children : Nat) : TopoRow :=
  let mine : Bool := info.device ≠ [] ∧ some info.device = v.device
  { node := info
    toggle := if children = 0 then none
      else some (info.id ∈ v.expanded, children)
    mine := mine
    onPath := info.id ∈ onPath ∧ !mine
    details := (info.id ∈ v.selected ∨ v.detailsAll) ∧ info.details ≠ [] }

mutual

/-- `renderTopologyNode`: a row, and below it those of the children if it is
unfolded. -/
def renderTopologyNode : TopologyNode → RoseTree TopoRow
  | .node info children =>
      .node (topoRow v onPath info children.length)
        (if info.id ∈ v.expanded then renderTopologyNodes children else [])

/-- The rows of some trees. -/
def renderTopologyNodes : List TopologyNode → List (RoseTree TopoRow)
  | [] => []
  | c :: cs => renderTopologyNode c :: renderTopologyNodes cs

end

end

namespace TopologyView

/-- The ids of the way to the device that is selected. -/
def onPath (v : TopologyView) (root : TopologyNode) : List PyText :=
  match v.selectedDevice with
  | none => []
  | some device => (topoPathIds device root [] []).1

/-- `topoData.root.id` -/
def rootId : TopologyNode → PyText
  | .node info _ => info.id

/-- The ids that are unfolded for a device that has just been selected. -/
def autoExpand (v : TopologyView) (root : TopologyNode) : Finset PyText :=
  let kinds := topoKindMap root .empty
  insert (rootId root)
    (v.expanded ∪ ((v.onPath root).filter fun id =>
      kinds.get? id ≠ some .queueGroup).toFinset)

/-- What `renderTopology` does to the variables. -/
def unfold (v : TopologyView) (root : TopologyNode) : TopologyView :=
  match v.selectedDevice with
  | none => v
  | some device =>
      if v.autoExpandedFor = some device then v
      else { v with autoExpandedFor := some device, expanded := v.autoExpand root }

/-- `renderTopology`, with the rows that it draws. -/
def renderTopology (v : TopologyView) :
    TopologyView × Option (RoseTree TopoRow) :=
  match v.root with
  | none => (v, none)
  | some root =>
      let w := v.unfold root
      (w, some (renderTopologyNode w (v.onPath root) root))

/-- The arrow of a row is pressed. -/
def pressToggle (id : PyText) (v : TopologyView) : TopologyView :=
  { v with expanded := if id ∈ v.expanded then v.expanded.erase id
    else insert id v.expanded }

/-- A row is pressed elsewhere. -/
def pressRow (id : PyText) (v : TopologyView) : TopologyView :=
  { v with selected := if id ∈ v.selected then v.selected.erase id
    else insert id v.selected }

end TopologyView

/-! ### What is drawn -/

/-- They are those of each tree in turn. -/
theorem renderTopologyNodes_eq (v : TopologyView) (onPath : List PyText)
    (cs : List TopologyNode) :
    renderTopologyNodes v onPath cs = cs.map (renderTopologyNode v onPath) := by
  induction cs with
  | nil => rfl
  | cons c cs ih => rw [renderTopologyNodes, ih, List.map_cons]

/-- A node is drawn when every node above it is unfolded. -/
def Drawn (expanded : Finset PyText) (chain : List TopologyInfo) : Bool :=
  chain.dropLast.all fun a => a.id ∈ expanded

/-- A node is drawn if all above it are expanded. -/
theorem drawn_cons (expanded : Finset PyText) (a : TopologyInfo)
    {c : List TopologyInfo}
    (hc : c ≠ []) :
    Drawn expanded (a :: c) =
    (decide (a.id ∈ expanded) && Drawn expanded c) := by
  rw [Drawn, List.dropLast_cons_of_ne_nil hc, List.all_cons]
  rfl

/-- **The rows** are those of the nodes that are drawn, each below the rows of
the nodes above it. -/
theorem chains_render (v : TopologyView) (onPath : List PyText)
    (t : TopologyNode) :
    (chains (renderTopologyNode v onPath t)).map (List.map TopoRow.node) =
      (chains t).filter (Drawn v.expanded) := by
  induction t using induct with
  | node info cs ih =>
      have hne : ∀ c ∈ cs.flatMap chains, c ≠ [] := by
        intro c hc
        obtain ⟨t, -, ht⟩ := List.mem_flatMap.mp hc
        exact ne_nil_of_mem_chains ht
      have hcs : ((cs.map (renderTopologyNode v onPath)).flatMap chains).map
          (List.map TopoRow.node) =
            (cs.flatMap chains).filter (Drawn v.expanded) := by
        rw [List.flatMap_map, List.map_flatMap, List.filter_flatMap]
        exact List.flatMap_congr ih
      have hroot : Drawn v.expanded [info] = true := rfl
      rw [renderTopologyNode, chains_node, chains_node,
        List.filter_cons_of_pos hroot,
        renderTopologyNodes_eq]
      by_cases hexp : info.id ∈ v.expanded
      · rw [if_pos hexp, List.map_cons, List.map_map, List.filter_map]
        have hdrawn :
            (cs.flatMap chains).filter (Drawn v.expanded ∘ (info :: ·)) =
            (cs.flatMap chains).filter (Drawn v.expanded) := by
          refine List.filter_congr fun c hc => ?_
          rw [Function.comp_apply, drawn_cons _ _ (hne c hc),
            decide_eq_true hexp, Bool.true_and]
        rw [hdrawn, ← hcs, List.map_map]
        rfl
      · rw [if_neg hexp]
        have hnone :
            ((cs.flatMap chains).map (info :: ·)).filter (Drawn v.expanded) =
            [] := by
          refine List.filter_eq_nil_iff.mpr fun c hc => ?_
          obtain ⟨d, hd, rfl⟩ := List.mem_map.mp hc
          rw [drawn_cons _ _ (hne d hd), decide_eq_false hexp]
          exact Bool.false_ne_true
        rw [hnone]
        rfl

/-! ### The way to a device -/

/-- A node of the device at the end of the chain. -/
def LeadsTo (device : PyText) (c : List TopologyInfo) : Prop :=
  c.getLast?.map TopologyInfo.device = some device

/-- Where a chain leads does not depend on what is above. -/
theorem leadsTo_cons {device : PyText} {a : TopologyInfo}
    {c : List TopologyInfo} (hc : c ≠ []) :
    LeadsTo device (a :: c) ↔ LeadsTo device c := by
  unfold LeadsTo
  rw [List.getLast?_cons_of_ne_nil hc]

/-- Some chain of the trees leads to the device. -/
def HoldsDevice (device : PyText) (l : List (List TopologyInfo)) : Prop :=
  ∃ c ∈ l, LeadsTo device c

/-- The ids on the chains that lead to the device. -/
def WayIds (device : PyText) (l : List (List TopologyInfo)) (id : PyText) :
    Prop :=
  ∃ c ∈ l, LeadsTo device c ∧ id ∈ c.map TopologyInfo.id

/-- A device is held by some chains or by others. -/
theorem holdsDevice_append {device : PyText} {l r : List (List TopologyInfo)} :
    HoldsDevice device (l ++ r) ↔ HoldsDevice device l ∨
      HoldsDevice device r := by
  simp only [HoldsDevice, List.mem_append, or_and_right, exists_or]

/-- So is the way to it. -/
theorem wayIds_append {device : PyText} {l r : List (List TopologyInfo)}
    {id : PyText} :
    WayIds device (l ++ r) id ↔ WayIds device l id ∨ WayIds device r id := by
  simp only [WayIds, List.mem_append, or_and_right, exists_or]

/-- The chains of trees are not empty. -/
theorem ne_nil_of_mem_flatMap {cs : List TopologyNode} {c : List TopologyInfo}
    (hc : c ∈ cs.flatMap chains) : c ≠ [] := by
  obtain ⟨t, -, ht⟩ := List.mem_flatMap.mp hc
  exact ne_nil_of_mem_chains ht

/-- A chain of one node leads to it. -/
theorem leadsTo_singleton {device : PyText} {info : TopologyInfo} :
    LeadsTo device [info] ↔ info.device = device := by
  simp [LeadsTo]

/-- A tree holds a device at its root or below. -/
theorem holdsDevice_node {device : PyText} {info : TopologyInfo}
    {cs : List TopologyNode} :
    HoldsDevice device (chains (.node info cs)) ↔
      info.device = device ∨ HoldsDevice device (cs.flatMap chains) := by
  unfold HoldsDevice
  rw [chains_node]
  constructor
  · rintro ⟨c, hc, hlead⟩
    rcases List.mem_cons.mp hc with rfl | hc
    · exact .inl (leadsTo_singleton.mp hlead)
    · obtain ⟨d, hd, rfl⟩ := List.mem_map.mp hc
      exact .inr ⟨d, hd, (leadsTo_cons (ne_nil_of_mem_flatMap hd)).mp hlead⟩
  · rintro (h | ⟨d, hd, hlead⟩)
    · exact ⟨[info], List.mem_cons_self, leadsTo_singleton.mpr h⟩
    · exact ⟨info :: d, List.mem_cons_of_mem _ (List.mem_map_of_mem hd),
        (leadsTo_cons (ne_nil_of_mem_flatMap hd)).mpr hlead⟩

/-- The way through a root. -/
theorem wayIds_node {device : PyText} {info : TopologyInfo}
    {cs : List TopologyNode}
    {id : PyText} :
    WayIds device (chains (.node info cs)) id ↔
      HoldsDevice device (chains (.node info cs)) ∧ id = info.id ∨
        WayIds device (cs.flatMap chains) id := by
  rw [holdsDevice_node]
  unfold WayIds
  rw [chains_node]
  constructor
  · rintro ⟨c, hc, hlead, hid⟩
    rcases List.mem_cons.mp hc with rfl | hc
    · exact .inl ⟨.inl (leadsTo_singleton.mp hlead), by simpa using hid⟩
    · obtain ⟨d, hd, rfl⟩ := List.mem_map.mp hc
      have hlead' := (leadsTo_cons (ne_nil_of_mem_flatMap hd)).mp hlead
      rcases List.mem_cons.mp hid with rfl | hid
      · exact .inl ⟨.inr ⟨d, hd, hlead'⟩, rfl⟩
      · exact .inr ⟨d, hd, hlead', hid⟩
  · rintro (⟨h | ⟨d, hd, hlead⟩, rfl⟩ | ⟨d, hd, hlead, hid⟩)
    · exact ⟨[info], List.mem_cons_self, leadsTo_singleton.mpr h, by simp⟩
    · exact ⟨info :: d, List.mem_cons_of_mem _ (List.mem_map_of_mem hd),
        (leadsTo_cons (ne_nil_of_mem_flatMap hd)).mpr hlead, by simp⟩
    · exact ⟨info :: d, List.mem_cons_of_mem _ (List.mem_map_of_mem hd),
        (leadsTo_cons (ne_nil_of_mem_flatMap hd)).mpr hlead,
        List.mem_cons_of_mem _ hid⟩

/-- What `topoPathIds` adds to `acc` for trees with these chains: the ids on the
ways to the device, and the chain above if there is such a way. -/
def CollectsWay (device : PyText) (l : List (List TopologyInfo))
    (chain acc ids : List PyText) :
    Prop :=
  ∀ id, id ∈ ids ↔ id ∈ acc ∨ HoldsDevice device l ∧ id ∈ chain ∨
    WayIds device l id

/-- What is collected of some trees. -/
theorem topoPathIdsAll_spec (device : PyText) (cs : List TopologyNode)
    (ih : ∀ c ∈ cs, ∀ acc chain, ((topoPathIds device c acc chain).2 = true ↔
      HoldsDevice device (chains c)) ∧
      CollectsWay device (chains c) chain acc
        (topoPathIds device c acc chain).1)
    (acc here : List PyText) (hit : Bool) :
    ((topoPathIdsAll device cs acc here hit).2 = true ↔
      hit = true ∨ HoldsDevice device (cs.flatMap chains)) ∧
    CollectsWay device (cs.flatMap chains) here acc
      (topoPathIdsAll device cs acc here hit).1 := by
  induction cs generalizing acc hit with
  | nil => simp [topoPathIdsAll, CollectsWay, HoldsDevice, WayIds]
  | cons c cs ihl =>
      obtain ⟨hhit, hids⟩ := ih c List.mem_cons_self acc here
      obtain ⟨hhits, hidss⟩ :=
        ihl (fun d hd => ih d (List.mem_cons_of_mem _ hd))
        (topoPathIds device c acc here).1 ((topoPathIds device c acc here).2 ||
          hit)
      rw [topoPathIdsAll, List.flatMap_cons]
      constructor
      · rw [hhits, Bool.or_eq_true, hhit, holdsDevice_append]
        grind
      · intro id
        rw [hidss id, hids id, holdsDevice_append, wayIds_append]
        grind

/-- **The way to the device**: the ids of all nodes that belong to it and of
those above them. -/
theorem topoPathIds_spec (device : PyText) (t : TopologyNode) :
    ∀ acc chain, ((topoPathIds device t acc chain).2 = true ↔
      HoldsDevice device (chains t)) ∧
      CollectsWay device (chains t) chain acc
        (topoPathIds device t acc chain).1 := by
  induction t using induct with
  | node info cs ih =>
      intro acc chain
      obtain ⟨hhit, hids⟩ :=
        topoPathIdsAll_spec device cs ih acc (chain ++ [info.id])
        (info.device == device)
      have hnode : topoPathIds device (.node info cs) acc chain =
          (if (topoPathIdsAll device cs acc (chain ++ [info.id])
            (info.device == device)).2 then
            (topoPathIdsAll device cs acc (chain ++ [info.id])
              (info.device == device)).1 ++
              (chain ++ [info.id])
          else (topoPathIdsAll device cs acc (chain ++ [info.id])
            (info.device == device)).1,
          (topoPathIdsAll device cs acc (chain ++ [info.id])
            (info.device == device)).2) := by
        rw [topoPathIds]
      generalize topoPathIdsAll device cs acc (chain ++ [info.id])
        (info.device == device) = r
        at hhit hids hnode
      have hreach : r.2 = true ↔
          HoldsDevice device (chains (.node info cs)) := by
        rw [holdsDevice_node, hhit, beq_iff_eq]
      have hmem (id : PyText) : id ∈ chain ++ [info.id] ↔ id ∈ chain ∨
        id = info.id := by simp
      rw [hnode]
      refine ⟨hreach, fun id => ?_⟩
      rw [wayIds_node, ← hreach]
      dsimp only
      by_cases h : r.2 = true
      · rw [if_pos h, List.mem_append, hids id, hmem]
        grind
      · have hno : ¬ HoldsDevice device (cs.flatMap chains) :=
          fun hr => h (hhit.mpr (.inr hr))
        rw [if_neg h, hids id, hmem]
        grind

/-! ### The kinds by their ids -/

/-- The kinds of some trees, by their ids. -/
theorem topoKindMapAll_eq (cs : List TopologyNode)
    (ih : ∀ c ∈ cs, ∀ acc, topoKindMap c acc =
      acc.insertAll (c.labels.map fun a => (a.id, a.kind)))
    (acc : OrderedDict PyText TopoKind) :
    topoKindMapAll cs acc =
      acc.insertAll ((cs.flatMap labels).map fun a => (a.id, a.kind)) := by
  induction cs generalizing acc with
  | nil => rfl
  | cons c cs ihl =>
      rw [topoKindMapAll, ih c List.mem_cons_self, ihl fun d hd =>
        ih d (List.mem_cons_of_mem _ hd),
        List.flatMap_cons, List.map_append, OrderedDict.insertAll_append]

/-- The map has the kind of the last node with an id. -/
theorem topoKindMap_eq (t : TopologyNode) : ∀ acc, topoKindMap t acc =
    acc.insertAll (t.labels.map fun a => (a.id, a.kind)) := by
  induction t using induct with
  | node info cs ih =>
      intro acc
      rw [topoKindMap, topoKindMapAll_eq cs ih, labels_node]
      rfl

/-- An id that tells whether its node is a group of queues is looked up as it
tells. -/
theorem kindMap_eq_queueGroup_iff {t : TopologyNode} {isGroup : PyText → Prop}
    (htells : ∀ a ∈ t.labels, a.kind = .queueGroup ↔ isGroup a.id)
    {a : TopologyInfo}
    (ha : a ∈ t.labels) :
    (topoKindMap t .empty).get? a.id = some .queueGroup ↔
      a.kind = .queueGroup := by
  have hkey : a.id ∈ (topoKindMap t .empty).keys := by
    rw [topoKindMap_eq, OrderedDict.mem_keys_insertAll, List.map_map]
    exact .inr (List.mem_map_of_mem (f := TopologyInfo.id) ha)
  obtain ⟨kind, hkind⟩ : ∃ kind, (topoKindMap t .empty).get? a.id =
      some kind := by
    cases h : (topoKindMap t .empty).get? a.id with
    | none => exact absurd hkey (OrderedDict.get?_eq_none_iff.mp h)
    | some kind => exact ⟨kind, rfl⟩
  have hlast := hkind
  rw [topoKindMap_eq, OrderedDict.get?_insertAll_empty] at hlast
  obtain ⟨e, hfind, rfl⟩ := Option.map_eq_some_iff.mp hlast
  have hid : e.1 = a.id := by simpa using List.find?_some hfind
  obtain ⟨b, hb, rfl⟩ :=
    List.mem_map.mp (List.mem_reverse.mp (List.mem_of_find?_eq_some hfind))
  rw [hkind, Option.some.injEq, htells a ha, ← hid]
  exact htells b hb

/-! ### A device that has just been selected -/

/-- **What is drawn of a device** when it has just been selected: each of its
nodes, except below a group of queues that was not unfolded before. -/
theorem drawn_unfold {v : TopologyView} {root : TopologyNode} {device : PyText}
    (hsel : v.selectedDevice = some device)
    (hnew : v.autoExpandedFor ≠ some device)
    {isGroup : PyText → Prop}
    (htells : ∀ a ∈ root.labels, a.kind = .queueGroup ↔ isGroup a.id)
    (hroot : ¬ isGroup (TopologyView.rootId root)) {c : List TopologyInfo}
    (hc : c ∈ chains root)
    (hlead : LeadsTo device c) :
    Drawn (v.unfold root).expanded c = true ↔
      ∀ a ∈ c.dropLast, a.kind = .queueGroup → a.id ∈ v.expanded := by
  have hexp : (v.unfold root).expanded = v.autoExpand root := by
    unfold TopologyView.unfold
    rw [hsel]
    exact congrArg TopologyView.expanded (if_neg hnew)
  have hpath : ∀ a ∈ c, a.id ∈ v.onPath root := by
    intro a ha
    unfold TopologyView.onPath
    rw [hsel]
    exact (((topoPathIds_spec device root [] []).2 a.id).mpr
      (.inr (.inr ⟨c, hc, hlead, List.mem_map_of_mem ha⟩)))
  rw [hexp, Drawn, List.all_eq_true]
  refine forall₂_congr fun a ha => ?_
  have hac : a ∈ c := List.mem_of_mem_dropLast ha
  have hlabel : a ∈ root.labels := mem_labels_of_mem_chains hc hac
  rw [decide_eq_true_eq, TopologyView.autoExpand, Finset.mem_insert,
    Finset.mem_union,
    List.mem_toFinset, List.mem_filter, decide_eq_true_eq, ne_eq,
    kindMap_eq_queueGroup_iff htells hlabel]
  constructor
  · rintro (h | h | h) hgroup
    · exact absurd (h ▸ (htells a hlabel).mp hgroup) hroot
    · exact h
    · exact absurd hgroup h.2
  · intro h
    by_cases hgroup : a.kind = .queueGroup
    · exact .inr (.inl (h hgroup))
    · exact .inr (.inr ⟨hpath a hac, hgroup⟩)

end Telemetryd
