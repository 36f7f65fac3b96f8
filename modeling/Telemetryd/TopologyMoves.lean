import Telemetryd.Topology

/-!
# The moves of the topology

For the tree it does not matter how the reads and the steps of `build_topology`
are interleaved.  Each device that is found comes down to a path of requests,
from the root to its endpoint, and to its controller, which is hung there; the
tree is what these moves make.
-/

namespace Telemetryd

open PyText Utf8 RoseTree IndexedTree

/-- What an id says of the kind of its node. -/
def idTag (id : PyText) : PyText := id.takeWhile (· != ':')

/-- The id of a node that is entered in the index. -/
def IsPathId (id : PyText) : Prop :=
  idTag id ∈ ["system".toList, "hostbridge".toList, "pci".toList]

instance (id : PyText) : Decidable (IsPathId id) :=
  inferInstanceAs (Decidable (_ ∈ _))

section

variable {B P : Type} [Fintype B] (k : Kernel B P)

/-- The ids and nodes from the root to the endpoint of a device. -/
def pathOf (device : PyText) (pdev : P) :
    Read (List (PyText × Read TopologyInfo)) := do
  let chain ← busChain k pdev
  let buses ← chain.mapM (busNode k)
  let bdf ← bdf k pdev
  return buses ++ [("pci:".toList ++ bdf, endpointInfo k pdev bdf device)]

/-- The requests for a path, and what is hung at its end. -/
def movesOn (steps : List (PyText × Read TopologyInfo)) (ctrl : TopologyNode) :
    List (Move TopologyInfo PyText PyText) :=
  (path "system".toList steps).map Move.place ++
    [.hang (lastKey "system".toList steps) ctrl]

/-- The moves for a device: none if it is not found. -/
def deviceMoves (device : PyText) :
    Read (List (Move TopologyInfo PyText PyText)) :=
  match findDevice k device with
  | .error _ => .ok []
  | .ok (dev, pdev) => do
      let steps ← pathOf k device pdev
      let ctrl ← ctrlNode dev device
      return movesOn steps ctrl

/-- The moves for a device, if all that they need can be read. -/
def movesOf (device : PyText) : List (Move TopologyInfo PyText PyText) :=
  tryRead (deviceMoves k device) []

end

/-! ### From the loop to the moves -/

section

variable {B P : Type} {k : Kernel B P} {nodes nodes' : Nodes}

/-- **The loop over a chain** places its buses. -/
theorem foldlM_placeBus_eq_ok {chain : List (B × Option P)}
    {parent last : PyText} :
    chain.foldlM (placeBus k) (nodes, parent) = .ok (nodes', last) ↔
      ∃ buses, chain.mapM (busNode k) = .ok buses ∧
        last = lastKey parent buses ∧
        nodes.grow TopologyInfo.id ((path parent buses).map Move.place) =
          .ok nodes' := by
  induction chain generalizing nodes parent with
  | nil =>
      rw [List.foldlM_nil, List.mapM_nil]
      simp only [Fallible.pure_eq_ok, exists_eq_left', Prod.mk.injEq]
      constructor
      · rintro ⟨rfl, rfl⟩
        exact ⟨rfl, rfl⟩
      · rintro ⟨rfl, h⟩
        exact ⟨Except.ok.inj h, rfl⟩
  | cons entry chain ih =>
      rw [List.foldlM_cons]
      simp only [placeBus, Fallible.bind_eq_ok, Fallible.pure_eq_ok,
        Fallible.mapM_cons_eq_ok]
      constructor
      · rintro ⟨_, ⟨⟨id, describe⟩, hnode, middle, hplace, rfl⟩, hrest⟩
        obtain ⟨buses, hbuses, rfl, hgrow⟩ := ih.mp hrest
        refine ⟨(id, describe) :: buses, ⟨_, _, hnode, hbuses, rfl⟩, rfl, ?_⟩
        rw [path, List.map_cons, grow_cons, Fallible.bind_eq_ok]
        exact ⟨middle, hplace, hgrow⟩
      · rintro ⟨_, ⟨⟨id, describe⟩, buses, hnode, hbuses, rfl⟩, rfl, hgrow⟩
        rw [path, List.map_cons, grow_cons, Fallible.bind_eq_ok] at hgrow
        obtain ⟨middle, hplace, hgrow⟩ := hgrow
        exact ⟨(middle, id), ⟨_, hnode, middle, hplace, rfl⟩,
          ih.mpr ⟨buses, hbuses, rfl, hgrow⟩⟩

/-- Growing by two lists of moves, one after the other. -/
theorem grow_append (ms ms' : List (Move TopologyInfo PyText PyText)) :
    nodes.grow TopologyInfo.id (ms ++ ms') = (do
      let middle ← nodes.grow TopologyInfo.id ms
      middle.grow TopologyInfo.id ms') := List.foldlM_append

variable [Fintype B]

/-- **A device that was found** comes down to its moves. -/
theorem addDevice_eq_ok {device : PyText} {dev : NvmeDevObject P} {pdev : P} :
    addDevice k nodes device dev pdev = .ok nodes' ↔
      ∃ steps ctrl, pathOf k device pdev = .ok steps ∧
        ctrlNode dev device = .ok ctrl ∧
        nodes.grow TopologyInfo.id (movesOn steps ctrl) = .ok nodes' := by
  have hend : ∀ (buses : List (PyText × Read TopologyInfo)) (e : PyText × Read TopologyInfo)
      (ctrl : TopologyNode), movesOn (buses ++ [e]) ctrl
        = (path "system".toList buses).map Move.place ++
          [.place ⟨lastKey "system".toList buses, e.1, e.2⟩,
            .hang e.1 ctrl] := by
    intro buses e ctrl
    rw [movesOn, path_append, lastKey_append]
    simp
  simp only [addDevice, pathOf, Fallible.bind_eq_ok, Fallible.pure_eq_ok]
  constructor
  · rintro ⟨chain, hchain, ⟨middle, parent⟩, hbuses, address, hbdf, placed,
      hplace, ctrl, hctrl, rfl⟩
    obtain ⟨buses, hmap, rfl, hgrow⟩ := foldlM_placeBus_eq_ok.mp hbuses
    refine ⟨_, ctrl, ⟨chain, hchain, buses, hmap, address, hbdf, rfl⟩,
      hctrl, ?_⟩
    rw [hend, grow_append, Fallible.bind_eq_ok]
    refine ⟨middle, hgrow, ?_⟩
    rw [grow_cons, Fallible.bind_eq_ok]
    exact ⟨placed, hplace, rfl⟩
  · rintro ⟨_, ctrl, ⟨chain, hchain, buses, hmap, address, hbdf, rfl⟩,
      hctrl, hgrow⟩
    rw [hend, grow_append, Fallible.bind_eq_ok] at hgrow
    obtain ⟨middle, hgrow, hrest⟩ := hgrow
    rw [grow_cons, Fallible.bind_eq_ok] at hrest
    obtain ⟨placed, hplace, hhang⟩ := hrest
    exact ⟨chain, hchain, (middle, _),
      foldlM_placeBus_eq_ok.mpr ⟨buses, hmap, rfl, hgrow⟩, address,
      hbdf, placed, hplace, ctrl, hctrl, Except.ok.inj hhang⟩

/-- One round of the loop over the devices. -/
theorem buildDevice_nodes {s : Build} {device : PyText} :
    (∃ s', buildDevice k s device = .ok s' ∧ s'.nodes = nodes') ↔
      ∃ ms, deviceMoves k device = .ok ms ∧
        s.nodes.grow TopologyInfo.id ms = .ok nodes' := by
  unfold buildDevice deviceMoves
  cases hfind : findDevice k device with
  | error e =>
      constructor
      · rintro ⟨_, h, rfl⟩
        rw [← Except.ok.inj h]
        exact ⟨[], rfl, rfl⟩
      · rintro ⟨_, h, hgrow⟩
        rw [← Except.ok.inj h] at hgrow
        exact ⟨_, rfl, Except.ok.inj hgrow⟩
  | ok found =>
      simp only [Fallible.bind_eq_ok, Fallible.pure_eq_ok]
      constructor
      · rintro ⟨_, ⟨middle, hadd, rfl⟩, rfl⟩
        obtain ⟨steps, ctrl, hsteps, hctrl, hgrow⟩ := addDevice_eq_ok.mp hadd
        exact ⟨_, ⟨steps, hsteps, ctrl, hctrl, rfl⟩, hgrow⟩
      · rintro ⟨_, ⟨steps, hsteps, ctrl, hctrl, rfl⟩, hgrow⟩
        exact ⟨_, ⟨nodes',
          addDevice_eq_ok.mpr ⟨steps, ctrl, hsteps, hctrl, hgrow⟩, rfl⟩, rfl⟩

/-- **The loop over the devices** makes the moves of all of them. -/
theorem foldlM_buildDevice_nodes {s : Build} {devices : List PyText} :
    (∃ s', devices.foldlM (buildDevice k) s = .ok s' ∧ s'.nodes = nodes') ↔
      (∀ d ∈ devices, ∃ ms, deviceMoves k d = .ok ms) ∧
        s.nodes.grow TopologyInfo.id (devices.flatMap (movesOf k)) =
          .ok nodes' := by
  induction devices generalizing s with
  | nil =>
      constructor
      · rintro ⟨_, h, rfl⟩
        rw [← Except.ok.inj h]
        exact ⟨List.forall_mem_nil _, rfl⟩
      · rintro ⟨-, h⟩
        exact ⟨s, rfl, Except.ok.inj h⟩
  | cons d devices ih =>
      rw [List.foldlM_cons, List.forall_mem_cons, List.flatMap_cons,
        grow_append]
      simp only [Fallible.bind_eq_ok]
      constructor
      · rintro ⟨s', ⟨middle, hbuild, hrest⟩, hnodes⟩
        obtain ⟨ms, hms, hgrow⟩ := buildDevice_nodes.mp ⟨middle, hbuild, rfl⟩
        obtain ⟨hall, hafter⟩ := ih.mp ⟨s', hrest, hnodes⟩
        refine ⟨⟨⟨ms, hms⟩, hall⟩, middle.nodes, ?_, hafter⟩
        rw [movesOf, hms]
        exact hgrow
      · rintro ⟨⟨⟨ms, hms⟩, hall⟩, nodes, hgrow, hafter⟩
        rw [movesOf, hms] at hgrow
        obtain ⟨middle, hbuild, rfl⟩ := buildDevice_nodes.mpr ⟨ms, hms, hgrow⟩
        obtain ⟨s', hrest, hnodes⟩ := ih.mpr ⟨hall, hafter⟩
        exact ⟨s', ⟨middle, hbuild, hrest⟩, hnodes⟩

/-- **The tree** is what the moves of the devices make of its root. -/
theorem buildTopology_root {devices : List PyText} {backendKind : PyText}
    {root : TopologyNode} :
    (∃ t, buildTopology k devices backendKind = .ok t ∧ t.root = root) ↔
      (∀ d ∈ devices, ∃ ms, deviceMoves k d = .ok ms) ∧
        ∃ nodes, rootOnly.grow TopologyInfo.id (devices.flatMap (movesOf k)) =
          .ok nodes ∧
          nodes.tree = root := by
  simp only [buildTopology, Fallible.bind_eq_ok, Fallible.pure_eq_ok]
  constructor
  · rintro ⟨_, ⟨s, hs, rfl⟩, rfl⟩
    obtain ⟨hall, hgrow⟩ := foldlM_buildDevice_nodes.mp ⟨s, hs, rfl⟩
    exact ⟨hall, s.nodes, hgrow, rfl⟩
  · rintro ⟨hall, nodes, hgrow, rfl⟩
    obtain ⟨s, hs, rfl⟩ :=
      foldlM_buildDevice_nodes (s := ⟨rootOnly, []⟩).mpr ⟨hall, hgrow⟩
    exact ⟨_, ⟨s, hs, rfl⟩, rfl⟩

end

/-! ### Ids -/

section

variable {B P : Type} {k : Kernel B P}

/-- The ids of a tree, from its root. -/
def idsOf (t : TopologyNode) : List PyText := t.labels.map TopologyInfo.id

/-- The ids of a node and below. -/
theorem idsOf_node (a : TopologyInfo) (cs : List TopologyNode) :
    idsOf (.node a cs) = a.id :: cs.flatMap idsOf := by
  unfold idsOf
  rw [labels_node, List.map_cons, List.map_flatMap]

/-- The name of a namespace. -/
def NvmeNs.nodeName (ns : NvmeNs) (nsid : Nat) : PyText :=
  tryRead (ns.diskName.map decode) ("nsid".toList ++ ofNat nsid)

/-- The id of a namespace. -/
theorem namespaceNode_ids {device : PyText} {ns : NvmeNs} {t : TopologyNode}
    (h : namespaceNode device ns = .ok t) :
    ∃ nsid, ns.nsid = .ok nsid ∧
      idsOf t = ["ns:".toList ++ ns.nodeName nsid] := by
  simp only [namespaceNode, Fallible.bind_eq_ok, Fallible.pure_eq_ok] at h
  obtain ⟨nsid, hnsid, _, _, _, _, rfl⟩ := h
  exact ⟨nsid, hnsid, rfl⟩

/-- The id of a subsystem. -/
theorem subsystemNode_ids {device : PyText} {ctrl : NvmeCtrl} {t : TopologyNode}
    (h : subsystemNode ctrl device = .ok (some t)) :
    ∃ subsys, ctrl.subsys = .ok (.ok (some subsys)) ∧
      idsOf t = ["subsys:".toList ++ ofInt (tryRead subsys.instanceNr 0)] := by
  unfold subsystemNode at h
  cases hsubsys : ctrl.subsys with
  | error e =>
      rw [hsubsys] at h
      cases h
  | ok pointer =>
      rw [hsubsys] at h
      obtain ⟨subsys, rfl, h⟩ := Fallible.bind_eq_ok.mp h
      cases subsys with
      | none => cases h
      | some subsys =>
          have hbind :
              (subsystemInfo subsys device >>= fun info =>
              pure (some (.node info [])))
              = Except.ok (some t) := h
          obtain ⟨info, hinfo, hsome⟩ := Fallible.bind_eq_ok.mp hbind
          simp only [subsystemInfo, Fallible.bind_eq_ok,
            Fallible.pure_eq_ok] at hinfo
          obtain ⟨_, _, _, _, _, _, _, _, _, _, rfl⟩ := hinfo
          rw [← Option.some.inj (Fallible.pure_eq_ok.mp hsome)]
          exact ⟨subsys, rfl, rfl⟩

/-- The numbers of the queues that are shown. -/
def queueIds (dev : NvmeDevObject P) : List Nat :=
  (List.range (tryRead dev.onlineQueues 0)).filterMap fun i =>
    (dev.queues i).toOption.map fun q => tryRead q.qid i

/-- The ids of the queues. -/
theorem queueGroupNode_ids {dev : NvmeDevObject P} {device : PyText}
    {t : TopologyNode}
    (h : queueGroupNode dev device = some t) :
    idsOf t = ("queues:".toList ++ device) ::
      (queueIds dev).map (fun qid =>
        "q:".toList ++ device ++ ':' :: ofNat qid) := by
  unfold queueGroupNode at h
  dsimp only at h
  split at h
  · cases h
  · rw [← Option.some.inj h, idsOf_node]
    refine congrArg (_ :: ·) ?_
    unfold queueIds
    induction List.range (tryRead dev.onlineQueues 0) with
    | nil => rfl
    | cons i l ih =>
        cases hq : (dev.queues i).toOption with
        | none =>
            rw [List.filterMap_cons_none (by rw [hq]; rfl),
              List.filterMap_cons_none (by rw [hq]; rfl)]
            exact ih
        | some q =>
            rw [List.filterMap_cons_some (b := queueNode device i q)
              (by rw [hq]; rfl),
              List.filterMap_cons_some (b := tryRead q.qid i) (by rw [hq]; rfl),
              List.flatMap_cons, ih]
            rfl

/-- **The parts of a controller's node.** -/
theorem ctrlNode_ids {dev : NvmeDevObject P} {device : PyText}
    {t : TopologyNode}
    (h : ctrlNode dev device = .ok t) :
    ∃ ctrl subsys nsNodes, dev.ctrl = .ok ctrl ∧
      subsystemNode ctrl device = .ok subsys ∧
      namespaceNodes ctrl device = .ok nsNodes ∧
        idsOf t = ("ctrl:".toList ++ device) ::
        (subsys.toList.flatMap idsOf ++ nsNodes.flatMap idsOf ++
          (queueGroupNode dev device).toList.flatMap idsOf) := by
  simp only [ctrlNode, Fallible.bind_eq_ok, Fallible.pure_eq_ok] at h
  obtain ⟨ctrl, hctrl, subsys, hsubsys, nsNodes, hns, _, _, _, _, rfl⟩ := h
  refine ⟨ctrl, subsys, nsNodes, hctrl, hsubsys, hns, ?_⟩
  rw [idsOf_node, List.flatMap_append, List.flatMap_append]

/-- The tags of the nodes below the node of a controller. -/
def belowTags : List PyText :=
  ["subsys".toList, "ns".toList, "queues".toList, "q".toList]

/-- The ids below a controller are of other kinds than those of paths. -/
theorem ctrlNode_tags {dev : NvmeDevObject P} {device : PyText}
    {t : TopologyNode}
    (h : ctrlNode dev device = .ok t) :
    ∃ ids, idsOf t = ("ctrl:".toList ++ device) :: ids ∧
      ∀ id ∈ ids, idTag id ∈ belowTags := by
  obtain ⟨ctrl, subsys, nsNodes, -, hsubsys, hns, hids⟩ := ctrlNode_ids h
  refine ⟨_, hids, fun id hid => ?_⟩
  rcases List.mem_append.mp hid with hid | hid
  · rcases List.mem_append.mp hid with hid | hid
    · obtain ⟨node, hnode, hid⟩ := List.mem_flatMap.mp hid
      rw [Option.mem_toList.mp hnode] at hsubsys
      obtain ⟨s, -, hs⟩ := subsystemNode_ids hsubsys
      rw [hs, List.mem_singleton] at hid
      rw [hid]
      exact List.mem_cons_self
    · obtain ⟨node, hnode, hid⟩ := List.mem_flatMap.mp hid
      have hall := Fallible.mapM_eq_ok_iff_map.mp hns
      obtain ⟨ns, -, hok⟩ :=
        List.mem_map.mp (hall ▸ List.mem_map_of_mem (f := Except.ok) hnode)
      obtain ⟨nsid, -, hs⟩ := namespaceNode_ids hok
      rw [hs, List.mem_singleton] at hid
      rw [hid]
      exact List.mem_cons_of_mem _ List.mem_cons_self
  · obtain ⟨node, hnode, hid⟩ := List.mem_flatMap.mp hid
    rw [queueGroupNode_ids (Option.mem_toList.mp hnode)] at hid
    rcases List.mem_cons.mp hid with rfl | hid
    · exact List.mem_cons_of_mem _ (List.mem_cons_of_mem _ List.mem_cons_self)
    · obtain ⟨qid, -, rfl⟩ := List.mem_map.mp hid
      exact List.mem_cons_of_mem _
        (List.mem_cons_of_mem _ (List.mem_cons_of_mem _ List.mem_cons_self))

/-- What the id of a node on a path is like, and that the node says it. -/
def IsStep (e : PyText × Read TopologyInfo) : Prop :=
  IsPathId e.1 ∧ e.1 ≠ "system".toList ∧ ∀ a, e.2 = .ok a → a.id = e.1

/-- A node of a path is a step. -/
theorem isStep_of_tag {id : PyText} {describe : Read TopologyInfo}
    (htag : idTag id ∈ ["hostbridge".toList, "pci".toList])
    (h : ∀ a, describe = .ok a → a.id = id) :
    IsStep (id, describe) := by
  refine ⟨List.mem_cons_of_mem _ htag, ?_, h⟩
  rintro rfl
  exact absurd htag (by decide)

/-- A bus is a step. -/
theorem busNode_isStep {entry : B × Option P} {e : PyText × Read TopologyInfo}
    (h : busNode k entry = .ok e) : IsStep e := by
  obtain ⟨bus, bridge⟩ := entry
  cases bridge with
  | none =>
      simp only [busNode, Fallible.bind_eq_ok, Fallible.pure_eq_ok] at h
      obtain ⟨number, -, rfl⟩ := h
      refine isStep_of_tag (List.mem_cons_self) fun a ha => ?_
      simp only [hostBridgeInfo, Fallible.bind_eq_ok, Fallible.pure_eq_ok] at ha
      obtain ⟨_, _, _, _, _, _, rfl⟩ := ha
      rfl
  | some bridge =>
      simp only [busNode, Fallible.bind_eq_ok, Fallible.pure_eq_ok] at h
      obtain ⟨address, -, rfl⟩ := h
      refine isStep_of_tag (List.mem_cons_of_mem _ List.mem_cons_self)
        fun a ha => ?_
      simp only [bridgeInfo, Fallible.bind_eq_ok, Fallible.pure_eq_ok] at ha
      obtain ⟨_, _, _, _, rfl⟩ := ha
      rfl

variable [Fintype B]

/-- The nodes of a path are steps. -/
theorem pathOf_isStep {device : PyText} {pdev : P}
    {steps : List (PyText × Read TopologyInfo)}
    (h : pathOf k device pdev = .ok steps) : ∀ e ∈ steps, IsStep e := by
  simp only [pathOf, Fallible.bind_eq_ok, Fallible.pure_eq_ok] at h
  obtain ⟨chain, -, buses, hbuses, address, -, rfl⟩ := h
  intro e he
  rcases List.mem_append.mp he with he | he
  · have hall := Fallible.mapM_eq_ok_iff_map.mp hbuses
    obtain ⟨entry, -, hok⟩ :=
      List.mem_map.mp (hall ▸ List.mem_map_of_mem (f := Except.ok) he)
    exact busNode_isStep hok
  · rw [List.mem_singleton.mp he]
    refine isStep_of_tag (List.mem_cons_of_mem _ List.mem_cons_self) fun a ha =>
      ?_
    simp only [endpointInfo, Fallible.bind_eq_ok, Fallible.pure_eq_ok] at ha
    obtain ⟨_, _, rfl⟩ := ha
    rfl

/-! ### The moves of a device -/

/-- The moves of a device, or none if it is not found. -/
theorem deviceMoves_eq_ok {device : PyText}
    {ms : List (Move TopologyInfo PyText PyText)} :
    deviceMoves k device = .ok ms ↔
      ((∃ e, findDevice k device = .error e) ∧ ms = []) ∨
      ∃ dev pdev steps ctrl, findDevice k device = .ok (dev, pdev) ∧
        pathOf k device pdev = .ok steps ∧ ctrlNode dev device = .ok ctrl ∧
        ms = movesOn steps ctrl := by
  unfold deviceMoves
  cases hfind : findDevice k device with
  | error e =>
      constructor
      · exact fun h => Or.inl ⟨⟨e, rfl⟩, (Except.ok.inj h).symm⟩
      · rintro (⟨-, rfl⟩ | ⟨_, _, _, _, h, _⟩)
        · rfl
        · cases h
  | ok found =>
      obtain ⟨dev, pdev⟩ := found
      simp only [Fallible.bind_eq_ok, Fallible.pure_eq_ok]
      constructor
      · rintro ⟨steps, hsteps, ctrl, hctrl, rfl⟩
        exact Or.inr ⟨dev, pdev, steps, ctrl, rfl, hsteps, hctrl, rfl⟩
      · rintro (⟨⟨_, h⟩, _⟩ | ⟨_, _, steps, ctrl, h, hsteps, hctrl, rfl⟩)
        · cases h
        · cases h
          exact ⟨steps, hsteps, ctrl, hctrl, rfl⟩

/-- A device has no moves, or those on its path. -/
theorem movesOf_eq (device : PyText) : movesOf k device = [] ∨
    ∃ dev pdev steps ctrl, findDevice k device = .ok (dev, pdev) ∧
      pathOf k device pdev = .ok steps ∧ ctrlNode dev device = .ok ctrl ∧
      movesOf k device = movesOn steps ctrl := by
  unfold movesOf
  cases h : deviceMoves k device with
  | error e => exact Or.inl rfl
  | ok ms =>
      rcases deviceMoves_eq_ok.mp h with ⟨-, rfl⟩ | ⟨dev, pdev, steps, ctrl,
        hfind, hsteps, hctrl, rfl⟩
      · exact Or.inl rfl
      · exact Or.inr ⟨dev, pdev, steps, ctrl, hfind, hsteps, hctrl, rfl⟩

/-- The moves of a device place its path and hang its controller. -/
theorem mem_movesOn {steps : List (PyText × Read TopologyInfo)}
    {ctrl : TopologyNode}
    {m : Move TopologyInfo PyText PyText} : m ∈ movesOn steps ctrl ↔
      (∃ r ∈ path "system".toList steps, m = .place r) ∨
        m = .hang (lastKey "system".toList steps) ctrl := by
  rw [movesOn, List.mem_append, List.mem_map, List.mem_singleton]
  simp only [eq_comm]

/-- What a path of requests and its end give, where requests give nothing. -/
theorem flatMap_movesOn {β : Type}
    {f : Move TopologyInfo PyText PyText → List β}
    (hf : ∀ r, f (.place r) = []) (steps : List (PyText × Read TopologyInfo))
    (ctrl : TopologyNode) :
    (movesOn steps ctrl).flatMap f =
      f (.hang (lastKey "system".toList steps) ctrl) := by
  have hplaces : ((path "system".toList steps).map Move.place).flatMap f =
      [] := by
    rw [List.flatMap_map]
    exact List.flatMap_eq_nil_iff.mpr fun r _ => hf r
  rw [movesOn, List.flatMap_append, hplaces, List.nil_append,
    List.flatMap_singleton]

/-- The nodes that the requests of a path are for. -/
theorem exists_step_of_mem_path {parent : PyText}
    {steps : List (PyText × Read TopologyInfo)}
    {r : NodeRequest TopologyInfo PyText PyText} (h : r ∈ path parent steps) :
    (r.key, r.describe) ∈ steps := by
  induction steps generalizing parent with
  | nil => cases h
  | cons e steps ih =>
      rcases List.mem_cons.mp h with rfl | h
      · exact List.mem_cons_self
      · exact List.mem_cons_of_mem _ (ih h)

/-- The moves of a device are proper. -/
theorem proper_movesOf (device : PyText) :
    ∀ m ∈ movesOf k device, m.Proper TopologyInfo.id IsPathId := by
  rcases movesOf_eq (k := k) device with h | ⟨dev, pdev, steps, ctrl, -, hsteps,
    hctrl, h⟩
  · rw [h]
    exact List.forall_mem_nil _
  · rw [h]
    intro m hm
    rcases mem_movesOn.mp hm with ⟨r, hr, rfl⟩ | rfl
    · obtain ⟨hinner, -, hid⟩ :=
        pathOf_isStep hsteps _ (exists_step_of_mem_path hr)
      exact ⟨hinner, hid⟩
    · obtain ⟨ids, hids, htags⟩ := ctrlNode_tags hctrl
      intro a ha hpath
      have hmem : a.id ∈ idsOf ctrl := List.mem_map_of_mem ha
      rw [hids] at hmem
      rcases List.mem_cons.mp hmem with heq | hmem
      · rw [heq] at hpath
        have hnot : ¬ IsPathId ("ctrl:".toList ++ device) := by
          show "ctrl".toList ∉ _
          decide
        exact hnot hpath
      · have hdisjoint : ∀ tag ∈ belowTags,
            tag ∉ ["system".toList, "hostbridge".toList, "pci".toList] := by
          decide
        exact hdisjoint _ (htags _ hmem) hpath

/-- They hang things where something is. -/
theorem placed_movesOf (device : PyText) :
    Placed ["system".toList] (movesOf k device) := by
  rcases movesOf_eq (k := k) device with h | ⟨dev, pdev, steps, ctrl,
    -, -, -, h⟩
  · rw [h]
    trivial
  · rw [h]
    exact placed_path (List.mem_singleton_self _) steps ctrl

/-- So do those of all devices. -/
theorem placed_moves (devices : List PyText) :
    Placed ["system".toList] (devices.flatMap (movesOf k)) := by
  induction devices with
  | nil => trivial
  | cons d devices ih => exact (placed_movesOf d).append ih

/-- The moves of all devices are proper. -/
theorem proper_moves (devices : List PyText) :
    ∀ m ∈ devices.flatMap (movesOf k), m.Proper TopologyInfo.id IsPathId := by
  intro m hm
  obtain ⟨d, -, hm⟩ := List.mem_flatMap.mp hm
  exact proper_movesOf d m hm

/-- At first only the root is indexed. -/
theorem isPathId_index : ∀ id ∈ rootOnly.index, IsPathId id := by decide

/-- The tree that has only its root is known. -/
theorem known_rootOnly {real : PyText → List TopologyInfo}
    (hroot : real "system".toList = [systemInfo]) :
    Known TopologyInfo.id IsPathId real rootOnly := by
  intro id _
  have hchains : chains rootOnly.tree = [[systemInfo]] := rfl
  rw [hchains, List.filter_singleton]
  by_cases h : id = "system".toList
  · rw [h, hroot]
    rfl
  · have hends : endsAt TopologyInfo.id id [systemInfo] = false := by
      refine decide_eq_false fun heq => h ?_
      exact (Option.some.inj heq).symm
    have hmem : id ∉ rootOnly.index :=
      fun hmem => h (List.mem_singleton.mp hmem)
    rw [hends, if_neg hmem]
    rfl

/-- **The chains of the tree.**  There is a chain for each id that was asked for
first, one node longer than the chain of the node above it, and below the ends
of the paths are the trees of the controllers. -/
theorem chains_topology {devices : List PyText} {nodes : Nodes}
    (h : rootOnly.grow TopologyInfo.id (devices.flatMap (movesOf k)) =
      .ok nodes)
    {real : PyText → List TopologyInfo}
    (hroot : real "system".toList = [systemInfo])
    (hreal : ∀ r ∈ news ["system".toList] (devices.flatMap (movesOf k)), ∀ a,
      r.describe = .ok a → real r.key = real r.parent ++ [a]) :
    Known TopologyInfo.id IsPathId real nodes ∧
      (chains nodes.tree).Perm ([systemInfo] ::
      ((news ["system".toList] (devices.flatMap (movesOf k))).map (fun r =>
        real r.key) ++
        (devices.flatMap (movesOf k)).flatMap (hung real))) :=
  chains_grow h (known_rootOnly hroot) isPathId_index (placed_moves devices)
    (proper_moves devices)
    hreal

/-- The chains to the nodes that are looked up, for the equations of
`chains_topology`. -/
theorem exists_realOf (devices : List PyText) :
    ∃ real : PyText → List TopologyInfo,
    real "system".toList = [systemInfo] ∧
      ∀ r ∈ news ["system".toList] (devices.flatMap (movesOf k)), ∀ a,
        r.describe = .ok a → real r.key = real r.parent ++ [a] := by
  obtain ⟨real, hstart, hreal⟩ :=
    exists_real (placed_moves (k := k) devices) fun _ => [systemInfo]
  exact ⟨real, hstart "system".toList (List.mem_singleton_self _), hreal⟩

/-- **The ids of a tree that is built** are those of the nodes that are looked
up and those below the endpoints. -/
theorem idsOf_topology {devices : List PyText} {t : Topology}
    {backendKind : PyText}
    (h : buildTopology k devices backendKind = .ok t) : (idsOf t.root).Perm
      ((["system".toList] ++
        (news ["system".toList] (devices.flatMap (movesOf k))).map
        NodeRequest.key) ++
        devices.flatMap fun d =>
          (movesOf k d).flatMap (hungKeys TopologyInfo.id)) := by
  obtain ⟨-, nodes, hgrow, hroot⟩ := buildTopology_root.mp ⟨t, h, rfl⟩
  obtain ⟨real, hsystem, hreal⟩ := exists_realOf (k := k) devices
  have hkeys :=
    keys_grow hgrow (known_rootOnly hsystem) isPathId_index
    (placed_moves devices)
    (proper_moves devices) hreal
  rw [hroot, List.flatMap_assoc] at hkeys
  rw [List.append_assoc]
  exact hkeys

/-- No node that is hung has the id of a node that is looked up. -/
theorem not_isPathId_of_hung {devices : List PyText} {id : PyText}
    (h : id ∈ devices.flatMap fun d =>
      (movesOf k d).flatMap (hungKeys TopologyInfo.id)) :
    ¬ IsPathId id := by
  obtain ⟨d, -, h⟩ := List.mem_flatMap.mp h
  obtain ⟨m, hm, h⟩ := List.mem_flatMap.mp h
  cases m with
  | place r => cases h
  | hang parent tree =>
      obtain ⟨a, ha, rfl⟩ := List.mem_map.mp h
      exact proper_movesOf d _ hm a ha

end

end Telemetryd
