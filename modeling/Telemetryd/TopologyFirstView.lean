import Telemetryd.TopologyFaults
import Telemetryd.TopologyView

/-!
# What is drawn of a device

In the trees that the backend builds, a group of queues is told by its id, and
the queues are the nodes below it and no others.  So when a device is selected,
all of it is drawn but the queues, and those are drawn if their group was
unfolded before.
-/

namespace Telemetryd

open RoseTree IndexedTree PyText

/-! ### Layers -/

/-- A part of a chain above the controllers. -/
def Upper (c : List TopologyInfo) : Prop :=
  ∀ a ∈ c, IsPathId a.id ∧ a.kind ≠ .queueGroup ∧ a.kind ≠ .queue

/-- The id of a group of queues. -/
def IsGroupId (id : PyText) : Prop := idTag id = "queues".toList

instance (id : PyText) : Decidable (IsGroupId id) :=
  inferInstanceAs (Decidable (_ = _))

/-- A part of a chain from a controller downward: a queue group is told by its
id, and the part ends at a queue exactly if it has passed a group. -/
structure Lower (c : List TopologyInfo) : Prop where
  notPath : ∀ a ∈ c, ¬ IsPathId a.id
  tells : ∀ a ∈ c, a.kind = .queueGroup ↔ IsGroupId a.id
  queues : (∃ a ∈ c.dropLast, a.kind = .queueGroup) ↔
    ∃ a ∈ c.getLast?, a.kind = .queue

/-- An upper part, continued by a lower one. -/
def Layered (c : List TopologyInfo) : Prop :=
  ∃ u l, c = u ++ l ∧ Upper u ∧ (l = [] ∨ Lower l)

theorem Upper.layered {c : List TopologyInfo} (h : Upper c) : Layered c :=
  ⟨c, [], (List.append_nil c).symm, h, .inl rfl⟩

/-- A layered chain that ends at a node that is looked up has no lower part. -/
theorem Layered.upper {c : List TopologyInfo} (h : Layered c) {id : PyText}
    (hid : IsPathId id)
    (hends : endsAt TopologyInfo.id id c = true) : Upper c := by
  obtain ⟨u, l, rfl, hu, rfl | hl⟩ := h
  · rwa [List.append_nil]
  · obtain ⟨a, ha, rfl⟩ := Option.map_eq_some_iff.mp (of_decide_eq_true hends)
    rcases List.eq_nil_or_concat l with rfl | ⟨l', b, rfl⟩
    · rwa [List.append_nil]
    · rw [List.concat_eq_append, ← List.append_assoc,
        List.getLast?_concat] at ha
      obtain rfl := Option.some.inj ha
      exact absurd hid (hl.notPath b (by simp))

/-- A group of queues is told by its id. -/
theorem Layered.tells {c : List TopologyInfo} (h : Layered c) {a : TopologyInfo}
    (ha : a ∈ c) :
    a.kind = .queueGroup ↔ IsGroupId a.id := by
  obtain ⟨u, l, rfl, hu, hl⟩ := h
  rcases List.mem_append.mp ha with ha | ha
  · obtain ⟨hpath, hkind, -⟩ := hu a ha
    refine iff_of_false hkind fun hgroup => ?_
    unfold IsPathId at hpath
    unfold IsGroupId at hgroup
    rw [hgroup] at hpath
    exact absurd hpath (by decide)
  · rcases hl with rfl | hl
    · cases ha
    · exact hl.tells a ha

/-- A chain ends at a queue exactly if it has passed a group of queues. -/
theorem Layered.queues {c : List TopologyInfo} (h : Layered c) :
    (∃ a ∈ c.dropLast, a.kind = .queueGroup) ↔
      ∃ a ∈ c.getLast?, a.kind = .queue := by
  obtain ⟨u, l, rfl, hu, hl⟩ := h
  have hno : ∀ a ∈ u, a.kind ≠ .queueGroup := fun a ha => (hu a ha).2.1
  by_cases hnil : l = []
  · rw [hnil, List.append_nil]
    refine iff_of_false ?_ ?_
    · rintro ⟨a, ha, hkind⟩
      exact hno a (List.mem_of_mem_dropLast ha) hkind
    · rintro ⟨a, ha, hkind⟩
      exact (hu a (List.mem_of_getLast? ha)).2.2 hkind
  · rcases hl with hl | hl
    · exact absurd hl hnil
    · rw [List.dropLast_append_of_ne_nil hnil,
        List.getLast?_append_of_ne_nil u hnil, ← hl.queues]
      constructor
      · rintro ⟨a, ha, hkind⟩
        rcases List.mem_append.mp ha with ha | ha
        · exact absurd hkind (hno a ha)
        · exact ⟨a, ha, hkind⟩
      · rintro ⟨a, ha, hkind⟩
        exact ⟨a, List.mem_append_right _ ha, hkind⟩

/-! ### A view of layered chains -/

/-- **The first view** of a tree with layered chains. -/
theorem drawn_of_layered {root : TopologyNode}
    (hlayered : ∀ c ∈ chains root, Layered c)
    (hroot : ¬ IsGroupId (TopologyView.rootId root)) {v : TopologyView}
    {device : PyText}
    (hsel : v.selectedDevice = some device)
    (hnew : v.autoExpandedFor ≠ some device)
    {c : List TopologyInfo} (hc : c ∈ chains root) (hlead : LeadsTo device c) :
    (Drawn (v.unfold root).expanded c = true ↔
      ∀ a ∈ c.dropLast, a.kind = .queueGroup → a.id ∈ v.expanded) ∧
    ((∃ a ∈ c.dropLast, a.kind = .queueGroup) ↔
      ∃ a ∈ c.getLast?, a.kind = .queue) := by
  have htells : ∀ a ∈ root.labels, a.kind = .queueGroup ↔ IsGroupId a.id := by
    intro a ha
    obtain ⟨d, hd, hlast⟩ := List.mem_filterMap.mp ha
    exact (hlayered d hd).tells (List.mem_of_getLast? hlast)
  exact ⟨drawn_unfold hsel hnew htells hroot hc hlead, (hlayered c hc).queues⟩

/-! ### The tree of a controller -/

/-- A node below an endpoint that is neither a group of queues nor a queue. -/
def Plain (a : TopologyInfo) : Prop :=
  ¬ IsPathId a.id ∧ ¬ IsGroupId a.id ∧ a.kind ≠ .queueGroup ∧ a.kind ≠ .queue

/-- A group of queues. -/
def IsQueueGroup (t : TopologyNode) : Prop :=
  ∃ g qs, t = .node g qs ∧ IsGroupId g.id ∧ g.kind = .queueGroup ∧
    ∀ q ∈ qs, ∃ a, q = .node a [] ∧ ¬ IsPathId a.id ∧ ¬ IsGroupId a.id ∧
      a.kind = .queue

theorem not_isPathId_of_isGroupId {id : PyText} (h : IsGroupId id) :
    ¬ IsPathId id := by
  unfold IsPathId
  unfold IsGroupId at h
  rw [h]
  decide

theorem Plain.tells {a : TopologyInfo} (h : Plain a) :
    a.kind = .queueGroup ↔ IsGroupId a.id :=
  iff_of_false h.2.2.1 h.2.1

/-- The chains below a node, by the first step. -/
theorem exists_of_mem_chains_node {a : TopologyInfo} {cs : List TopologyNode}
    {c : List TopologyInfo} (h : c ∈ chains (.node a cs)) :
    c = [a] ∨ ∃ t ∈ cs, ∃ d ∈ chains t, c = a :: d := by
  rw [chains_node] at h
  rcases List.mem_cons.mp h with h | h
  · exact .inl h
  · obtain ⟨d, hd, rfl⟩ := List.mem_map.mp h
    obtain ⟨t, ht, hd⟩ := List.mem_flatMap.mp hd
    exact .inr ⟨t, ht, d, hd, rfl⟩

/-- **The chains of a controller** with single nodes and groups of queues below
it. -/
theorem lower_of_ctrl {info : TopologyInfo} {leaves groups : List TopologyNode}
    (hinfo : Plain info) (hleaves : ∀ t ∈ leaves, ∃ a, t = .node a [] ∧ Plain a)
    (hgroups : ∀ t ∈ groups, IsQueueGroup t) :
    ∀ c ∈ chains (.node info (leaves ++ groups)), Lower c := by
  intro c hc
  rcases exists_of_mem_chains_node hc with rfl | ⟨t, ht, d, hd, rfl⟩
  · exact ⟨by simpa using hinfo.1, by simpa using hinfo.tells, by simp [hinfo.2.2.2]⟩
  · rcases List.mem_append.mp ht with ht | ht
    · obtain ⟨a, rfl, ha⟩ := hleaves t ht
      obtain rfl := List.mem_singleton.mp hd
      exact ⟨by simp [hinfo.1, ha.1], by simp [hinfo.tells, ha.tells],
        by simp [hinfo.2.2.1, ha.2.2.2]⟩
    · obtain ⟨g, qs, rfl, hgid, hgkind, hqs⟩ := hgroups t ht
      have hgpath := not_isPathId_of_isGroupId hgid
      rcases exists_of_mem_chains_node hd with rfl | ⟨q, hq, e, he, rfl⟩
      · exact ⟨by simp [hinfo.1, hgpath], by simp [hinfo.tells, hgid, hgkind],
          by simp [hinfo.2.2.1, hgkind]⟩
      · obtain ⟨a, rfl, hapath, hagroup, hakind⟩ := hqs q hq
        obtain rfl := List.mem_singleton.mp he
        exact ⟨by simp [hinfo.1, hgpath, hapath],
          by simp [hinfo.tells, hgid, hgkind, hagroup, hakind], by
            simp [hgkind, hakind]⟩

section

variable {B P : Type} {k : Kernel B P}

theorem namespaceNode_leaf {device : PyText} {ns : NvmeNs} {t : TopologyNode}
    (h : namespaceNode device ns = .ok t) : ∃ a, t = .node a [] ∧ Plain a := by
  simp only [namespaceNode, Fallible.bind_eq_ok, Fallible.pure_eq_ok] at h
  obtain ⟨nsid, -, _, -, _, -, rfl⟩ := h
  refine ⟨_, rfl, ?_, ?_, by simp, by simp⟩
  · simp [IsPathId, idTag]
  · simp [IsGroupId, idTag]

theorem subsystemNode_leaf {device : PyText} {ctrl : NvmeCtrl}
    {t : TopologyNode}
    (h : subsystemNode ctrl device = .ok (some t)) :
    ∃ a, t = .node a [] ∧ Plain a := by
  unfold subsystemNode at h
  cases hsubsys : ctrl.subsys with
  | error e =>
      rw [hsubsys] at h
      cases h
  | ok pointer =>
      rw [hsubsys] at h
      simp only [Except.toOption, Fallible.bind_eq_ok] at h
      obtain ⟨subsys, -, h⟩ := h
      cases subsys with
      | none => cases h
      | some subsys =>
          simp only [Fallible.bind_eq_ok, Fallible.pure_eq_ok] at h
          obtain ⟨info, hinfo, h⟩ := h
          obtain rfl := Option.some.inj h
          simp only [subsystemInfo, Fallible.bind_eq_ok,
            Fallible.pure_eq_ok] at hinfo
          obtain ⟨_, _, _, _, _, _, _, _, _, _, rfl⟩ := hinfo
          refine ⟨_, rfl, ?_, ?_, by simp, by simp⟩
          · simp [IsPathId, idTag]
          · simp [IsGroupId, idTag]

theorem queueGroupNode_isQueueGroup {dev : NvmeDevObject P} {device : PyText}
    {t : TopologyNode}
    (h : queueGroupNode dev device = some t) : IsQueueGroup t := by
  unfold queueGroupNode at h
  dsimp only at h
  split at h
  · cases h
  · obtain rfl := Option.some.inj h
    refine ⟨_, _, rfl, by simp [IsGroupId, idTag], rfl, fun q hq => ?_⟩
    obtain ⟨i, -, hq⟩ := List.mem_filterMap.mp hq
    obtain ⟨o, -, rfl⟩ := Option.map_eq_some_iff.mp hq
    refine ⟨_, rfl, ?_, ?_, rfl⟩
    · simp [IsPathId, idTag]
    · simp [IsGroupId, idTag]

theorem lower_ctrlNode {dev : NvmeDevObject P} {device : PyText}
    {t : TopologyNode}
    (h : ctrlNode dev device = .ok t) : ∀ c ∈ chains t, Lower c := by
  simp only [ctrlNode, Fallible.bind_eq_ok, Fallible.pure_eq_ok] at h
  obtain ⟨ctrl, -, subsys, hsubsys, nsNodes, hns, _, -, _, -, rfl⟩ := h
  refine lower_of_ctrl ⟨?_, ?_, by simp, by simp⟩ ?_ ?_
  · simp [IsPathId, idTag]
  · simp [IsGroupId, idTag]
  · intro t ht
    rcases List.mem_append.mp ht with ht | ht
    · rw [Option.mem_toList.mp ht] at hsubsys
      exact subsystemNode_leaf hsubsys
    · have hall := Fallible.mapM_eq_ok_iff_map.mp hns
      obtain ⟨ns, -, hok⟩ :=
        List.mem_map.mp (hall ▸ List.mem_map_of_mem (f := Except.ok) ht)
      exact namespaceNode_leaf hok
  · intro t ht
    exact queueGroupNode_isQueueGroup (Option.mem_toList.mp ht)

/-! ### The tree of the backend -/

/-- The nodes that a step of a path describes are above the controllers. -/
def DescribesUpper (e : PyText × Read TopologyInfo) : Prop :=
  ∀ a, e.2 = .ok a → a.kind ≠ .queueGroup ∧ a.kind ≠ .queue

theorem busNode_describesUpper {entry : B × Option P}
    {e : PyText × Read TopologyInfo}
    (h : busNode k entry = .ok e) : DescribesUpper e := by
  obtain ⟨bus, bridge⟩ := entry
  intro a ha
  cases bridge with
  | none =>
      simp only [busNode, Fallible.bind_eq_ok, Fallible.pure_eq_ok] at h
      obtain ⟨number, -, rfl⟩ := h
      simp only [hostBridgeInfo, Fallible.bind_eq_ok, Fallible.pure_eq_ok] at ha
      obtain ⟨_, _, _, _, _, _, rfl⟩ := ha
      exact ⟨TopoKind.noConfusion, TopoKind.noConfusion⟩
  | some bridge =>
      simp only [busNode, Fallible.bind_eq_ok, Fallible.pure_eq_ok] at h
      obtain ⟨address, -, rfl⟩ := h
      simp only [bridgeInfo, Fallible.bind_eq_ok, Fallible.pure_eq_ok] at ha
      obtain ⟨_, _, _, _, rfl⟩ := ha
      exact ⟨TopoKind.noConfusion, TopoKind.noConfusion⟩

variable [Fintype B]

theorem pathOf_describesUpper {device : PyText} {pdev : P}
    {steps : List (PyText × Read TopologyInfo)}
    (h : pathOf k device pdev = .ok steps) :
    ∀ e ∈ steps, DescribesUpper e := by
  simp only [pathOf, Fallible.bind_eq_ok, Fallible.pure_eq_ok] at h
  obtain ⟨chain, -, buses, hbuses, address, -, rfl⟩ := h
  intro e he
  rcases List.mem_append.mp he with he | he
  · have hall := Fallible.mapM_eq_ok_iff_map.mp hbuses
    obtain ⟨entry, -, hok⟩ :=
      List.mem_map.mp (hall ▸ List.mem_map_of_mem (f := Except.ok) he)
    exact busNode_describesUpper hok
  · obtain rfl := List.mem_singleton.mp he
    intro a ha
    simp only [endpointInfo, Fallible.bind_eq_ok, Fallible.pure_eq_ok] at ha
    obtain ⟨_, _, rfl⟩ := ha
    exact ⟨TopoKind.noConfusion, TopoKind.noConfusion⟩

/-- Where the nodes of a path are asked for and its end are ids that are looked
up. -/
theorem isPathId_of_path {steps : List (PyText × Read TopologyInfo)}
    (hsteps : ∀ e ∈ steps, IsStep e) {parent : PyText}
    (hparent : IsPathId parent) :
    (∀ r ∈ path parent steps, IsPathId r.parent) ∧
      IsPathId (lastKey parent steps) := by
  induction steps generalizing parent with
  | nil => exact ⟨List.forall_mem_nil _, hparent⟩
  | cons e steps ih =>
      obtain ⟨he, hsteps⟩ := List.forall_mem_cons.mp hsteps
      obtain ⟨hpath, hlast⟩ := ih hsteps he.1
      exact ⟨List.forall_mem_cons.mpr ⟨hparent, hpath⟩, hlast⟩

/-- **The chains of a tree that is built** are layered. -/
theorem layered_topology {devices : List PyText} {t : Topology}
    {backendKind : PyText}
    (h : buildTopology k devices backendKind = .ok t) :
    ∀ c ∈ chains t.root, Layered c := by
  obtain ⟨-, nodes, hgrow, hroot⟩ := buildTopology_root.mp ⟨t, h, rfl⟩
  have hsystem : IsPathId "system".toList := by decide
  rw [← hroot]
  refine forall_chains_grow hgrow ?_ ?_ ?_
  · intro c hc
    obtain rfl := List.mem_singleton.mp hc
    refine Upper.layered fun a ha => ?_
    obtain rfl := List.mem_singleton.mp ha
    exact ⟨hsystem, by decide, by decide⟩
  · intro r hr a ha c hc hends
    obtain ⟨device, -, hr⟩ := List.mem_flatMap.mp hr
    rcases movesOf_eq (k := k) device with hnil | ⟨dev, pdev, steps, ctrl, -,
      hsteps, -, heq⟩
    · rw [hnil] at hr
      cases hr
    · rw [heq] at hr
      obtain ⟨r', hr', hplace⟩ :=
        (mem_movesOn.mp hr).resolve_right (fun h => nomatch h)
      obtain rfl := Move.place.inj hplace
      have hstep := exists_step_of_mem_path hr'
      obtain ⟨hkey, -, hid⟩ := pathOf_isStep hsteps _ hstep
      have hparent := (isPathId_of_path (pathOf_isStep hsteps) hsystem).1 r hr'
      have hupper := hc.upper hparent hends
      refine Upper.layered fun b hb => ?_
      rcases List.mem_append.mp hb with hb | hb
      · exact hupper b hb
      · obtain rfl := List.mem_singleton.mp hb
        rw [hid b ha]
        exact ⟨hkey, pathOf_describesUpper hsteps _ hstep b ha⟩
  · intro p tree ht c hc hends d hd
    obtain ⟨device, -, ht⟩ := List.mem_flatMap.mp ht
    rcases movesOf_eq (k := k) device with hnil | ⟨dev, pdev, steps, ctrl, -,
      hsteps, hctrl, heq⟩
    · rw [hnil] at ht
      cases ht
    · rw [heq] at ht
      have hhang :=
        (mem_movesOn.mp ht).resolve_left (fun ⟨_, _, h⟩ => nomatch h)
      obtain ⟨rfl, rfl⟩ := Move.hang.inj hhang
      have hparent := (isPathId_of_path (pathOf_isStep hsteps) hsystem).2
      exact ⟨c, d, rfl, hc.upper hparent hends,
        .inr (lower_ctrlNode hctrl d hd)⟩

/-- The root of a tree that is built is the system. -/
theorem rootId_topology {devices : List PyText} {t : Topology}
    {backendKind : PyText}
    (h : buildTopology k devices backendKind = .ok t) :
    TopologyView.rootId t.root = "system".toList := by
  obtain ⟨-, nodes, hgrow, hroot⟩ := buildTopology_root.mp ⟨t, h, rfl⟩
  have hstart : ∀ c ∈ chains nodes.tree, c.head? = some systemInfo := by
    refine forall_chains_grow hgrow ?_ ?_ ?_
    · intro c hc
      obtain rfl := List.mem_singleton.mp hc
      rfl
    · intro r _ a _ c hc _
      rw [List.head?_append, hc, Option.some_or]
    · intro p tree _ c hc _ d _
      rw [List.head?_append, hc, Option.some_or]
  rw [hroot] at hstart
  cases htree : t.root with
  | node info children =>
      rw [htree, chains_node] at hstart
      rw [TopologyView.rootId,
        Option.some.inj (hstart [info] List.mem_cons_self)]
      rfl

/-- **The first view of a device** shows all that belongs to it but its queues,
and those if their group was unfolded before. -/
theorem TopologyView.first_view {devices : List PyText} {t : Topology}
    {backendKind : PyText}
    (h : buildTopology k devices backendKind = .ok t) {v : TopologyView}
    (hroot : v.root = some t.root) {device : PyText}
    (hsel : v.selectedDevice = some device)
    (hnew : v.autoExpandedFor ≠ some device) :
    ∃ w rows, v.renderTopology = (w, some rows) ∧ ∀ c ∈ chains t.root,
      LeadsTo device c →
      (c ∈ (chains rows).map (List.map TopoRow.node) ↔
        (∃ a ∈ c.getLast?, a.kind = .queue) →
        ∀ a ∈ c.dropLast, a.kind = .queueGroup → a.id ∈ v.expanded) := by
  have hsystem : ¬ IsGroupId (TopologyView.rootId t.root) := by
    rw [rootId_topology h]
    decide
  refine ⟨v.unfold t.root, _, by rw [TopologyView.renderTopology, hroot],
    fun c hc hlead => ?_⟩
  obtain ⟨hdrawn, hqueue⟩ :=
    drawn_of_layered (layered_topology h) hsystem hsel hnew hc hlead
  rw [chains_render, List.mem_filter, and_iff_right hc, hdrawn, ← hqueue]
  constructor
  · exact fun hall _ => hall
  · exact fun hall a ha hkind => hall ⟨a, ha, hkind⟩ a ha hkind

end

/-- The disks of the sample, with an admin queue. -/
def queueKernel : Kernel (Fin 2) (Fin 3) :=
  let k := sampleKernel (sampleSubsys 0x4000 0) (sampleSubsys 0x5000 1)
  { k with
    getDevAndDisk device := (k.getDevAndDisk device).map fun dev =>
      { dev with
        onlineQueues := .ok 1
        queues _ := .ok ⟨.ok 0, .ok 32, .ok 5, .ok 5, .ok 0x7000,
          .ok 0x8000⟩ } }

/-- Nothing has been unfolded, and the first disk has been selected. -/
def sampleView (root : TopologyNode) : TopologyView :=
  ⟨some "nvme0".toList, some root, none, ∅, ∅, false⟩

/-- **The queue of the sample** is in the tree and is not drawn. -/
theorem TopologyView.first_view_folded : ∃ t w rows,
    buildTopology queueKernel ["nvme0".toList] "drgn".toList = .ok t ∧
    (sampleView t.root).renderTopology = (w, some rows) ∧
    ∃ c ∈ chains t.root, (∃ a ∈ c.getLast?, a.kind = .queue) ∧
      c ∉ (chains rows).map (List.map TopoRow.node) := by
  obtain ⟨t, ht⟩ :
    ∃ t, buildTopology queueKernel ["nvme0".toList] "drgn".toList = .ok t :=
    ⟨_, rfl⟩
  have hnew : (sampleView t.root).autoExpandedFor ≠ some "nvme0".toList :=
    (Option.some_ne_none _).symm
  obtain ⟨w, rows, hrender, hrows⟩ := TopologyView.first_view ht rfl rfl hnew
  refine ⟨t, w, rows, ht, hrender, ?_⟩
  obtain rfl := Except.ok.inj ht
  refine ⟨_, List.mem_of_getLast? rfl, ⟨_, rfl, rfl⟩, ?_⟩
  rw [hrows _ (List.mem_of_getLast? rfl) rfl]
  decide

end Telemetryd
