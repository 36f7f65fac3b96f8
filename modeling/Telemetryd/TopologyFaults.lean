import Telemetryd.TopologyMoves

/-!
# Devices that cannot be read

The module docstring of `topology.py` says that a read that fails does not break
the tree.  Some reads are not inside `_try`, though, and one of them that raises
takes the whole tree with it; and where the domain of a bus cannot be read it
counts as 0, so that a bus of another domain is taken for one that has its
number.  This module says when the devices that can be read are shown as if the
others were not there.
-/

namespace Telemetryd

open PyText RoseTree IndexedTree

/-- The read has not failed. -/
def IsRead {α : Type} (x : Read α) : Prop := ∃ a, x = .ok a

/-! ### Devices that can be read -/

/-- All of a bus can be read, the domain in one of its two places. -/
structure BusSound {P : Type} (bus : PciBus P) : Prop where
  value : IsRead bus.value
  self : ∃ pointer, bus.self = .ok pointer ∧ IsRead pointer
  domain : IsRead bus.domainNr ∨ IsRead bus.sysdataDomain
  number : IsRead bus.number
  name : ∃ text, bus.name = .ok text ∧ IsRead text
  busnStart : IsRead bus.busnStart
  busnEnd : IsRead bus.busnEnd

/-- A PCI device whose attributes can all be read. -/
structure PciSound {B : Type} (pdev : PciDev B) : Prop where
  bus : IsRead pdev.bus
  devfn : IsRead pdev.devfn
  value : IsRead pdev.value
  classCode : IsRead pdev.classCode
  pcieCap : IsRead pdev.pcieCap
  pcieFlagsReg : IsRead pdev.pcieFlagsReg
  vendor : IsRead pdev.vendor
  device : IsRead pdev.device
  revision : IsRead pdev.revision
  subsystemVendor : IsRead pdev.subsystemVendor
  subsystemDevice : IsRead pdev.subsystemDevice
  irq : IsRead pdev.irq
  msiEnabled : IsRead pdev.msiEnabled
  msixEnabled : IsRead pdev.msixEnabled
  currentState : IsRead pdev.currentState

/-- A namespace head that can be read. -/
structure HeadSound (head : NsHead) : Prop where
  nsId : IsRead head.nsId
  shared : IsRead head.shared
  nvmsetId : IsRead head.nvmsetId

/-- A namespace that can be read. -/
structure NsSound (ns : NvmeNs) : Prop where
  value : IsRead ns.value
  head : ∃ pointer head, ns.head = .ok pointer ∧ pointer = .ok head ∧
    ∀ h ∈ head, HeadSound h
  diskName : IsRead ns.diskName
  lbaShift : IsRead ns.lbaShift
  sectors : IsRead ns.sectors

/-- A subsystem that can be read. -/
structure SubsysSound (subsys : NvmeSubsystem) : Prop where
  value : IsRead subsys.value
  instanceNr : IsRead subsys.instanceNr
  ctrls : IsRead subsys.ctrls
  nsheads : IsRead subsys.nsheads
  subnqn : ∃ text, subsys.subnqn = .ok text ∧ IsRead text
  model : ∃ text, subsys.model = .ok text ∧ IsRead text
  serial : ∃ text, subsys.serial = .ok text ∧ IsRead text
  firmwareRev : ∃ text, subsys.firmwareRev = .ok text ∧ IsRead text
  cmic : IsRead subsys.cmic
  subtype : ∃ text, subsys.subtype = .ok text ∧ IsRead text

/-- A queue that can be read. -/
structure QueueSound (q : NvmeQueueObject) : Prop where
  qid : IsRead q.qid
  depth : IsRead q.depth
  sqTail : IsRead q.sqTail
  cqHead : IsRead q.cqHead
  sqDmaAddr : IsRead q.sqDmaAddr
  cqDmaAddr : IsRead q.cqDmaAddr

/-- A controller that can be read. -/
structure CtrlSound (ctrl : NvmeCtrl) : Prop where
  address : IsRead ctrl.address
  subsys : ∃ pointer subsys, ctrl.subsys = .ok pointer ∧ pointer = .ok subsys ∧
    ∀ s ∈ subsys, SubsysSound s
  namespaces : ∃ list, ctrl.namespaces = .ok list ∧ ∀ ns ∈ list, NsSound ns
  state : ∃ text, ctrl.state = .ok text ∧ IsRead text
  cntlid : IsRead ctrl.cntlid
  queueCount : IsRead ctrl.queueCount
  sqsize : IsRead ctrl.sqsize
  maxHwSectors : IsRead ctrl.maxHwSectors
  numaNode : IsRead ctrl.numaNode

/-- A device that can be read. -/
structure DevSound {P : Type} (dev : NvmeDevObject P) : Prop where
  value : IsRead dev.value
  ctrl : ∃ ctrl, dev.ctrl = .ok ctrl ∧ CtrlSound ctrl
  nrAllocatedQueues : IsRead dev.nrAllocatedQueues
  queues : ∃ online, dev.onlineQueues = .ok online ∧
    ∀ i < online, ∃ q, dev.queues i = .ok q ∧ QueueSound q

section

variable {B P : Type} [Fintype B] (k : Kernel B P)

/-- A bus on a chain and the bridge that it is behind can be read. -/
def EntrySound (entry : B × Option P) : Prop :=
  BusSound (k.bus entry.1) ∧ ∀ bridge ∈ entry.2, PciSound (k.pci bridge)

/-- **None of the reads of a device fail**: it is found, its chain leads to a
root bus, and all that is on it and below it can be read. -/
def Healthy (device : PyText) : Prop :=
  ∃ dev pdev root chain, findDevice k device = .ok (dev, pdev) ∧
    busChain k pdev = .ok ((root, none) :: chain) ∧
    (∀ entry ∈ (root, none) :: chain, EntrySound k entry) ∧
    PciSound (k.pci pdev) ∧ DevSound dev

/-! ### What is shown of a device -/

/-- The id of the node of a controller. -/
def ctrlId (device : PyText) : PyText := "ctrl:".toList ++ device

/-- The chains through the node of a controller. -/
def through (device : PyText) (t : TopologyNode) : List (List TopologyInfo) :=
  (chains t).filter fun c => decide (ctrlId device ∈ c.map TopologyInfo.id)

/-- The device is shown with its complete path, and below it the tree of its
controller. -/
def ShowsDevice (t : TopologyNode) (device : PyText) : Prop :=
  ∃ dev pdev steps infos ctrl, findDevice k device = .ok (dev, pdev) ∧
    pathOf k device pdev = .ok steps ∧
      steps.map Prod.snd = infos.map Except.ok ∧
    ctrlNode dev device = .ok ctrl ∧
    ∀ c, c ∈ through device t ↔ ∃ b ∈ chains ctrl, c = systemInfo :: infos ++ b

open Classical in
/-- The devices that can be read. -/
noncomputable def healthyOnes (devices : List PyText) : List PyText :=
  devices.filter fun d => decide (Healthy k d)

variable {k} in
/-- The healthy devices are those that are healthy. -/
theorem mem_healthyOnes {devices : List PyText} {d : PyText} :
    d ∈ healthyOnes k devices ↔ d ∈ devices ∧ Healthy k d := by
  unfold healthyOnes
  simp

variable {k} in
/-- A device that can be read remains as often as it is listed. -/
theorem filter_healthyOnes {d : PyText} (h : Healthy k d)
    (devices : List PyText) :
    (healthyOnes k devices).filter (fun e => decide (e = d))
      = devices.filter fun e => decide (e = d) := by
  rw [healthyOnes, List.filter_filter]
  refine List.filter_congr fun e _ => ?_
  by_cases heq : e = d
  · simp [heq, h]
  · simp [heq]

/-- **Fault isolation.**  There is a tree, and in it each device that can be
read is shown completely, and as it is without the others. -/
def Isolates (devices : List PyText) (backendKind : PyText) : Prop :=
  ∃ t alone, buildTopology k devices backendKind = .ok t ∧
    buildTopology k (healthyOnes k devices) backendKind = .ok alone ∧
    ∀ d ∈ devices, Healthy k d → ShowsDevice k t.root d ∧
      (through d t.root).Perm (through d alone.root)

end

/-! ### Reads that may raise -/

/-- What must be read of a namespace. -/
structure NsReads (ns : NvmeNs) : Prop where
  head : ∀ pointer, ns.head = .ok pointer → IsRead pointer
  lbaShift : 0 ≤ tryRead ns.lbaShift 0
  value : IsRead ns.value

/-- The reads of a subsystem that are not guarded. -/
structure SubsysReads (subsys : NvmeSubsystem) : Prop where
  subnqn : IsRead subsys.subnqn
  model : IsRead subsys.model
  serial : IsRead subsys.serial
  firmwareRev : IsRead subsys.firmwareRev
  value : IsRead subsys.value

/-- The reads of a controller that are not guarded. -/
structure CtrlReads (ctrl : NvmeCtrl) : Prop where
  subsys : ∀ pointer, ctrl.subsys = .ok pointer →
    ∃ subsys, pointer = .ok subsys ∧ ∀ s ∈ subsys, SubsysReads s
  namespaces : ∀ ns ∈ tryRead ctrl.namespaces [], NsReads ns
  state : IsRead ctrl.state

section

variable {B P : Type} (k : Kernel B P)

/-- What must be read of a function for its address. -/
structure AddressReads (p : P) : Prop where
  devfn : IsRead (k.pci p).devfn
  number : ∃ bus, (k.pci p).bus = .ok bus ∧ IsRead (k.bus bus).number

/-- What must be read of a bus and its bridge for the id of their node. -/
def EntryReads : B × Option P → Prop
  | (bus, none) => IsRead (k.bus bus).number
  | (_, some bridge) => AddressReads k bridge

/-- What must be read of a device that is found. -/
structure DeviceReads [Fintype B] (dev : NvmeDevObject P) (pdev : P) :
    Prop where
  chain : ∃ chain, busChain k pdev = .ok chain ∧ ∀ entry ∈ chain,
    EntryReads k entry
  address : AddressReads k pdev
  ctrl : ∃ ctrl, dev.ctrl = .ok ctrl ∧ CtrlReads ctrl
  value : IsRead dev.value

variable {k}

/-- The address of a PCI device can be told exactly if its three parts can be
read. -/
theorem isRead_bdf {p : P} : IsRead (bdf k p) ↔ AddressReads k p := by
  unfold IsRead
  simp only [bdf, Fallible.bind_eq_ok, Fallible.pure_eq_ok]
  constructor
  · rintro ⟨_, bus, hbus, devfn, hdevfn, number, hnumber, -⟩
    exact ⟨⟨devfn, hdevfn⟩, bus, hbus, number, hnumber⟩
  · rintro ⟨⟨devfn, hdevfn⟩, bus, hbus, number, hnumber⟩
    exact ⟨_, bus, hbus, devfn, hdevfn, number, hnumber, rfl⟩

/-- The node of a bus can be built exactly if its entry can be read. -/
theorem isRead_busNode {entry : B × Option P} :
    IsRead (busNode k entry) ↔ EntryReads k entry := by
  obtain ⟨bus, bridge⟩ := entry
  cases bridge with
  | none =>
      unfold IsRead EntryReads
      simp only [busNode, Fallible.bind_eq_ok, Fallible.pure_eq_ok]
      constructor
      · rintro ⟨_, number, hnumber, -⟩
        exact ⟨number, hnumber⟩
      · rintro ⟨number, hnumber⟩
        exact ⟨_, number, hnumber, rfl⟩
  | some bridge =>
      refine Iff.trans ?_ (isRead_bdf (p := bridge))
      unfold IsRead
      simp only [busNode, Fallible.bind_eq_ok, Fallible.pure_eq_ok]
      constructor
      · rintro ⟨_, address, haddress, -⟩
        exact ⟨address, haddress⟩
      · rintro ⟨address, haddress⟩
        exact ⟨_, address, haddress, rfl⟩

/-- A list can be read exactly if each of its entries can. -/
theorem isRead_mapM {α β : Type} {f : α → Read β} {l : List α} :
    IsRead (l.mapM f) ↔ ∀ a ∈ l, IsRead (f a) := by
  induction l with
  | nil => exact iff_of_true ⟨[], rfl⟩ (List.forall_mem_nil _)
  | cons a l ih =>
      rw [List.forall_mem_cons, ← ih]
      unfold IsRead
      simp only [Fallible.mapM_cons_eq_ok]
      exact ⟨fun ⟨_, b, bs, hb, hbs, _⟩ => ⟨⟨b, hb⟩, bs, hbs⟩,
        fun ⟨⟨b, hb⟩, bs, hbs⟩ => ⟨_, b, bs, hb, hbs, rfl⟩⟩

/-- The id of a namespace can be read exactly if its head can, where there is
one. -/
theorem isRead_nsid {ns : NvmeNs} :
    IsRead ns.nsid ↔ ∀ pointer, ns.head = .ok pointer → IsRead pointer := by
  unfold NvmeNs.nsid
  cases ns.head with
  | error e => exact iff_of_true ⟨0, rfl⟩ fun _ h => nomatch h
  | ok pointer =>
      cases pointer with
      | error e =>
          refine iff_of_false (fun ⟨_, h⟩ => nomatch h) fun h => ?_
          obtain ⟨_, h⟩ := h _ rfl
          cases h
      | ok head =>
          have hself :
              ∀ p, Except.ok (ε := PyText) (Except.ok head : Pointer NsHead) =
              .ok p →
              IsRead p := fun p hp => ⟨head, (Except.ok.inj hp).symm⟩
          cases head with
          | none => exact iff_of_true ⟨0, rfl⟩ hself
          | some head => exact iff_of_true ⟨_, rfl⟩ hself

/-- The size of a block is a shift, which must not be negative. -/
theorem isRead_lbaSize {n : Int} : IsRead (lbaSize n) ↔ 0 ≤ n := by
  unfold lbaSize
  split
  · next h => exact iff_of_true ⟨0, rfl⟩ h.ge
  · split
    · next h => exact iff_of_false (fun ⟨_, h⟩ => nomatch h) (not_le.mpr h)
    · next h => exact iff_of_true ⟨_, rfl⟩ (not_lt.mp h)

/-- The node of a namespace can be built exactly if its reads succeed. -/
theorem isRead_namespaceNode {device : PyText} {ns : NvmeNs} :
    IsRead (namespaceNode device ns) ↔ NsReads ns := by
  unfold IsRead
  simp only [namespaceNode, Fallible.bind_eq_ok, Fallible.pure_eq_ok]
  constructor
  · rintro ⟨_, nsid, hnsid, size, hsize, value, hvalue, -⟩
    exact ⟨isRead_nsid.mp ⟨nsid, hnsid⟩, isRead_lbaSize.mp ⟨size, hsize⟩,
      value, hvalue⟩
  · rintro ⟨hhead, hshift, value, hvalue⟩
    obtain ⟨nsid, hnsid⟩ := isRead_nsid.mpr hhead
    obtain ⟨size, hsize⟩ := isRead_lbaSize.mpr hshift
    exact ⟨_, nsid, hnsid, size, hsize, value, hvalue, rfl⟩

/-- What is told of a subsystem can be told exactly if its reads succeed. -/
theorem isRead_subsystemInfo {d : PyText} {subsys : NvmeSubsystem} :
    IsRead (subsystemInfo subsys d) ↔ SubsysReads subsys := by
  unfold IsRead
  simp only [subsystemInfo, Fallible.bind_eq_ok, Fallible.pure_eq_ok]
  constructor
  · rintro ⟨_, a, ha, b, hb, c, hc, d, hd, e, he, -⟩
    exact ⟨⟨a, ha⟩, ⟨b, hb⟩, ⟨c, hc⟩, ⟨d, hd⟩, ⟨e, he⟩⟩
  · rintro ⟨⟨a, ha⟩, ⟨b, hb⟩, ⟨c, hc⟩, ⟨d, hd⟩, ⟨e, he⟩⟩
    exact ⟨_, a, ha, b, hb, c, hc, d, hd, e, he, rfl⟩

/-- The node of a subsystem, where there is one. -/
theorem isRead_subsystemNode {device : PyText} {ctrl : NvmeCtrl} :
    IsRead (subsystemNode ctrl device) ↔ ∀ pointer, ctrl.subsys = .ok pointer →
      ∃ subsys, pointer = .ok subsys ∧ ∀ s ∈ subsys, SubsysReads s := by
  unfold subsystemNode
  cases ctrl.subsys with
  | error e => exact iff_of_true ⟨none, rfl⟩ fun _ h => nomatch h
  | ok pointer =>
      cases pointer with
      | error e =>
          refine iff_of_false (fun ⟨_, h⟩ => nomatch h) fun h => ?_
          obtain ⟨_, h, -⟩ := h _ rfl
          cases h
      | ok subsys =>
          cases subsys with
          | none =>
              refine iff_of_true ⟨none, rfl⟩ fun p hp =>
                ⟨none, (Except.ok.inj hp).symm, ?_⟩
              exact fun s hs => nomatch hs
          | some subsys =>
              have hnode : IsRead (subsystemInfo subsys device >>= fun info =>
                  pure (some (RoseTree.node info []))) ↔
                    SubsysReads subsys := by
                refine Iff.trans ?_ (isRead_subsystemInfo (d := device))
                unfold IsRead
                simp only [Fallible.bind_eq_ok, Fallible.pure_eq_ok]
                exact ⟨fun ⟨_, info, h, _⟩ => ⟨info, h⟩, fun ⟨info, h⟩ =>
                  ⟨_, info, h, rfl⟩⟩
              refine hnode.trans ⟨fun h p hp =>
                ⟨some subsys, (Except.ok.inj hp).symm, ?_⟩, fun h => ?_⟩
              · exact fun s hs => Option.mem_some_iff.mp hs ▸ h
              · obtain ⟨s, hs, hreads⟩ := h _ rfl
                exact hreads subsys (Except.ok.inj hs ▸ rfl)

/-- The node of a controller can be built exactly if its reads succeed. -/
theorem isRead_ctrlNode {device : PyText} {dev : NvmeDevObject P} :
    IsRead (ctrlNode dev device) ↔
      (∃ ctrl, dev.ctrl = .ok ctrl ∧ CtrlReads ctrl) ∧ IsRead dev.value := by
  unfold IsRead
  simp only [ctrlNode, Fallible.bind_eq_ok, Fallible.pure_eq_ok]
  constructor
  · rintro ⟨_, ctrl, hctrl, subsys, hsubsys, nsNodes, hns, state, hstate, value,
      hvalue, -⟩
    refine ⟨⟨ctrl, hctrl, isRead_subsystemNode.mp ⟨subsys, hsubsys⟩,
      fun ns hns' => ?_, state, hstate⟩,
      value, hvalue⟩
    exact isRead_namespaceNode.mp (isRead_mapM.mp ⟨nsNodes, hns⟩ ns hns')
  · rintro ⟨⟨ctrl, hctrl, hsubsys, hns, state, hstate⟩, value, hvalue⟩
    obtain ⟨subsys, hsubsys⟩ : IsRead (subsystemNode ctrl device) :=
      isRead_subsystemNode.mpr hsubsys
    obtain ⟨nsNodes, hns⟩ : IsRead (namespaceNodes ctrl device) :=
      isRead_mapM.mpr fun ns hmem => isRead_namespaceNode.mpr (hns ns hmem)
    exact ⟨_, ctrl, hctrl, subsys, hsubsys, nsNodes, hns, state, hstate, value,
      hvalue, rfl⟩

variable [Fintype B]

/-- The path to a device can be built exactly if every bus on it and its address
can be read. -/
theorem isRead_pathOf {device : PyText} {pdev : P} :
    IsRead (pathOf k device pdev) ↔
    (∃ chain, busChain k pdev = .ok chain ∧
      ∀ entry ∈ chain, EntryReads k entry) ∧
      AddressReads k pdev := by
  have hentries : ∀ chain : List (B × Option P),
      IsRead (chain.mapM (busNode k)) ↔ ∀ entry ∈ chain, EntryReads k entry :=
        fun chain =>
    isRead_mapM.trans (forall₂_congr fun entry _ => isRead_busNode)
  rw [← isRead_bdf]
  simp only [← hentries]
  unfold IsRead
  simp only [pathOf, Fallible.bind_eq_ok, Fallible.pure_eq_ok]
  constructor
  · rintro ⟨_, chain, hchain, buses, hbuses, address, haddress, -⟩
    exact ⟨⟨chain, hchain, buses, hbuses⟩, address, haddress⟩
  · rintro ⟨⟨chain, hchain, buses, hbuses⟩, address, haddress⟩
    exact ⟨_, chain, hchain, buses, hbuses, address, haddress, rfl⟩

/-- **What must be read for the moves of a device.** -/
theorem isRead_deviceMoves {device : PyText} : IsRead (deviceMoves k device) ↔
    ∀ dev pdev, findDevice k device = .ok (dev, pdev) →
      DeviceReads k dev pdev := by
  constructor
  · rintro ⟨ms, hms⟩ dev pdev hfind
    rcases deviceMoves_eq_ok.mp hms with ⟨⟨e, herr⟩, -⟩ | ⟨_, _, steps, ctrl,
      hfind', hsteps, hctrl, -⟩
    · rw [hfind] at herr
      cases herr
    · rw [hfind] at hfind'
      cases hfind'
      obtain ⟨hchain, haddress⟩ := isRead_pathOf.mp ⟨steps, hsteps⟩
      obtain ⟨hreads, hvalue⟩ := isRead_ctrlNode.mp ⟨ctrl, hctrl⟩
      exact ⟨hchain, haddress, hreads, hvalue⟩
  · intro h
    cases hfind : findDevice k device with
    | error e => exact ⟨[], deviceMoves_eq_ok.mpr (Or.inl ⟨⟨e, hfind⟩, rfl⟩)⟩
    | ok found =>
        have hreads := h found.1 found.2 hfind
        obtain ⟨steps, hsteps⟩ : IsRead (pathOf k device found.2) :=
          isRead_pathOf.mpr ⟨hreads.chain, hreads.address⟩
        obtain ⟨ctrl, hctrl⟩ : IsRead (ctrlNode found.1 device) :=
          isRead_ctrlNode.mpr ⟨hreads.ctrl, hreads.value⟩
        exact ⟨_, deviceMoves_eq_ok.mpr (Or.inr ⟨_, _, steps, ctrl, hfind,
          hsteps, hctrl, rfl⟩)⟩

end

/-! ### The first of each id -/

section

variable {B P : Type} [Fintype B] (k : Kernel B P)

/-- The nodes that the paths of the devices ask for, in order. -/
def asks (devices : List PyText) :
    List (NodeRequest TopologyInfo PyText PyText) :=
  requests (devices.flatMap (movesOf k))

/-- The request is the first one for its id. -/
def IsFirst (devices : List PyText)
    (r : NodeRequest TopologyInfo PyText PyText) : Prop :=
  (asks k devices).find? (fun q => decide (q.key = r.key)) = some r

variable {k} {devices : List PyText}
    {r q : NodeRequest TopologyInfo PyText PyText}

/-- What some devices ask for is asked for by one of them. -/
theorem mem_asks : r ∈ asks k devices ↔ ∃ d ∈ devices, r ∈ asks k [d] := by
  unfold asks
  simp only [mem_requests, List.mem_flatMap, List.mem_singleton, exists_eq_left]

/-- There is one first request for a node. -/
theorem IsFirst.eq (h : IsFirst k devices r) (h' : IsFirst k devices q)
    (hkey : r.key = q.key) :
    r = q := by
  unfold IsFirst at h h'
  rw [hkey] at h
  exact Option.some.inj (h.symm.trans h')

/-- Every node that is asked for has a first request. -/
theorem exists_isFirst (h : r ∈ asks k devices) :
    ∃ q ∈ asks k devices, IsFirst k devices q ∧ q.key = r.key := by
  have hsome :
      ((asks k devices).find? fun q => decide (q.key = r.key)).isSome :=
    List.find?_isSome.mpr ⟨r, h, decide_eq_true_iff.mpr rfl⟩
  obtain ⟨q, hq⟩ := Option.isSome_iff_exists.mp hsome
  have hkey : q.key = r.key := of_decide_eq_true (List.find?_some hq :)
  refine ⟨q, List.mem_of_find?_eq_some hq, ?_, hkey⟩
  unfold IsFirst
  rw [hkey]
  exact hq

/-- What comes first among all is first among those that remain. -/
theorem isFirst_of_forall {kept : List PyText}
    (h : ∀ d ∈ kept, ∀ r ∈ asks k [d], IsFirst k devices r) {d : PyText}
    (hd : d ∈ kept)
    (hr : r ∈ asks k [d]) : IsFirst k kept r := by
  obtain ⟨q, hq, hfirst, hkey⟩ := exists_isFirst (mem_asks.mpr ⟨d, hd, hr⟩)
  obtain ⟨e, he, hq⟩ := mem_asks.mp hq
  rwa [← (h e he q hq).eq (h d hd r hr) hkey]

/-- The requests of a path are for its nodes. -/
theorem asks_eq_path {device : PyText}
    {steps : List (PyText × Read TopologyInfo)}
    {ctrl : TopologyNode} (h : movesOf k device = movesOn steps ctrl) :
    asks k [device] = path "system".toList steps := by
  unfold asks
  rw [List.flatMap_singleton, h, movesOn, requests, List.filterMap_append,
    List.filterMap_map]
  exact (List.append_nil _).trans List.filterMap_some

/-- The nodes that are asked for are those of paths, and not the root. -/
theorem key_of_mem_asks (h : r ∈ asks k devices) :
    IsPathId r.key ∧ r.key ≠ "system".toList := by
  obtain ⟨d, -, h⟩ := mem_asks.mp h
  rcases movesOf_eq (k := k) d with hmoves | ⟨dev, pdev, steps, ctrl, -, hsteps,
    -, hmoves⟩
  · rw [asks, List.flatMap_singleton, hmoves] at h
    cases h
  · rw [asks_eq_path hmoves] at h
    obtain ⟨hpath, hne, -⟩ := pathOf_isStep hsteps _ (exists_step_of_mem_path h)
    exact ⟨hpath, hne⟩

/-- A node is new in the move that asks for it first. -/
theorem mem_news_iff_isFirst :
    r ∈ news ["system".toList] (devices.flatMap (movesOf k)) ↔
      IsFirst k devices r := by
  rw [mem_news_iff_find?, List.mem_singleton]
  exact and_iff_right_of_imp fun h =>
    (key_of_mem_asks (List.mem_of_find?_eq_some h)).2

/-- **The tree is built** if the reads for the moves succeed, and those for the
first node under each id. -/
theorem exists_topology_iff {backendKind : PyText} :
    (∃ t, buildTopology k devices backendKind = .ok t) ↔
      (∀ d ∈ devices, ∀ dev pdev, findDevice k d = .ok (dev, pdev) →
        DeviceReads k dev pdev) ∧
      ∀ r, IsFirst k devices r → IsRead r.describe := by
  have hroot : (∃ t, buildTopology k devices backendKind = .ok t) ↔
      ∃ root t, buildTopology k devices backendKind = .ok t ∧ t.root = root :=
    ⟨fun ⟨t, h⟩ => ⟨_, t, h, rfl⟩, fun ⟨_, t, h, _⟩ => ⟨t, h⟩⟩
  simp only [hroot, buildTopology_root, exists_and_left, ← isRead_deviceMoves,
    ← mem_news_iff_isFirst]
  have hgrow :
      (∃ nodes, rootOnly.grow TopologyInfo.id (devices.flatMap (movesOf k)) =
      .ok nodes) ↔
      ∀ r ∈ news ["system".toList] (devices.flatMap (movesOf k)),
        IsRead r.describe :=
    succeeds_grow_iff
  rw [← hgrow]
  refine and_congr Iff.rfl ?_
  exact ⟨fun ⟨_, nodes, h, _⟩ => ⟨nodes, h⟩, fun ⟨nodes, h⟩ =>
    ⟨_, nodes, h, rfl⟩⟩

/-! ### What is shown -/

/-- The chains to the nodes above the controllers: one for each first
request. -/
structure Lineage (k : Kernel B P) (devices : List PyText)
    (real : PyText → List TopologyInfo) :
    Prop where
  root : real "system".toList = [systemInfo]
  step : ∀ r, IsFirst k devices r → ∀ a, r.describe = .ok a →
    real r.key = real r.parent ++ [a]
  ends : ∀ r, IsFirst k devices r →
    endsAt TopologyInfo.id r.parent (real r.parent) = true

/-- The node of a controller is on no path. -/
theorem ctrlId_not_path (device : PyText) : ¬ IsPathId (ctrlId device) := by
  show "ctrl".toList ∉ _
  decide

/-- The chains of a controller's node go through it and through no other
controller. -/
theorem mem_chain_ctrlNode {dev : NvmeDevObject P} {device other : PyText}
    {t : TopologyNode}
    (h : ctrlNode dev other = .ok t) {c : List TopologyInfo}
    (hc : c ∈ chains t) :
    ctrlId device ∈ c.map TopologyInfo.id ↔ other = device := by
  obtain ⟨ids, hids, htags⟩ := ctrlNode_tags h
  obtain ⟨a, cs⟩ := t
  rw [idsOf_node] at hids
  obtain ⟨ha, hbelow⟩ := List.cons.inj hids
  obtain ⟨d, rfl⟩ := exists_cons_of_mem_chains hc
  rw [List.map_cons, List.mem_cons, ha]
  have hne : ctrlId device ∈ d.map TopologyInfo.id → other = device := by
    intro hmem
    obtain ⟨b, hb, hid⟩ := List.mem_map.mp hmem
    have hb := mem_labels_of_mem_chains hc (List.mem_cons_of_mem a hb)
    have hmem : ctrlId device ∈ idsOf (.node a cs) :=
      List.mem_map.mpr ⟨b, hb, hid⟩
    rw [idsOf_node, ha, hbelow] at hmem
    rcases List.mem_cons.mp hmem with heq | hmem
    · exact (List.append_cancel_left heq).symm
    · have hnot : idTag (ctrlId device) ∉ belowTags := by
        show "ctrl".toList ∉ belowTags
        decide
      exact absurd (htags _ hmem) hnot
  constructor
  · rintro (heq | hmem)
    · exact (List.append_cancel_left heq).symm
    · exact hne hmem
  · rintro rfl
    exact Or.inl rfl

/-- Of the chains that the moves of a device add, all or none go through a
controller. -/
theorem filter_hung {real : PyText → List TopologyInfo} {device other : PyText}
    (hpath : ∀ m ∈ movesOf k other, ∀ a ∈ real m.parent, IsPathId a.id) :
    ((movesOf k other).flatMap (hung real)).filter
        (fun c => decide (ctrlId device ∈ c.map TopologyInfo.id)) =
      if other = device then (movesOf k other).flatMap (hung real) else [] := by
  have hgoes : ∀ c ∈ (movesOf k other).flatMap (hung real),
      (ctrlId device ∈ c.map TopologyInfo.id ↔ other = device) := by
    intro c hc
    obtain ⟨m, hm, hc⟩ := List.mem_flatMap.mp hc
    cases m with
    | place r => cases hc
    | hang parent t =>
        obtain ⟨b, hb, rfl⟩ := List.mem_map.mp hc
        have hctrl : ∃ dev : NvmeDevObject P, ctrlNode dev other = .ok t := by
          rcases movesOf_eq (k := k) other with hmoves | ⟨dev, pdev, steps,
            ctrl, -, -, hctrl, hmoves⟩
          · rw [hmoves] at hm
            cases hm
          · rw [hmoves] at hm
            rcases mem_movesOn.mp hm with ⟨r, -, heq⟩ | heq
            · cases heq
            · cases heq
              exact ⟨dev, hctrl⟩
        obtain ⟨dev, hctrl⟩ := hctrl
        have habove : ctrlId device ∉ (real parent).map TopologyInfo.id := by
          intro hmem
          obtain ⟨a, ha, hid⟩ := List.mem_map.mp hmem
          exact ctrlId_not_path device (hid ▸ hpath _ hm a ha)
        rw [List.map_append, List.mem_append, or_iff_right habove]
        exact mem_chain_ctrlNode hctrl hb
  by_cases heq : other = device
  · rw [if_pos heq]
    exact List.filter_eq_self.mpr fun c hc =>
      decide_eq_true ((hgoes c hc).mpr heq)
  · rw [if_neg heq]
    exact List.filter_eq_nil_iff.mpr fun c hc h =>
      heq ((hgoes c hc).mp (of_decide_eq_true h))

/-- The chains through a controller are those of its own moves. -/
theorem filter_hung_moves {real : PyText → List TopologyInfo} {device : PyText}
    (hpath : ∀ m ∈ devices.flatMap (movesOf k), ∀ a ∈ real m.parent,
      IsPathId a.id) :
    ((devices.flatMap (movesOf k)).flatMap (hung real)).filter
        (fun c => decide (ctrlId device ∈ c.map TopologyInfo.id)) =
      (devices.filter fun d => decide (d = device)).flatMap
        fun d => (movesOf k d).flatMap (hung real) := by
  induction devices with
  | nil => rfl
  | cons d devices ih =>
      have hd : ∀ m ∈ movesOf k d, ∀ a ∈ real m.parent, IsPathId a.id :=
        fun m hm => hpath m (List.mem_append_left _ hm)
      rw [List.flatMap_cons, List.flatMap_append, List.filter_append,
        ih fun m hm => hpath m (List.mem_append_right _ hm), filter_hung hd,
        List.filter_cons]
      by_cases heq : d = device
      · rw [if_pos heq, if_pos (decide_eq_true heq), List.flatMap_cons]
      · rw [if_neg heq, if_neg (by simpa using heq), List.nil_append]

/-- **A tree that is built** shows below each first request what the moves of
the devices hang there. -/
theorem exists_lineage {t : Topology} {backendKind : PyText}
    (h : buildTopology k devices backendKind = .ok t) :
    ∃ real, Lineage k devices real ∧ ∀ device, (through device t.root).Perm
      ((devices.filter fun d => decide (d = device)).flatMap
        fun d => (movesOf k d).flatMap (hung real)) := by
  obtain ⟨-, nodes, hgrow, hroot⟩ := buildTopology_root.mp ⟨t, h, rfl⟩
  obtain ⟨real, hsystem, hreal⟩ := exists_realOf (k := k) devices
  obtain ⟨hknown, hperm⟩ := chains_topology hgrow hsystem hreal
  have hpath := inner_of_mem_real (placed_moves devices) (proper_moves devices)
    (succeeds_grow_iff.mp ⟨nodes, hgrow⟩) hreal
    (by
      intro id hid a ha
      rw [List.mem_singleton.mp hid, hsystem, List.mem_singleton] at ha
      rw [ha]
      decide)
  have hparent : ∀ m ∈ devices.flatMap (movesOf k), m.parent ∈ nodes.index ∧
      IsPathId m.parent ∧ ∀ a ∈ real m.parent, IsPathId a.id := by
    intro m hm
    rw [index_grow hgrow]
    rcases exists_parent (placed_moves devices) hm with hin | ⟨q, hq, hkey⟩
    · refine ⟨List.mem_append_left _ hin, isPathId_index _ hin, ?_⟩
      rw [List.mem_singleton.mp hin, hsystem]
      decide
    · rw [← hkey]
      have hmem := mem_requests.mpr (place_mem_of_mem_news hq)
      exact ⟨List.mem_append_right _ (List.mem_map_of_mem hq),
        (key_of_mem_asks hmem).1, hpath q hq⟩
  refine ⟨real, ⟨hsystem, fun r hr => hreal r (mem_news_iff_isFirst.mpr hr),
    fun r hr => ?_⟩,
    fun device => ?_⟩
  · have hmove := place_mem_of_mem_news (mem_news_iff_isFirst.mpr hr)
    obtain ⟨hin, hid, -⟩ := hparent _ hmove
    have hfilter := hknown _ hid
    rw [if_pos hin] at hfilter
    have hmem := hfilter ▸ List.mem_singleton_self (real (Move.place r).parent)
    exact (List.mem_filter.mp hmem).2
  · rw [through, ← hroot]
    refine (hperm.filter _).trans (List.Perm.of_eq ?_)
    have hsystem : ctrlId device ∉ [systemInfo].map TopologyInfo.id := by
      intro hmem
      exact ctrlId_not_path device (List.mem_singleton.mp hmem ▸
        isPathId_index _ List.mem_cons_self)
    have hnews : ((news ["system".toList] (devices.flatMap (movesOf k))).map
        fun r => real r.key).filter (fun c =>
          decide (ctrlId device ∈ c.map TopologyInfo.id)) = [] := by
      refine List.filter_eq_nil_iff.mpr fun c hc hmem => ?_
      obtain ⟨r, hr, rfl⟩ := List.mem_map.mp hc
      obtain ⟨a, ha, hid⟩ := List.mem_map.mp (of_decide_eq_true hmem)
      exact ctrlId_not_path device (hid ▸ hpath r hr a ha)
    rw [List.filter_cons_of_neg (by simpa using hsystem), List.filter_append,
      hnews, List.nil_append]
    exact filter_hung_moves fun m hm => (hparent m hm).2.2

/-! ### Fault isolation -/

section

variable {real : PyText → List TopologyInfo} {device : PyText}
  {steps : List (PyText × Read TopologyInfo)} {ctrl : TopologyNode}

/-- The chains that the moves of a device hang: those of its controller, under
its last bus. -/
theorem flatMap_hung_movesOn : (movesOn steps ctrl).flatMap (hung real)
    = (chains ctrl).map (real (lastKey "system".toList steps) ++ ·) :=
  flatMap_movesOn (fun _ => rfl) steps ctrl

/-- The chains through the controller of a device of the list. -/
theorem mem_through_iff {t : TopologyNode} (hthrough : (through device t).Perm
      ((devices.filter fun d => decide (d = device)).flatMap
        fun d => (movesOf k d).flatMap (hung real)))
    (hd : device ∈ devices) (hmoves : movesOf k device = movesOn steps ctrl)
    (c : List TopologyInfo) :
    c ∈ through device t ↔
      ∃ b ∈ chains ctrl, c = real (lastKey "system".toList steps) ++ b := by
  rw [hthrough.mem_iff, List.mem_flatMap]
  constructor
  · rintro ⟨d, hmem, hc⟩
    rw [of_decide_eq_true (List.mem_filter.mp hmem).2, hmoves,
      flatMap_hung_movesOn] at hc
    obtain ⟨b, hb, rfl⟩ := List.mem_map.mp hc
    exact ⟨b, hb, rfl⟩
  · rintro ⟨b, hb, rfl⟩
    refine ⟨device, List.mem_filter.mpr ⟨hd, decide_eq_true rfl⟩, ?_⟩
    rw [hmoves, flatMap_hung_movesOn]
    exact List.mem_map_of_mem hb

/-- Two chains below which the same tree is shown are one. -/
theorem eq_of_continued {t : TopologyNode} {above above' : List TopologyInfo}
    (h : ∀ c : List TopologyInfo, (∃ b ∈ chains t, c = above ++ b) ↔
      ∃ b ∈ chains t, c = above' ++ b) :
    above = above' := by
  obtain ⟨a, cs⟩ := t
  have hroot : [a] ∈ chains (.node a cs) := by
    rw [chains_node]
    exact List.mem_cons_self
  have hle : ∀ l l' : List TopologyInfo,
      (∃ b ∈ chains (.node a cs), l ++ [a] = l' ++ b) →
      l'.length ≤ l.length ∧ (l.length = l'.length → l = l') := by
    rintro l l' ⟨b, hb, heq⟩
    have hpos := List.length_pos_of_ne_nil (ne_nil_of_mem_chains hb)
    have hlen := congrArg List.length heq
    rw [List.length_append, List.length_append, List.length_singleton] at hlen
    exact ⟨by omega, fun hsame => List.append_inj_left heq hsame⟩
  have hfirst := hle above above' ((h _).mp ⟨_, hroot, rfl⟩)
  have hsecond := hle above' above ((h _).mpr ⟨_, hroot, rfl⟩)
  exact hfirst.2 (hsecond.1.antisymm hfirst.1)

/-- The moves of a device that can be built. -/
theorem moves_of_found {dev : NvmeDevObject P} {pdev : P}
    (hfind : findDevice k device = .ok (dev, pdev))
    (hsteps : pathOf k device pdev = .ok steps)
    (hctrl : ctrlNode dev device = .ok ctrl) :
    movesOf k device = movesOn steps ctrl := by
  have hmoves :=
    deviceMoves_eq_ok.mpr (Or.inr ⟨dev, pdev, steps, ctrl, hfind, hsteps,
    hctrl, rfl⟩)
  rw [movesOf, hmoves]
  rfl

/-- **A device that is shown completely** asked for each node of its path
first. -/
theorem isFirst_of_shows {t : TopologyNode} (hreal : Lineage k devices real)
    (hok : ∀ r, IsFirst k devices r → IsRead r.describe)
    (hthrough : (through device t).Perm ((devices.filter fun d =>
      decide (d = device)).flatMap
      fun d => (movesOf k d).flatMap (hung real)))
    (hd : device ∈ devices) (h : ShowsDevice k t device) :
    ∀ r ∈ asks k [device], IsFirst k devices r := by
  obtain ⟨dev, pdev, steps, infos, ctrl, hfind, hsteps, hinfos, hctrl,
    hshown⟩ := h
  have hmoves := moves_of_found hfind hsteps hctrl
  have hlast : real (lastKey "system".toList steps) = systemInfo :: infos :=
    eq_of_continued fun c =>
      (mem_through_iff hthrough hd hmoves c).symm.trans (hshown c)
  have hroot : endsAt TopologyInfo.id "system".toList (real "system".toList) =
      true := by
    rw [hreal.root]
    decide
  have hnews : ∀ r ∈ path "system".toList steps,
      r ∈ news ["system".toList] (devices.flatMap (movesOf k)) :=
        mem_news_of_real
    (fun r hr => hreal.step r (mem_news_iff_isFirst.mp hr)) hinfos
    (fun r hr => hok r (mem_news_iff_isFirst.mp hr))
    (fun r hr => hreal.ends r (mem_news_iff_isFirst.mp hr)) hroot
    (by
      intro r hr
      have hask : r ∈ asks k [device] := by rwa [asks_eq_path hmoves]
      exact ⟨mem_requests.mp (mem_asks.mpr ⟨device, hd, hask⟩),
        fun hmem => (key_of_mem_asks hask).2 (List.mem_singleton.mp hmem)⟩)
    (fun e he => (pathOf_isStep hsteps e he).2.2)
    (by rw [hlast, hreal.root]; rfl)
  intro r hr
  rw [asks_eq_path hmoves] at hr
  exact mem_news_iff_isFirst.mp (hnews r hr)

/-- Every step of a path is asked for. -/
theorem exists_request_of_mem {parent : PyText} {e : PyText × Read TopologyInfo}
    (h : e ∈ steps) :
    ∃ r ∈ path parent steps, r.describe = e.2 := by
  induction steps generalizing parent with
  | nil => cases h
  | cons d steps ih =>
      rcases List.mem_cons.mp h with rfl | h
      · exact ⟨_, List.mem_cons_self, rfl⟩
      · obtain ⟨r, hr, hdescribe⟩ : ∃ r ∈ path d.1 steps, r.describe = e.2 :=
          ih h
        exact ⟨r, List.mem_cons_of_mem _ hr, hdescribe⟩

/-- A path whose nodes can all be read. -/
theorem exists_infos {parent : PyText}
    (h : ∀ r ∈ path parent steps, IsRead r.describe) :
    ∃ infos : List TopologyInfo, steps.map Prod.snd = infos.map Except.ok := by
  obtain ⟨infos, hinfos⟩ : IsRead (steps.mapM Prod.snd) := by
    refine isRead_mapM.mpr fun e he => ?_
    obtain ⟨r, hr, hdescribe⟩ : ∃ r ∈ path parent steps, r.describe = e.2 :=
      exists_request_of_mem he
    exact hdescribe ▸ h r hr
  exact ⟨infos, Fallible.mapM_eq_ok_iff_map.mp hinfos⟩

/-- **A device that asked for each node of its path first** is shown
completely. -/
theorem lastKey_of_isFirst (hreal : Lineage k devices real)
    {infos : List TopologyInfo}
    (hmoves : movesOf k device = movesOn steps ctrl)
    (hinfos : steps.map Prod.snd = infos.map Except.ok)
    (h : ∀ r ∈ asks k [device], IsFirst k devices r) :
    real (lastKey "system".toList steps) = systemInfo :: infos := by
  have hlast : real (lastKey "system".toList steps) = real "system".toList ++
    infos := real_lastKey
    (fun r hr => hreal.step r (mem_news_iff_isFirst.mp hr)) hinfos
    (fun r hr => mem_news_iff_isFirst.mpr (h r (asks_eq_path hmoves ▸ hr)))
  rw [hlast, hreal.root]
  rfl

end

/-- **Fault isolation** holds exactly if every read that is not guarded
succeeds, and each device that can be read is the first to ask for the ids on
its path, or asks for what the first one asked for. -/
theorem isolates_iff {backendKind : PyText} : Isolates k devices backendKind ↔
    (∀ d ∈ devices, ∀ dev pdev, findDevice k d = .ok (dev, pdev) →
      DeviceReads k dev pdev) ∧
    (∀ r, IsFirst k devices r → IsRead r.describe) ∧
    ∀ d ∈ devices, Healthy k d → ∀ r ∈ asks k [d], IsFirst k devices r := by
  constructor
  · rintro ⟨t, _, ht, -, hall⟩
    obtain ⟨hreads, hok⟩ := exists_topology_iff.mp ⟨t, ht⟩
    obtain ⟨real, hreal, hthrough⟩ := exists_lineage ht
    exact ⟨hreads, hok, fun d hd hhealthy =>
      isFirst_of_shows hreal hok (hthrough d) hd (hall d hd hhealthy).1⟩
  · rintro ⟨hreads, hok, hown⟩
    have hmem : ∀ d ∈ healthyOnes k devices, d ∈ devices ∧ Healthy k d :=
      fun d =>
      mem_healthyOnes.mp
    have hown' : ∀ d ∈ healthyOnes k devices, ∀ r ∈ asks k [d],
        IsFirst k devices r := fun d hd =>
      hown d (hmem d hd).1 (hmem d hd).2
    have hfirst : ∀ d ∈ healthyOnes k devices, ∀ r ∈ asks k [d],
        IsFirst k (healthyOnes k devices) r :=
      fun d hd r hr => isFirst_of_forall hown' hd hr
    have hok' : ∀ r, IsFirst k (healthyOnes k devices) r →
        IsRead r.describe := by
      intro r hr
      obtain ⟨d, hd, hask⟩ := mem_asks.mp (List.mem_of_find?_eq_some hr)
      exact hok r (hown' d hd r hask)
    obtain ⟨t, ht⟩ := exists_topology_iff.mpr ⟨hreads, hok⟩
    obtain ⟨alone, halone⟩ := exists_topology_iff.mpr
      ⟨fun d hd => hreads d (hmem d hd).1, hok'⟩
    refine ⟨t, alone, ht, halone, fun d hd hhealthy => ?_⟩
    obtain ⟨real, hreal, hthrough⟩ := exists_lineage ht
    obtain ⟨real', hreal', hthrough'⟩ := exists_lineage halone
    have hd' := mem_healthyOnes.mpr ⟨hd, hhealthy⟩
    have hsame := filter_healthyOnes hhealthy devices
    obtain ⟨dev, pdev, -, -, hfind, -⟩ := hhealthy
    have hdevice := hreads d hd dev pdev hfind
    obtain ⟨steps, hsteps⟩ : IsRead (pathOf k d pdev) :=
      isRead_pathOf.mpr ⟨hdevice.chain, hdevice.address⟩
    obtain ⟨ctrl, hctrl⟩ : IsRead (ctrlNode dev d) :=
      isRead_ctrlNode.mpr ⟨hdevice.ctrl, hdevice.value⟩
    have hmoves := moves_of_found hfind hsteps hctrl
    obtain ⟨infos, hinfos⟩ := exists_infos fun r hr =>
      hok r (hown' d hd' r (asks_eq_path hmoves ▸ hr))
    have hlast := lastKey_of_isFirst hreal hmoves hinfos (hown' d hd')
    have hlast' := lastKey_of_isFirst hreal' hmoves hinfos (hfirst d hd')
    refine ⟨⟨dev, pdev, steps, infos, ctrl, hfind, hsteps, hinfos, hctrl,
      fun c => ?_⟩, ?_⟩
    · rw [← hlast]
      exact mem_through_iff (hthrough d) hd hmoves c
    · refine (hthrough d).trans
        (List.Perm.trans (List.Perm.of_eq ?_) (hthrough' d).symm)
      rw [hsame]
      refine List.flatMap_congr fun e he => ?_
      rw [of_decide_eq_true (List.mem_filter.mp he).2, hmoves,
        flatMap_hung_movesOn,
        flatMap_hung_movesOn, hlast, hlast']

end

/-! ### Two disks behind one bridge -/

/-- A bus that can be read. -/
def sampleBus (number : Nat) (bridge : Option (Fin 3)) : PciBus (Fin 3) where
  value := .ok (0x1000 + number)
  self := .ok (.ok bridge)
  domainNr := .ok 0
  sysdataDomain := .ok 0
  number := .ok number
  name := .ok (.ok [])
  busnStart := .ok number
  busnEnd := .ok 1

/-- A PCI device that can be read. -/
def samplePci (bus : Fin 2) (devfn classCode : Nat) : PciDev (Fin 2) where
  bus := .ok bus
  devfn := .ok devfn
  value := .ok 0x2000
  classCode := .ok classCode
  pcieCap := .ok 0
  pcieFlagsReg := .ok 0
  vendor := .ok 0
  device := .ok 0
  revision := .ok 0
  subsystemVendor := .ok 0
  subsystemDevice := .ok 0
  irq := .ok 0
  msiEnabled := .ok false
  msixEnabled := .ok false
  currentState := .ok 0

/-- A subsystem that can be read. -/
def sampleSubsys (value : Nat) (instanceNr : Int) : NvmeSubsystem where
  value := .ok value
  instanceNr := .ok instanceNr
  ctrls := .ok 1
  nsheads := .ok 0
  subnqn := .ok (.ok [])
  model := .ok (.ok [])
  serial := .ok (.ok [])
  firmwareRev := .ok (.ok [])
  cmic := .ok 0
  subtype := .ok (.ok [])

/-- A device that can be read. -/
def sampleDev (pdev : Fin 3) (subsys : NvmeSubsystem) :
    NvmeDevObject (Fin 3) where
  value := .ok 0x3000
  pdev := .ok pdev
  ctrl := .ok {
    address := .ok 0x3100
    subsys := .ok (.ok (some subsys))
    namespaces := .ok []
    state := .ok (.ok [])
    cntlid := .ok 0
    queueCount := .ok 0
    sqsize := .ok 0
    maxHwSectors := .ok 0
    numaNode := .ok 0 }
  onlineQueues := .ok 0
  nrAllocatedQueues := .ok 0
  queues _ := .error "IndexError".toList

/-- The bridge is function 0 on the root bus, and the disks are functions 1 and
2 on the bus behind it. -/
def sampleKernel (subsys₀ subsys₁ : NvmeSubsystem) :
    Kernel (Fin 2) (Fin 3) where
  bus
    | 0 => sampleBus 0 none
    | 1 => sampleBus 1 (some 0)
  pci
    | 0 => samplePci 0 8 0x060400
    | 1 => samplePci 1 0 0x010802
    | 2 => samplePci 1 8 0x010802
  getDevAndDisk device :=
    if device = "nvme0".toList then .ok (sampleDev 1 subsys₀)
    else if device = "nvme1".toList then .ok (sampleDev 2 subsys₁)
    else .error "KeyError".toList

/-- The same, but `devfn` of the first disk is in memory that cannot be read. -/
def faultyKernel : Kernel (Fin 2) (Fin 3) :=
  let k := sampleKernel (sampleSubsys 0x4000 0) (sampleSubsys 0x5000 1)
  { k with pci :=
    Function.update k.pci 1 { k.pci 1 with devfn := .error "FaultError".toList }
    }

/-- The sample bus can be read. -/
theorem sampleBus_sound (number : Nat) (bridge : Option (Fin 3)) :
    BusSound (sampleBus number bridge) where
  value := ⟨_, rfl⟩
  self := ⟨_, rfl, _, rfl⟩
  domain := Or.inl ⟨_, rfl⟩
  number := ⟨_, rfl⟩
  name := ⟨_, rfl, _, rfl⟩
  busnStart := ⟨_, rfl⟩
  busnEnd := ⟨_, rfl⟩

/-- So can the sample PCI device. -/
theorem samplePci_sound (bus : Fin 2) (devfn classCode : Nat) :
    PciSound (samplePci bus devfn classCode) := by
  constructor
  all_goals exact ⟨_, rfl⟩

/-- So can the sample subsystem. -/
theorem sampleSubsys_sound (value : Nat) (instanceNr : Int) :
    SubsysSound (sampleSubsys value instanceNr) := by
  constructor
  all_goals first | exact ⟨_, rfl⟩ | exact ⟨_, rfl, _, rfl⟩

/-- So can the sample device. -/
theorem sampleDev_sound (pdev : Fin 3) {subsys : NvmeSubsystem}
    (h : SubsysSound subsys) :
    DevSound (sampleDev pdev subsys) where
  value := ⟨_, rfl⟩
  ctrl := ⟨_, rfl, {
    address := ⟨_, rfl⟩
    subsys := ⟨_, _, rfl, rfl, fun _ hs => Option.mem_some_iff.mp hs ▸ h⟩
    namespaces := ⟨_, rfl, List.forall_mem_nil _⟩
    state := ⟨_, rfl, _, rfl⟩
    cntlid := ⟨_, rfl⟩
    queueCount := ⟨_, rfl⟩
    sqsize := ⟨_, rfl⟩
    maxHwSectors := ⟨_, rfl⟩
    numaNode := ⟨_, rfl⟩ }⟩
  nrAllocatedQueues := ⟨_, rfl⟩
  queues := ⟨_, rfl, fun _ hi => absurd hi (Nat.not_lt_zero _)⟩

/-- So can the path of the samples. -/
theorem sampleEntries_sound (k : Kernel (Fin 2) (Fin 3))
    (h0 : k.bus 0 = sampleBus 0 none)
    (h1 : k.bus 1 = sampleBus 1 (some 0))
    (hbridge : k.pci 0 = samplePci 0 8 0x060400) :
    ∀ entry ∈ [(0, none), (1, some 0)], EntrySound k entry := by
  intro entry hentry
  rcases List.mem_pair.mp hentry with rfl | rfl
  · exact ⟨h0 ▸ sampleBus_sound _ _, fun _ h => nomatch h⟩
  · refine ⟨h1 ▸ sampleBus_sound _ _, fun p hp => ?_⟩
    rw [← Option.mem_some_iff.mp hp, hbridge]
    exact samplePci_sound _ _ _

/-- The disks can be read. -/
theorem sampleKernel_healthy {subsys₀ subsys₁ : NvmeSubsystem}
    (h₀ : SubsysSound subsys₀)
    (h₁ : SubsysSound subsys₁) :
    ∀ d ∈ ["nvme0".toList, "nvme1".toList],
      Healthy (sampleKernel subsys₀ subsys₁) d := by
  have hentries :=
    sampleEntries_sound (sampleKernel subsys₀ subsys₁) rfl rfl rfl
  intro d hd
  rcases List.mem_pair.mp hd with rfl | rfl
  · exact ⟨_, 1, 0, [(1, some 0)], rfl, rfl, hentries,
      samplePci_sound 1 0 0x010802, sampleDev_sound 1 h₀⟩
  · exact ⟨_, 2, 0, [(1, some 0)], rfl, rfl, hentries,
      samplePci_sound 1 8 0x010802, sampleDev_sound 2 h₁⟩

/-- No tree is built, though the second disk can be read. -/
theorem faultyKernel_not_isolates : Healthy faultyKernel "nvme1".toList ∧
    ¬ Isolates faultyKernel ["nvme0".toList, "nvme1".toList] "drgn".toList := by
  constructor
  · exact ⟨_, 2, 0, [(1, some 0)], rfl, rfl, sampleEntries_sound _ rfl rfl rfl,
      samplePci_sound 1 8 0x010802, sampleDev_sound 2 (sampleSubsys_sound _ _)⟩
  · rintro ⟨t, -, h, -⟩
    have herror :
        buildTopology faultyKernel ["nvme0".toList,
        "nvme1".toList] "drgn".toList
        = .error "FaultError".toList := rfl
    rw [herror] at h
    cases h

end Telemetryd
