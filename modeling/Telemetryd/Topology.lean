import Mathlib.Data.Fintype.Card
import Telemetryd.Lib.IndexedTree
import Telemetryd.Lib.PyNumber
import Telemetryd.Lib.Utf8
import Telemetryd.NvmeConst

/-!
# The topology of the devices

`topology.py` shows in one tree how the devices are attached: from the host
bridge down the PCI bridges to the endpoint of a device, and below it the NVMe
controller with its subsystem, namespaces and queues.  A bridge that several
devices share is one node, since the nodes of the PCI part are looked up by
their ids.

The objects of the kernel are read through drgn, which is not part of the
repository.  A `Kernel` is what the module reads of them.  Any read may raise,
and reading the same twice gives the same.
-/

namespace Telemetryd

open PyText Utf8

/-! ### The kernel -/

/-- What a read gives, or the text of the exception that it raises. -/
abbrev Read (α : Type) := Except PyText α

/-- A pointer that is tested before it is followed.  The test reads it. -/
abbrev Pointer (α : Type) := Read (Option α)

/-- `struct pci_bus`.  The domain is in one of two places. -/
structure PciBus (P : Type) where
  value : Read Nat
  self : Read (Pointer P)
  domainNr : Read Int
  sysdataDomain : Read Int
  number : Read Nat
  name : Read (Read Bytes)
  busnStart : Read Nat
  busnEnd : Read Nat

/-- `struct pci_dev` -/
structure PciDev (B : Type) where
  bus : Read B
  devfn : Read Nat
  value : Read Nat
  classCode : Read Nat
  pcieCap : Read Nat
  pcieFlagsReg : Read Nat
  vendor : Read Nat
  device : Read Nat
  revision : Read Nat
  subsystemVendor : Read Nat
  subsystemDevice : Read Nat
  irq : Read Nat
  msiEnabled : Read Bool
  msixEnabled : Read Bool
  currentState : Read Int

/-- `struct nvme_ns_head` -/
structure NsHead where
  nsId : Read Nat
  shared : Read Bool
  nvmsetId : Read Nat

/-- `struct nvme_ns`, with the name and the sectors of its disk. -/
structure NvmeNs where
  value : Read Nat
  head : Read (Pointer NsHead)
  diskName : Read Bytes
  lbaShift : Read Int
  sectors : Read Nat

/-- `struct nvme_subsystem`, with the lengths of its two lists. -/
structure NvmeSubsystem where
  value : Read Nat
  instanceNr : Read Int
  ctrls : Read Nat
  nsheads : Read Nat
  subnqn : Read (Read Bytes)
  model : Read (Read Bytes)
  serial : Read (Read Bytes)
  firmwareRev : Read (Read Bytes)
  cmic : Read Nat
  subtype : Read (Read PyText)

/-- `struct nvme_queue` -/
structure NvmeQueueObject where
  qid : Read Nat
  depth : Read Nat
  sqTail : Read Nat
  cqHead : Read Nat
  sqDmaAddr : Read Nat
  cqDmaAddr : Read Nat

/-- `struct nvme_ctrl`, with the list of its namespaces. -/
structure NvmeCtrl where
  address : Read Nat
  subsys : Read (Pointer NvmeSubsystem)
  namespaces : Read (List NvmeNs)
  state : Read (Read PyText)
  cntlid : Read Nat
  queueCount : Read Nat
  sqsize : Read Nat
  maxHwSectors : Read Nat
  numaNode : Read Int

/-- `struct nvme_dev`, with the `struct pci_dev` that contains its `dev`. -/
structure NvmeDevObject (P : Type) where
  value : Read Nat
  pdev : Read P
  ctrl : Read NvmeCtrl
  onlineQueues : Read Nat
  nrAllocatedQueues : Read Nat
  queues : Nat → Read NvmeQueueObject

/-- The buses, the PCI functions and what `get_dev_and_disk` finds for a
name. -/
structure Kernel (B P : Type) where
  bus : B → PciBus P
  pci : P → PciDev B
  getDevAndDisk : PyText → Read (NvmeDevObject P)

/-! ### The tree -/

/-- The kinds of node. -/
inductive TopoKind where
  | system
  | hostBridge
  | pciBridge
  | pciEndpoint
  | nvmeCtrl
  | nvmeSubsys
  | nvmeNamespace
  | queueGroup
  | queue
  deriving DecidableEq

/-- `TopologyDetail`. -/
structure TopologyDetail where
  key : PyText
  value : PyText
  deriving DecidableEq

/-- A `TopologyNode` without its children. -/
structure TopologyInfo where
  id : PyText
  kind : TopoKind
  label : PyText
  sublabel : PyText := []
  device : PyText := []
  details : List TopologyDetail := []
  deriving DecidableEq

/-- `TopologyNode`, with what it shows as its label. -/
abbrev TopologyNode := RoseTree TopologyInfo

/-- `Topology`. -/
structure Topology where
  root : TopologyNode
  backendKind : PyText
  error : Option PyText

/-! ### Texts -/

/-- `_PCIE_TYPES` -/
def pcieTypes : List (Nat × String) :=
  [(0x0, "PCIe 엔드포인트"), (0x1, "레거시 PCIe 엔드포인트"), (0x4, "루트 포트"),
    (0x5, "업스트림 스위치 포트"), (0x6, "다운스트림 스위치 포트"), (0x7, "PCIe→PCI 브리지"),
    (0x8, "PCI→PCIe 브리지"), (0x9, "루트 컴플렉스 통합 엔드포인트(RCiEP)"),
    (0xA, "루트 컴플렉스 이벤트 컬렉터")]

/-- `_PCI_CLASSES` -/
def pciClasses : List (Nat × String) :=
  [(0x0108, "NVM Express 컨트롤러"), (0x0106, "SATA 컨트롤러"),
    (0x0604, "PCI-to-PCI 브리지"),
    (0x0600, "호스트 브리지")]

/-- `_PCI_POWER_STATES` -/
def pciPowerStates : List (Int × String) :=
  [(0, "D0 (완전 동작)"), (1, "D1"), (2, "D2"), (3, "D3hot"), (4, "D3cold"),
    (5, "unknown"),
    (-1, "error")]

/-- `hex(n)` -/
def pyHex (n : Nat) : PyText := hex0x 0 n

/-- `pcie_type_name`. -/
def pcieTypeName (pcieFlagsReg : Nat) : PyText :=
  let t := (pcieFlagsReg &&& 0x00F0) >>> 4
  match pcieTypes.lookup t with
  | some name => name.toList
  | none => "타입 0x".toList ++ hex 0 t

/-- `pci_power_state_name`. -/
def pciPowerStateName (value : Int) : PyText :=
  nameOr pciPowerStates value (hex0x 0 value)

/-- `_d` of a text. -/
def detail (key : String) (value : PyText) : TopologyDetail :=
  ⟨key.toList, value⟩

/-- `_try` with a default. -/
def tryRead {α : Type} (x : Read α) (default : α) : α := x.toOption.getD default

/-- `_enum_name` of an object that is shown as a text. -/
def enumName (obj : Read PyText) : PyText :=
  let default := "?".toList
  let go := obj.map fun rendered =>
    if "(enum".toList.isPrefixOf rendered ∧ ')' ∈ rendered then
      (rendered.dropWhile (· != ')')).drop 1
    else rendered
  let name := tryRead go default
  if name = [] then default else name

/-- `_cstr` -/
def cstr (obj : Read Bytes) (default : PyText) : PyText :=
  let text := tryRead (obj.map fun bytes => strip (decode bytes)) default
  if text = [] then default else text

/-! ### The PCI part -/

/-- `_domain_nr` -/
def domainNr {P : Type} (bus : PciBus P) : Int :=
  match bus.domainNr.toOption with
  | some v => if 0 ≤ v then v else tryRead bus.sysdataDomain 0
  | none => tryRead bus.sysdataDomain 0

/-- The domain and the number of a bus, in the form of its address. -/
def busText {P : Type} (bus : PciBus P) (number : Nat) : PyText :=
  hex 4 (domainNr bus) ++ ':' :: hex 2 number

/-- `_class_text` -/
def classText {B : Type} (pdev : PciDev B) : PyText :=
  match pdev.classCode.toOption with
  | none => ['?']
  | some cls => match pciClasses.lookup (cls >>> 8) with
      | some name => name.toList ++ " (".toList ++ hex0x 6 cls ++ [')']
      | none => hex0x 6 cls

/-- `_pcie_type_text` -/
def pcieTypeText {B : Type} (pdev : PciDev B) : PyText :=
  if tryRead pdev.pcieCap 0 = 0 then "레거시 PCI (PCIe capability 없음)".toList
  else match pdev.pcieFlagsReg.toOption with
    | some reg => pcieTypeName reg
    | none => ['?']

/-- `_pci_dev_details` -/
def pciDevDetails {B : Type} (pdev : PciDev B) :
    Read (List TopologyDetail) := do
  let vendor := tryRead pdev.vendor 0
  let device := tryRead pdev.device 0
  let revision := tryRead pdev.revision 0
  let subv := tryRead pdev.subsystemVendor 0
  let subd := tryRead pdev.subsystemDevice 0
  let irq := tryRead pdev.irq 0
  let msi := tryRead pdev.msiEnabled false
  let msix := tryRead pdev.msixEnabled false
  let power := match pdev.currentState.toOption with
    | some v => pciPowerStateName v
    | none => ['?']
  let value ← pdev.value
  return [detail "vendor:device" (hex 4 vendor ++ ':' :: hex 4 device),
      detail "class" (classText pdev), detail "PCIe 타입" (pcieTypeText pdev),
      detail "revision" (hex0x 2 revision)] ++
    (if subv ≠ 0 ∨
      subd ≠ 0 then [detail "subsystem" (hex 4 subv ++ ':' :: hex 4 subd)]
      else []) ++
    (if irq ≠ 0 then [detail "IRQ" (ofNat irq)] else []) ++
    [detail "인터럽트 모드" (if msix then "MSI-X" else if msi then "MSI"
      else "레거시 INTx").toList,
      detail "전원 상태" power, detail "struct pci_dev" (pyHex value)]

section

variable {B P : Type} (k : Kernel B P)

/-- `_bdf` -/
def bdf (p : P) : Read PyText := do
  let bus ← (k.pci p).bus
  let devfn ← (k.pci p).devfn
  let number ← (k.bus bus).number
  return busText (k.bus bus) number ++ ':' :: hex 2 (devfn >>> 3) ++ '.' ::
    ofNat (devfn &&& 7)

/-- The loop of `_bus_chain`, for so many buses at most: from a bus upward, each
with the bridge that it is behind. -/
def busChainFrom : Nat → List Nat → B → Read (List (B × Option P))
  | 0, _, _ => .ok []
  | fuel + 1, seen, bus =>
      match (k.bus bus).value.toOption with
      | none => .ok []
      | some addr =>
          if addr ∈ seen then .ok []
          else match (k.bus bus).self.toOption with
            | none => .ok [(bus, none)]
            | some pointer => do
                match ← pointer with
                | none => return [(bus, none)]
                | some bridge =>
                    let above ← (k.pci bridge).bus
                    let chain ← busChainFrom fuel (addr :: seen) above
                    return (bus, some bridge) :: chain

/-- One round behind a bridge. -/
theorem busChainFrom_bridge {fuel : Nat} {seen : List Nat} {bus : B}
    {addr : Nat} {bridge : P}
    (hvalue : (k.bus bus).value = .ok addr) (hnew : addr ∉ seen)
    (hself : (k.bus bus).self = .ok (.ok (some bridge))) :
    busChainFrom k (fuel + 1) seen bus = ((k.pci bridge).bus >>= fun above =>
      busChainFrom k fuel (addr :: seen) above >>= fun chain =>
        pure ((bus, some bridge) :: chain)) := by
  rw [busChainFrom, hvalue, hself]
  dsimp only [Except.toOption]
  rw [if_neg hnew]
  rfl

/-- `_bus_chain` -/
def busChain [Fintype B] (p : P) : Read (List (B × Option P)) := do
  let bus ← (k.pci p).bus
  let chain ← busChainFrom k (Fintype.card B + 1) [] bus
  return chain.reverse

/-! ### The NVMe part -/

/-- What is read through the head of a namespace. -/
def NvmeNs.ofHead {α : Type} (ns : NvmeNs) (field : NsHead → Read α) :
    Option α :=
  match ns.head.toOption with
  | some (.ok (some head)) => (field head).toOption
  | _ => none

/-- The number of a namespace: 0 without a head. -/
def NvmeNs.nsid (ns : NvmeNs) : Read Nat :=
  match ns.head.toOption with
  | none => .ok 0
  | some pointer => do
      match ← pointer with
      | none => return 0
      | some head => return tryRead head.nsId 0

/-- `1 << n`, where it is asked for. -/
def lbaSize (lbaShift : Int) : Read Nat :=
  if lbaShift = 0 then .ok 0
  else if lbaShift < 0 then .error "negative shift count".toList
  else .ok (1 <<< lbaShift.toNat)

/-- One round of `_namespace_nodes`. -/
def namespaceNode (device : PyText) (ns : NvmeNs) : Read TopologyNode := do
  let nsid ← ns.nsid
  let name := tryRead (ns.diskName.map decode) ("nsid".toList ++ ofNat nsid)
  let lbaSize ← lbaSize (tryRead ns.lbaShift 0)
  let sectors := tryRead ns.sectors 0
  let gib : ℚ := sectors * 512 / 2 ^ 30
  let value ← ns.value
  let shared := match ns.ofHead NsHead.shared with
    | some shared =>
        [detail "공유(multipath)" (if shared then "예" else "아니오").toList]
    | none => []
  let nvmset := (ns.ofHead NsHead.nvmsetId).getD 0
  return .node {
      id := "ns:".toList ++ name
      kind := .nvmeNamespace
      label := name
      sublabel := "네임스페이스 nsid=".toList ++ ofNat nsid
      device := device
      details := [detail "nsid" (ofNat nsid),
          detail "LBA 크기" (if lbaSize ≠ 0 then ofNat lbaSize ++ " B".toList
            else ['?']),
          detail "용량" (if sectors ≠ 0 then fixed2 gib ++ " GiB (".toList ++
            ofNat sectors ++
            " × 512B 섹터)".toList else ['?']),
          detail "struct nvme_ns" (pyHex value)] ++ shared ++
        (if nvmset ≠ 0 then [detail "NVM Set ID" (ofNat nvmset)] else []) } []

/-- `_namespace_nodes` -/
def namespaceNodes (ctrl : NvmeCtrl) (device : PyText) :
    Read (List TopologyNode) :=
  (tryRead ctrl.namespaces []).mapM (namespaceNode device)

/-- The node of a subsystem that there is. -/
def subsystemInfo (subsys : NvmeSubsystem) (device : PyText) :
    Read TopologyInfo := do
  let number := tryRead subsys.instanceNr 0
  let cmic := tryRead subsys.cmic 0
  let subnqn ← subsys.subnqn
  let model ← subsys.model
  let serial ← subsys.serial
  let firmwareRev ← subsys.firmwareRev
  let value ← subsys.value
  return {
    id := "subsys:".toList ++ ofInt number
    kind := .nvmeSubsys
    label := "nvme-subsys".toList ++ ofInt number
    sublabel := "NVMe 서브시스템".toList
    device := device
    details := [detail "subnqn" (cstr subnqn ['?']),
        detail "모델" (cstr model ['?']),
        detail "시리얼" (cstr serial ['?']), detail "펌웨어" (cstr firmwareRev ['?']),
        detail "CMIC" (hex0x 2 cmic),
        detail "소속 컨트롤러" (ofNat (tryRead subsys.ctrls 0) ++ ['개']),
        detail "네임스페이스 헤드" (ofNat (tryRead subsys.nsheads 0) ++ ['개']),
        detail "struct nvme_subsystem" (pyHex value)] ++
      (match subsys.subtype.toOption with
        | some subtype => [detail "subtype" (enumName subtype)]
        | none => []) }

/-- `_subsystem_node` -/
def subsystemNode (ctrl : NvmeCtrl) (device : PyText) :
    Read (Option TopologyNode) :=
  match ctrl.subsys.toOption with
  | none => .ok none
  | some pointer => do
      match ← pointer with
      | none => return none
      | some subsys =>
          let info ← subsystemInfo subsys device
          return some (.node info [])

/-- One round of the loop over the queues. -/
def queueNode (device : PyText) (i : Nat) (q : NvmeQueueObject) :
    TopologyNode :=
  let qid := tryRead q.qid i
  let depth := tryRead q.depth 0
  .node {
    id := "q:".toList ++ device ++ ':' :: ofNat qid
    kind := .queue
    label := "qid ".toList ++ ofNat qid ++ (if qid = 0 then " (admin)"
      else "").toList
    sublabel := "depth ".toList ++ ofNat depth
    device := device
    details := [detail "qid" (ofNat qid), detail "depth" (ofNat depth),
      detail "sq_tail" (ofNat (tryRead q.sqTail 0)),
      detail "cq_head" (ofNat (tryRead q.cqHead 0)),
      detail "sq_dma_addr" (pyHex (tryRead q.sqDmaAddr 0)),
      detail "cq_dma_addr" (pyHex (tryRead q.cqDmaAddr 0)),
      detail "blk-mq hctx" (if qid = 0 then "없음 (admin)".toList
        else "hctx[".toList ++ ofNat (qid - 1) ++ [']'])] } []

/-- `_queue_group_node` -/
def queueGroupNode (dev : NvmeDevObject P) (device : PyText) :
    Option TopologyNode :=
  let online := tryRead dev.onlineQueues 0
  let allocated := tryRead dev.nrAllocatedQueues 0
  if online = 0 then none
  else some (.node {
      id := "queues:".toList ++ device
      kind := .queueGroup
      label := "큐 ".toList ++ ofNat online ++ ['개']
      sublabel := "admin 1 + I/O ".toList ++ ofNat (online - 1) ++
        " (할당 ".toList ++
        ofNat allocated ++ [')']
      device := device
      details := [detail "online_queues" (ofNat online),
        detail "nr_allocated_queues" (ofNat allocated)] }
    ((List.range online).filterMap fun i =>
      (dev.queues i).toOption.map (queueNode device i)))

/-- `_ctrl_node` -/
def ctrlNode (dev : NvmeDevObject P) (device : PyText) : Read TopologyNode := do
  let ctrl ← dev.ctrl
  let subsys ← subsystemNode ctrl device
  let nsNodes ← namespaceNodes ctrl device
  let qg := queueGroupNode dev device
  let state ← ctrl.state
  let value ← dev.value
  return .node {
      id := "ctrl:".toList ++ device
      kind := .nvmeCtrl
      label := device
      sublabel := "NVMe 컨트롤러 (struct nvme_dev / nvme_ctrl)".toList
      device := device
      details := [detail "상태" (enumName state),
        detail "cntlid" (ofNat (tryRead ctrl.cntlid 0)),
        detail "queue_count" (ofNat (tryRead ctrl.queueCount 0)),
        detail "sqsize" (ofNat (tryRead ctrl.sqsize 0)),
        detail "max_hw_sectors" (ofNat (tryRead ctrl.maxHwSectors 0)),
        detail "numa_node" (ofInt (tryRead ctrl.numaNode (-1))),
        detail "네임스페이스" (ofNat nsNodes.length ++ ['개']),
        detail "struct nvme_dev" (pyHex value),
        detail "struct nvme_ctrl" (pyHex (tryRead ctrl.address 0))] }
    (subsys.toList ++ nsNodes ++ qg.toList)

/-! ### One tree -/

/-- The tree with its index.  Every node above a controller is entered when it
is made, under its own id, so that the node an id is looked up to is the one
with that id. -/
abbrev Nodes := IndexedTree TopologyInfo PyText

/-- The node of a root bus. -/
def hostBridgeInfo (bus : B) (id : PyText) : Read TopologyInfo := do
  let name ← (k.bus bus).name
  let number ← (k.bus bus).number
  let value ← (k.bus bus).value
  return {
    id := id
    kind := .hostBridge
    label := cstr name ("pci".toList ++ busText (k.bus bus) number)
    sublabel := "PCI 호스트 브리지 (루트 버스)".toList
    details := [detail "도메인:버스" (busText (k.bus bus) number),
      detail "버스 번호 범위" (ofNat (tryRead (k.bus bus).busnStart 0) ++ '–' ::
        ofNat (tryRead (k.bus bus).busnEnd 0)),
      detail "struct pci_bus" (pyHex value)] }

/-- The node of a bridge and the bus behind it. -/
def bridgeInfo (bus : B) (bridge : P) (bdf : PyText) : Read TopologyInfo := do
  let details ← pciDevDetails (k.pci bridge)
  let number ← (k.bus bus).number
  return {
    id := "pci:".toList ++ bdf
    kind := .pciBridge
    label := bdf
    sublabel := pcieTypeText (k.pci bridge)
    details := details ++ [detail "하위 버스" (ofNat number)] }

/-- What is shown of the function of a device. -/
def endpointInfo (pdev : P) (bdf device : PyText) : Read TopologyInfo := do
  let details ← pciDevDetails (k.pci pdev)
  return {
    id := "pci:".toList ++ bdf
    kind := .pciEndpoint
    label := bdf
    sublabel := classText (k.pci pdev)
    device := device
    details := details }

/-- The id and the node of a bus on the way. -/
def busNode (entry : B × Option P) : Read (PyText × Read TopologyInfo) :=
  match entry with
  | (bus, none) => do
      let number ← (k.bus bus).number
      let id := "hostbridge:".toList ++ busText (k.bus bus) number
      return (id, hostBridgeInfo k bus id)
  | (bus, some bridge) => do
      let bdf ← bdf k bridge
      return ("pci:".toList ++ bdf, bridgeInfo k bus bridge bdf)

/-- One round of the loop over a chain, with the cursor `parent`. -/
def placeBus (cursor : Nodes × PyText) (entry : B × Option P) :
    Read (Nodes × PyText) := do
  let (nodes, parent) := cursor
  let (id, describe) ← busNode k entry
  let nodes ← nodes.place TopologyInfo.id ⟨parent, id, describe⟩
  return (nodes, id)

/-- What is done for a device that was found. -/
def addDevice [Fintype B] (nodes : Nodes) (device : PyText)
    (dev : NvmeDevObject P) (pdev : P) :
    Read Nodes := do
  let chain ← busChain k pdev
  let (nodes, parent) ← chain.foldlM (placeBus k) (nodes, "system".toList)
  let bdf ← bdf k pdev
  let id := "pci:".toList ++ bdf
  let nodes ← nodes.place TopologyInfo.id ⟨parent, id,
    endpointInfo k pdev bdf device⟩
  let ctrl ← ctrlNode dev device
  return nodes.hang TopologyInfo.id id ctrl

/-- The tree and the errors so far. -/
structure Build where
  nodes : Nodes
  errors : List PyText

/-- `get_dev_and_disk` and `container_of` -/
def findDevice (device : PyText) : Read (NvmeDevObject P × P) := do
  let dev ← k.getDevAndDisk device
  let pdev ← dev.pdev
  return (dev, pdev)

/-- One round of the loop over the devices. -/
def buildDevice [Fintype B] (s : Build) (device : PyText) : Read Build :=
  match findDevice k device with
  | .error e =>
      .ok { s with errors := s.errors ++ [device ++ ": ".toList ++ e] }
  | .ok (dev, pdev) => do
      let nodes ← addDevice k s.nodes device dev pdev
      return { s with nodes := nodes }

/-- The root. -/
def systemInfo : TopologyInfo where
  id := "system".toList
  kind := .system
  label := "시스템".toList
  sublabel := "PCI 호스트 브리지 → PCIe 계보 → NVMe 컨트롤러/서브시스템/네임스페이스/큐".toList

/-- The tree that has only its root. -/
def rootOnly : Nodes := ⟨.node systemInfo [], ["system".toList]⟩

/-- `build_topology`. -/
def buildTopology [Fintype B] (devices : List PyText) (backendKind : PyText) :
    Read Topology := do
  let s ← devices.foldlM (buildDevice k) ⟨rootOnly, []⟩
  return {
    root := s.nodes.tree
    backendKind := backendKind
    error := if s.errors = [] then none else some (join "; ".toList s.errors) }

end

end Telemetryd
