import Telemetryd.Lib.ParentMap
import Telemetryd.TopologyHealth

/-!
# The merge of the paths

The buses and functions of a machine are a forest: each bus but the root buses
is behind a bridge, which is a function on another bus.  `build_topology`
collects the buses of a device from its own upward, and enters them from the
root downward in a tree that has those of other devices already.  What it makes
of a forest is the union of the paths to the devices, whatever their order.
-/

namespace Telemetryd

open PyText RoseTree IndexedTree ParentMap

section

variable {B P : Type} (k : Kernel B P)

/-! ### The forest -/

/-- The bridge that a bus is behind. -/
def bridgeOf (bus : B) : Option P :=
  match (k.bus bus).self with
  | .ok (.ok bridge) => bridge
  | _ => none

/-- The bus that the bridge of a bus is on. -/
def busAbove (bus : B) : Option B :=
  (bridgeOf k bus).bind fun bridge => (k.pci bridge).bus.toOption

/-- **A forest of buses and functions**, all of which can be read.  A bus is
told by its address and by its domain and number, a function by its bus and its
`devfn`, and a bridge has one bus behind it at most. -/
structure PciForest : Prop where
  buses : ∀ bus, BusSound (k.bus bus)
  functions : ∀ p, PciSound (k.pci p)
  acyclic : Acyclic (busAbove k)
  busValue : ∀ b b', (k.bus b).value = (k.bus b').value → b = b'
  busNumber : ∀ b b', domainNr (k.bus b) = domainNr (k.bus b') →
    (k.bus b).number = (k.bus b').number → b = b'
  address : ∀ p q, (k.pci p).bus = (k.pci q).bus →
    (k.pci p).devfn = (k.pci q).devfn → p = q
  oneBus : ∀ b b' bridge, bridgeOf k b = some bridge →
    bridgeOf k b' = some bridge → b = b'

/-- **Devices on functions of their own**, which are no bridges.  All of them
can be read, and no shift is negative. -/
structure OnFunctions (devices : List PyText) : Prop where
  nodup : devices.Nodup
  found : ∀ d ∈ devices, ∃ dev pdev, findDevice k d = .ok (dev, pdev) ∧
    DevSound dev ∧ ShiftsSound dev
  apart : ∀ d ∈ devices, ∀ e ∈ devices, ∀ dev dev' pdev,
    findDevice k d = .ok (dev, pdev) →
    findDevice k e = .ok (dev', pdev) → d = e
  noBridge : ∀ d ∈ devices, ∀ dev pdev, findDevice k d = .ok (dev, pdev) →
    ∀ bus, bridgeOf k bus ≠ some pdev

variable {k}

/-- The bridge of a bus can be read. -/
theorem PciForest.self_eq (h : PciForest k) (bus : B) :
    (k.bus bus).self = .ok (.ok (bridgeOf k bus)) := by
  obtain ⟨pointer, hself, bridge, rfl⟩ := (h.buses bus).self
  rw [bridgeOf, hself]

/-- A bridge has a bus above it. -/
theorem PciForest.busAbove_of_bridge (h : PciForest k) {bus : B} {bridge : P}
    (hbridge : bridgeOf k bus = some bridge) :
    ∃ above, (k.pci bridge).bus = .ok above ∧ busAbove k bus = some above := by
  obtain ⟨above, habove⟩ := (h.functions bridge).bus
  refine ⟨above, habove, ?_⟩
  rw [busAbove, hbridge, Option.bind_some, habove]
  rfl

/-- A bus with none above has no bridge. -/
theorem PciForest.bridgeOf_eq_none (h : PciForest k) {bus : B}
    (habove : busAbove k bus = none) :
    bridgeOf k bus = none := by
  cases hbridge : bridgeOf k bus with
  | none => rfl
  | some bridge =>
      obtain ⟨above, -, hsome⟩ := h.busAbove_of_bridge hbridge
      rw [habove] at hsome
      cases hsome

/-- The address of a function can be read. -/
theorem PciForest.addressReads (h : PciForest k) (p : P) :
    AddressReads k p := by
  obtain ⟨bus, hbus⟩ := (h.functions p).bus
  exact .of_sound (h.functions p) hbus (h.buses bus).number

/-- Every step of a path can be read. -/
theorem PciForest.entrySound (h : PciForest k) (entry : B × Option P) :
    EntrySound k entry :=
  ⟨h.buses entry.1, fun bridge _ => h.functions bridge⟩

/-- **The loop of `_bus_chain`** collects the line of a bus, from below. -/
theorem PciForest.busChainFrom_eq (h : PciForest k) {bus : B} {line : List B}
    (hline : LineTo (busAbove k) bus line) (hnodup : line.Nodup) {fuel : Nat}
    {seen : List Nat}
    (hfuel : line.length ≤ fuel)
    (hseen : ∀ b ∈ line, ∀ addr ∈ seen, (k.bus b).value ≠ .ok addr) :
    busChainFrom k fuel seen bus =
      .ok (line.map fun b => (b, bridgeOf k b)).reverse := by
  induction hline generalizing fuel seen with
  | @root bus habove =>
      obtain ⟨fuel, rfl⟩ := Nat.exists_eq_add_of_le' hfuel
      obtain ⟨addr, haddr⟩ := (h.buses bus).value
      have hnew : addr ∉ seen :=
        fun hmem => hseen bus (List.mem_singleton_self _) addr hmem haddr
      have hbridge := h.bridgeOf_eq_none habove
      rw [List.length_singleton, busChainFrom, haddr, h.self_eq]
      dsimp only [Except.toOption]
      rw [if_neg hnew, List.map_singleton, hbridge]
      rfl
  | @child above bus line habove hline ih =>
      rw [List.length_append, List.length_singleton] at hfuel
      obtain ⟨fuel, rfl⟩ :=
        Nat.exists_eq_add_of_le' (Nat.le_of_add_left_le hfuel)
      obtain ⟨addr, haddr⟩ := (h.buses bus).value
      have hmem : bus ∈ line ++ [bus] :=
        List.mem_append_right _ (List.mem_singleton_self _)
      have hnew : addr ∉ seen := fun hin => hseen bus hmem addr hin haddr
      cases hbridge : bridgeOf k bus with
      | none =>
          rw [busAbove, hbridge] at habove
          cases habove
      | some bridge =>
          obtain ⟨above', hbus, hsame⟩ := h.busAbove_of_bridge hbridge
          rw [habove] at hsame
          cases hsame
          obtain ⟨hfirst, -, hlast⟩ := List.nodup_append'.mp hnodup
          have hseen' : ∀ b ∈ line, ∀ other ∈ addr :: seen,
              (k.bus b).value ≠ .ok other := by
            intro b hb other hother hvalue
            rcases List.mem_cons.mp hother with rfl | hother
            · have hsame := h.busValue b bus (hvalue.trans haddr.symm)
              exact hlast hb (hsame ▸ List.mem_singleton_self _)
            · exact hseen b (List.mem_append_left _ hb) other hother hvalue
          have hrest : busChainFrom k fuel (addr :: seen) above
              = .ok (line.map fun b => (b, bridgeOf k b)).reverse :=
                ih hfirst (by omega) hseen'
          have hself : (k.bus bus).self = .ok (.ok (some bridge)) :=
            hbridge ▸ h.self_eq bus
          rw [busChainFrom_bridge k haddr hnew hself, List.map_append,
            List.map_singleton,
            List.reverse_append, List.reverse_singleton, hbridge]
          exact Fallible.bind_eq_ok.mpr ⟨above, hbus,
            Fallible.bind_eq_ok.mpr ⟨_, hrest, rfl⟩⟩

/-- **The chain of a function** is the line of its bus. -/
theorem PciForest.busChain_eq [Fintype B] (h : PciForest k) {p : P} {bus : B}
    {line : List B}
    (hbus : (k.pci p).bus = .ok bus) (hline : LineTo (busAbove k) bus line) :
    busChain k p = .ok (line.map fun b => (b, bridgeOf k b)) := by
  have hfuel : line.length ≤ Fintype.card B + 1 :=
    (hline.length_le h.acyclic).trans (Nat.le_succ _)
  have hloop : busChainFrom k (Fintype.card B + 1) [] bus
      = .ok (line.map fun b => (b, bridgeOf k b)).reverse :=
    h.busChainFrom_eq hline (hline.nodup h.acyclic) hfuel fun _ _ _ hmem =>
      nomatch hmem
  rw [busChain]
  refine Fallible.bind_eq_ok.mpr ⟨bus, hbus,
    Fallible.bind_eq_ok.mpr ⟨_, hloop, ?_⟩⟩
  rw [List.reverse_reverse]
  rfl

/-! ### Ids of buses and functions -/

/-- A separator is no digit. -/
theorem sep_notMem_hex (sep : Char) (hdash : sep ≠ '-')
    (hdigit : ∀ d < 16, sep ≠ Nat.digitChar d)
    (w : Nat) (i : Int) : sep ∉ hex w i := by
  intro h
  rcases mem_hex h with ⟨heq, -⟩ | ⟨d, hd, heq⟩
  · exact hdash heq
  · exact hdigit d hd heq

/-- Different buses have different texts. -/
theorem busText_inj {bus bus' : PciBus P} {number number' : Nat}
    (h : busText bus number = busText bus' number') :
    domainNr bus = domainNr bus' ∧ number = number' := by
  have hcolon := sep_notMem_hex ':' (by decide) (by decide)
  obtain ⟨hdomain, hnumber⟩ := append_first_inj (hcolon 4 _) (hcolon 4 _) h
  exact ⟨hex_injective 4 hdomain, Int.ofNat.inj (hex_injective 2 hnumber)⟩

/-- `devfn` is told by its two parts. -/
theorem devfn_inj {m n : Nat} (hdevice : m >>> 3 = n >>> 3)
    (hfunction : m &&& 7 = n &&& 7) : m = n := by
  have hmod : ∀ i : Nat, i &&& 7 = i % 8 :=
    fun i => Nat.and_two_pow_sub_one_eq_mod i 3
  rw [Nat.shiftRight_eq_div_pow, Nat.shiftRight_eq_div_pow] at hdevice
  rw [hmod, hmod] at hfunction
  omega

/-- **A function is told by its address.** -/
theorem PciForest.bdf_inj (h : PciForest k) {p q : P} {address : PyText}
    (hp : bdf k p = .ok address)
    (hq : bdf k q = .ok address) : p = q := by
  simp only [bdf, Fallible.bind_eq_ok, Fallible.pure_eq_ok] at hp hq
  obtain ⟨bus, hbus, devfn, hdevfn, number, hnumber, rfl⟩ := hp
  obtain ⟨bus', hbus', devfn', hdevfn', number', hnumber', heq⟩ := hq
  have hdot : ∀ n, '.' ∉ ofNat n :=
    fun n hmem => absurd (isDigit_of_mem_ofNat hmem) (by decide)
  have hcolon := sep_notMem_hex ':' (by decide) (by decide)
  obtain ⟨hfront, hfunction⟩ := append_last_inj (hdot _) (hdot _) heq
  obtain ⟨htext, hdevice⟩ := append_last_inj (hcolon 2 _) (hcolon 2 _) hfront
  obtain ⟨hdomain, hsame⟩ := busText_inj htext
  have hbuses : bus' = bus :=
    h.busNumber bus' bus hdomain (by rw [hnumber, hnumber', hsame])
  have hdevfns : devfn' = devfn :=
    devfn_inj (Int.ofNat.inj (hex_injective 2 hdevice))
      (ofNat_injective hfunction)
  exact h.address p q (by rw [hbus, hbus', hbuses])
    (by rw [hdevfn, hdevfn', hdevfns])

variable (k) in
/-- The id and the node of a bus. -/
def nodeOf (bus : B) : PyText × Read TopologyInfo :=
  tryRead (busNode k (bus, bridgeOf k bus)) ([], .error [])

/-- The node of a bus. -/
theorem PciForest.busNode_eq (h : PciForest k) (bus : B) :
    busNode k (bus, bridgeOf k bus) = .ok (nodeOf k bus) := by
  have hreads : EntryReads k (bus, bridgeOf k bus) := by
    cases bridgeOf k bus with
    | none => exact (h.buses bus).number
    | some bridge => exact h.addressReads bridge
  obtain ⟨e, he⟩ := isRead_busNode.mpr hreads
  rw [nodeOf, he]
  rfl

/-- What the id of a bus is made of. -/
theorem PciForest.nodeOf_id (h : PciForest k) (bus : B) :
    (bridgeOf k bus = none ∧ ∃ number, (k.bus bus).number = .ok number ∧
      (nodeOf k bus).1 = "hostbridge:".toList ++ busText (k.bus bus) number) ∨
    ∃ bridge address, bridgeOf k bus = some bridge ∧
      bdf k bridge = .ok address ∧
      (nodeOf k bus).1 = "pci:".toList ++ address := by
  have hnode := h.busNode_eq bus
  cases hbridge : bridgeOf k bus with
  | none =>
      rw [hbridge] at hnode
      obtain ⟨number, hnumber, heq⟩ := Fallible.bind_eq_ok.mp hnode
      exact Or.inl ⟨rfl, number, hnumber,
        congrArg Prod.fst (Except.ok.inj heq).symm⟩
  | some bridge =>
      rw [hbridge] at hnode
      obtain ⟨address, haddress, heq⟩ := Fallible.bind_eq_ok.mp hnode
      exact Or.inr ⟨bridge, address, rfl, haddress,
        congrArg Prod.fst (Except.ok.inj heq).symm⟩

/-- **A bus is told by its id.** -/
theorem PciForest.nodeOf_inj (h : PciForest k) {bus bus' : B}
    (heq : (nodeOf k bus).1 = (nodeOf k bus').1) :
    bus = bus' := by
  have htags : ∀ x y : PyText, "hostbridge:".toList ++ x ≠
      "pci:".toList ++ y := by
    intro x y hxy
    exact absurd (congrArg idTag hxy) (of_decide_eq_false rfl)
  rcases h.nodeOf_id bus with ⟨-, number, hnumber, hid⟩ | ⟨bridge, address,
    hbridge, haddress, hid⟩ <;>
    rcases h.nodeOf_id bus' with ⟨-, number', hnumber', hid'⟩ | ⟨bridge',
      address', hbridge', haddress', hid'⟩ <;>
    rw [hid, hid'] at heq
  · obtain ⟨hdomain, hsame⟩ := busText_inj (List.append_cancel_left heq)
    exact h.busNumber bus bus' hdomain (by rw [hnumber, hnumber', hsame])
  · exact absurd heq (htags _ _)
  · exact absurd heq.symm (htags _ _)
  · rw [List.append_cancel_left heq] at haddress
    exact h.oneBus bus bus' bridge hbridge (h.bdf_inj haddress haddress' ▸
      hbridge')

/-! ### Requests of buses and devices -/

variable (k) in
/-- The request for the node of a bus, below that of the bus above it. -/
def busRequest (bus : B) : NodeRequest TopologyInfo PyText PyText :=
  ⟨(busAbove k bus).elim "system".toList fun above => (nodeOf k above).1,
    (nodeOf k bus).1,
    (nodeOf k bus).2⟩

variable (k) in
/-- The request for the endpoint of a device, below the node of its bus. -/
def endRequest (device : PyText) : NodeRequest TopologyInfo PyText PyText :=
  match findDevice k device with
  | .error e => ⟨[], [], .error e⟩
  | .ok (_, pdev) =>
      let address := tryRead (bdf k pdev) []
      ⟨tryRead ((k.pci pdev).bus.map fun bus => (nodeOf k bus).1) [],
        "pci:".toList ++ address,
        endpointInfo k pdev address device⟩

variable (k) in
/-- A controller with nothing below it. -/
def ctrlTree (device : PyText) : TopologyNode :=
  match findDevice k device with
  | .error _ => .node systemInfo []
  | .ok (dev, _) => tryRead (ctrlNode dev device) (.node systemInfo [])

/-- The requests of a line. -/
theorem path_line {bus : B} {line : List B} (h : LineTo (busAbove k) bus line) :
    path "system".toList (line.map (nodeOf k)) = line.map (busRequest k) ∧
      lastKey "system".toList (line.map (nodeOf k)) = (nodeOf k bus).1 := by
  induction h with
  | @root bus habove =>
      refine ⟨?_, rfl⟩
      rw [List.map_singleton, List.map_singleton, busRequest, habove]
      rfl
  | @child above bus line habove _ ih =>
      rw [List.map_append, List.map_singleton, path_append, lastKey_append,
        ih.1, ih.2, List.map_append,
        List.map_singleton]
      refine ⟨?_, rfl⟩
      rw [busRequest, habove]
      rfl

/-- The line of a bus starts at a root bus. -/
theorem PciForest.exists_root (h : PciForest k) {bus : B} {line : List B}
    (hline : LineTo (busAbove k) bus line) :
    ∃ root chain, (line.map fun b => (b, bridgeOf k b)) =
      (root, none) :: chain := by
  induction hline with
  | @root bus habove =>
      exact ⟨bus, [], by rw [List.map_singleton, h.bridgeOf_eq_none habove]⟩
  | @child above bus line habove _ ih =>
      obtain ⟨root, chain, hchain⟩ := ih
      exact ⟨root,
        chain ++ [(bus, bridgeOf k bus)], by rw [List.map_append, hchain]; rfl⟩

variable [Fintype B]

/-- What is read for a device on a function of a forest. -/
structure DeviceView (k : Kernel B P) (device : PyText) (dev : NvmeDevObject P)
    (pdev : P) (bus : B)
    (line : List B) (address : PyText) : Prop where
  found : findDevice k device = .ok (dev, pdev)
  onBus : (k.pci pdev).bus = .ok bus
  lineTo : LineTo (busAbove k) bus line
  hasAddress : bdf k pdev = .ok address
  healthy : Healthy k device
  ctrl : ctrlNode dev device = .ok (ctrlTree k device)
  request : endRequest k device =
    ⟨(nodeOf k bus).1, "pci:".toList ++ address,
      endpointInfo k pdev address device⟩
  moves : movesOf k device = movesOn (line.map (nodeOf k) ++
    [("pci:".toList ++ address, endpointInfo k pdev address device)])
      (ctrlTree k device)

/-- Every device has a view. -/
theorem exists_view {devices : List PyText} (h : PciForest k)
    (hdevices : OnFunctions k devices)
    {device : PyText} (hd : device ∈ devices) :
    ∃ dev pdev bus line address,
      DeviceView k device dev pdev bus line address := by
  obtain ⟨dev, pdev, hfind, hdev, hshifts⟩ := hdevices.found device hd
  obtain ⟨bus, hbus⟩ := (h.functions pdev).bus
  obtain ⟨line, hline⟩ := exists_lineTo h.acyclic bus
  obtain ⟨address, haddress⟩ := isRead_bdf.mpr (h.addressReads pdev)
  have hchain := h.busChain_eq hbus hline
  have hhealthy : Healthy k device := by
    obtain ⟨root, chain, hroot⟩ := h.exists_root hline
    exact ⟨dev, pdev, root, chain, hfind, hroot ▸ hchain, fun entry _ =>
      h.entrySound entry,
      h.functions pdev, hdev⟩
  have hreads := hhealthy.deviceReads hfind hshifts
  obtain ⟨ctrl, hctrl⟩ : IsRead (ctrlNode dev device) :=
    isRead_ctrlNode.mpr ⟨hreads.ctrl, hreads.value⟩
  have htree : ctrlTree k device = ctrl := by
    rw [ctrlTree, hfind]
    simp only [hctrl]
    rfl
  have hnodes : (line.map fun b => (b, bridgeOf k b)).mapM (busNode k) =
      .ok (line.map (nodeOf k)) := by
    rw [Fallible.mapM_eq_ok_iff_map, List.map_map, List.map_map]
    exact List.map_congr_left fun b _ => h.busNode_eq b
  have hpath : pathOf k device pdev = .ok (line.map (nodeOf k) ++
      [("pci:".toList ++ address, endpointInfo k pdev address device)]) :=
    Fallible.bind_eq_ok.mpr ⟨_, hchain, Fallible.bind_eq_ok.mpr ⟨_, hnodes,
      Fallible.bind_eq_ok.mpr ⟨_, haddress, rfl⟩⟩⟩
  refine ⟨dev, pdev, bus, line, address, hfind, hbus, hline, haddress, hhealthy,
    htree ▸ hctrl, ?_,
    htree ▸ moves_of_found hfind hpath hctrl⟩
  rw [endRequest, hfind]
  simp only [haddress, hbus]
  rfl

/-- The requests of a device on a function. -/
theorem DeviceView.asks_eq {device : PyText} {dev : NvmeDevObject P} {pdev : P}
    {bus : B} {line : List B}
    {address : PyText} (h : DeviceView k device dev pdev bus line address) :
    asks k [device] = line.map (busRequest k) ++ [endRequest k device] := by
  obtain ⟨hpath, hlast⟩ := path_line h.lineTo
  rw [asks_eq_path h.moves, path_append, hpath, hlast, h.request]

variable (k) in
/-- The bus is on the way from a root bus to the device. -/
def OnPath (device : PyText) (bus : B) : Prop :=
  ∃ dev pdev first, findDevice k device = .ok (dev, pdev) ∧
    (k.pci pdev).bus = .ok first ∧
    Relation.ReflTransGen (Above (busAbove k)) first bus

/-- The buses on the path of a device. -/
theorem DeviceView.onPath_iff {device : PyText} {dev : NvmeDevObject P}
    {pdev : P} {bus : B} {line : List B}
    {address : PyText} (h : DeviceView k device dev pdev bus line address)
    {b : B} :
    OnPath k device b ↔ b ∈ line := by
  rw [h.lineTo.mem_iff]
  constructor
  · rintro ⟨dev', pdev', first, hfind, hfirst, hreach⟩
    rw [h.found] at hfind
    cases hfind
    rw [h.onBus] at hfirst
    cases hfirst
    exact hreach
  · exact fun hreach => ⟨dev, pdev, bus, h.found, h.onBus, hreach⟩

section

variable {devices : List PyText} (hforest : PciForest k)
    (hdevices : OnFunctions k devices)

include hforest hdevices

/-- **What is asked for**: the buses on the paths and the endpoints. -/
theorem mem_asks_iff {r : NodeRequest TopologyInfo PyText PyText} :
    r ∈ asks k devices ↔
    (∃ bus, (∃ d ∈ devices, OnPath k d bus) ∧ r = busRequest k bus) ∨
      ∃ d ∈ devices, r = endRequest k d := by
  rw [mem_asks]
  constructor
  · rintro ⟨d, hd, hr⟩
    obtain ⟨dev, pdev, bus, line, address, hview⟩ :=
      exists_view hforest hdevices hd
    rw [hview.asks_eq] at hr
    rcases List.mem_append.mp hr with hr | hr
    · obtain ⟨b, hb, rfl⟩ := List.mem_map.mp hr
      exact Or.inl ⟨b, ⟨d, hd, hview.onPath_iff.mpr hb⟩, rfl⟩
    · exact Or.inr ⟨d, hd, List.mem_singleton.mp hr⟩
  · rintro (⟨b, ⟨d, hd, hpath⟩, rfl⟩ | ⟨d, hd, rfl⟩)
    · obtain ⟨dev, pdev, bus, line, address, hview⟩ :=
        exists_view hforest hdevices hd
      refine ⟨d, hd, ?_⟩
      rw [hview.asks_eq]
      exact List.mem_append_left _
        (List.mem_map_of_mem (hview.onPath_iff.mp hpath))
    · obtain ⟨dev, pdev, bus, line, address, hview⟩ :=
        exists_view hforest hdevices hd
      refine ⟨d, hd, ?_⟩
      rw [hview.asks_eq]
      exact List.mem_append_right _ (List.mem_singleton_self _)

/-- Different devices end at different nodes. -/
theorem endRequest_inj {d e : PyText} (hd : d ∈ devices) (he : e ∈ devices)
    (h : (endRequest k d).key = (endRequest k e).key) : d = e := by
  obtain ⟨dev, pdev, bus, line, address, hview⟩ :=
    exists_view hforest hdevices hd
  obtain ⟨dev', pdev', bus', line', address', hview'⟩ :=
    exists_view hforest hdevices he
  rw [hview.request, hview'.request] at h
  have hsame : address = address' := List.append_cancel_left h
  have hfunction : pdev = pdev' :=
    hforest.bdf_inj hview.hasAddress (hsame ▸ hview'.hasAddress)
  exact hdevices.apart d hd e he dev dev' pdev hview.found
    (hfunction ▸ hview'.found)

/-- No bus has the id of an endpoint. -/
theorem busRequest_ne_endRequest (bus : B) {d : PyText} (hd : d ∈ devices) :
    (busRequest k bus).key ≠ (endRequest k d).key := by
  obtain ⟨dev, pdev, first, line, address, hview⟩ :=
    exists_view hforest hdevices hd
  rw [hview.request]
  intro h
  rcases hforest.nodeOf_id bus with ⟨-, number, -, hid⟩ | ⟨bridge, address',
    hbridge, haddress, hid⟩
  · have heq : "hostbridge:".toList ++ busText (k.bus bus) number =
        "pci:".toList ++ address :=
      hid.symm.trans h
    exact absurd (congrArg idTag heq) (of_decide_eq_false rfl)
  · have hsame : address' = address :=
      List.append_cancel_left (hid.symm.trans h)
    have hfunction : bridge = pdev :=
      hforest.bdf_inj haddress (hsame ▸ hview.hasAddress)
    exact hdevices.noBridge d hd dev pdev hview.found bus (hfunction ▸ hbridge)

/-- **A request is told by its id.** -/
theorem eq_of_key {r q : NodeRequest TopologyInfo PyText PyText}
    (hr : r ∈ asks k devices)
    (hq : q ∈ asks k devices) (h : r.key = q.key) : r = q := by
  rcases (mem_asks_iff hforest hdevices).mp hr
    with ⟨b, -, rfl⟩ | ⟨d, hd, rfl⟩ <;>
    rcases (mem_asks_iff hforest hdevices).mp hq
      with ⟨b', -, rfl⟩ | ⟨e, he, rfl⟩
  · rw [hforest.nodeOf_inj h]
  · exact absurd h (busRequest_ne_endRequest hforest hdevices b he)
  · exact absurd h.symm (busRequest_ne_endRequest hforest hdevices b' hd)
  · rw [endRequest_inj hforest hdevices hd he h]

/-- **What is placed**: each bus on a path and each endpoint, once. -/
theorem news_perm {buses : List B} (hbuses : buses.Nodup)
    (hmem : ∀ bus, bus ∈ buses ↔ ∃ d ∈ devices, OnPath k d bus) :
    (news ["system".toList] (devices.flatMap (movesOf k))).Perm
      (buses.map (busRequest k) ++ devices.map (endRequest k)) := by
  have hnews : (news ["system".toList] (devices.flatMap (movesOf k))).Nodup :=
    (nodup_news (List.nodup_singleton _)).of_append_right.of_map _
  have hbusRequests : (buses.map (busRequest k)).Nodup := by
    refine hbuses.map_on fun b _ b' _ h => ?_
    exact hforest.nodeOf_inj (congrArg NodeRequest.key h)
  have hendRequests : (devices.map (endRequest k)).Nodup := by
    refine hdevices.nodup.map_on fun d hd e he h => ?_
    exact endRequest_inj hforest hdevices hd he (congrArg NodeRequest.key h)
  have hall : (buses.map (busRequest k) ++
      devices.map (endRequest k)).Nodup := by
    refine List.nodup_append'.mpr ⟨hbusRequests, hendRequests, fun r hr hr' =>
      ?_⟩
    obtain ⟨b, -, rfl⟩ := List.mem_map.mp hr
    obtain ⟨d, hd, heq⟩ := List.mem_map.mp hr'
    exact busRequest_ne_endRequest hforest hdevices b hd
      (congrArg NodeRequest.key heq.symm)
  refine (List.perm_ext_iff_of_nodup hnews hall).mpr fun r => ?_
  have hsame : ∀ r q, Move.place r ∈ devices.flatMap (movesOf k) →
      Move.place q ∈ devices.flatMap (movesOf k) → r.key = q.key → r = q :=
        fun r q hr hq =>
    eq_of_key hforest hdevices (mem_requests.mpr hr) (mem_requests.mpr hq)
  have hask : Move.place r ∈ devices.flatMap (movesOf k) ↔ r ∈ asks k devices :=
    mem_requests.symm
  rw [mem_news_iff (List.nodup_singleton _) hsame, hask, List.mem_append,
    List.mem_map, List.mem_map,
    List.mem_singleton, and_iff_left_of_imp fun h => (key_of_mem_asks h).2,
    mem_asks_iff hforest hdevices]
  simp only [← hmem, eq_comm]

end

/-! ### The union of the paths -/

variable (k) in
/-- The chain to the node of a bus is that to the bus above it, and the node. -/
def BusStands (chain : B → List TopologyInfo) (bus : B) : Prop :=
  ∃ id info, busNode k (bus, bridgeOf k bus) = .ok (id, .ok info) ∧
    chain bus = (busAbove k bus).elim [systemInfo] chain ++ [info]

variable (k) in
/-- The chain to an endpoint is that to its bus, and its node. -/
def EndpointStands (chain : B → List TopologyInfo) (device : PyText)
    (endpoint : List TopologyInfo) :
    Prop :=
  ∃ dev pdev bus address info, findDevice k device = .ok (dev, pdev) ∧
    (k.pci pdev).bus = .ok bus ∧ bdf k pdev = .ok address ∧
    endpointInfo k pdev address device = .ok info ∧
      endpoint = chain bus ++ [info]

variable (k) in
/-- **The tree is the union of the paths**: it has the root, one node for each
bus on the path of a device, below that of the bus above it, one node for each
endpoint, below that of its bus, and below the endpoints the trees of their
controllers; no other nodes, and no two of the PCI part with one id. -/
def IsMerge (devices : List PyText) (t : TopologyNode) : Prop :=
  ∃ (buses : List B) (chain : B → List TopologyInfo) (endpoint : PyText → List TopologyInfo)
    (ctrl : PyText → TopologyNode),
    buses.Nodup ∧ (∀ bus, bus ∈ buses ↔ ∃ d ∈ devices, OnPath k d bus) ∧
    (∀ bus ∈ buses, BusStands k chain bus) ∧
    (∀ d ∈ devices, EndpointStands k chain d (endpoint d)) ∧
    (∀ d ∈ devices, ∃ dev pdev, findDevice k d = .ok (dev, pdev) ∧
      ctrlNode dev d = .ok (ctrl d)) ∧
    (chains t).Perm ([systemInfo] :: (buses.map chain ++ devices.map endpoint ++
      devices.flatMap fun d => (chains (ctrl d)).map (endpoint d ++ ·))) ∧
    ((idsOf t).filter fun id => decide (IsPathId id)).Nodup

section

variable {devices : List PyText} (hforest : PciForest k)
    (hdevices : OnFunctions k devices)

include hforest hdevices

/-- In a forest the topology can be built. -/
theorem exists_buildTopology_of_forest (backendKind : PyText) :
    ∃ t, buildTopology k devices backendKind = .ok t := by
  refine exists_buildTopology (fun d hd => ?_) (fun d hd dev pdev hfind =>
    ?_) backendKind
  · obtain ⟨dev, pdev, bus, line, address, hview⟩ :=
      exists_view hforest hdevices hd
    exact hview.healthy
  · obtain ⟨dev', pdev', hfind', -, hshifts⟩ := hdevices.found d hd
    rw [hfind] at hfind'
    cases hfind'
    exact hshifts

/-- **What is built of a forest** is the union of the paths. -/
theorem isMerge_of_buildTopology {t : Topology} {backendKind : PyText}
    (h : buildTopology k devices backendKind = .ok t) :
    IsMerge k devices t.root := by
  classical
  obtain ⟨-, nodes, hgrow, hroot⟩ := buildTopology_root.mp ⟨t, h, rfl⟩
  obtain ⟨real, hsystem, hreal⟩ := exists_realOf (k := k) devices
  obtain ⟨-, hperm⟩ := chains_topology hgrow hsystem hreal
  let buses :=
    (Finset.univ.filter fun bus => ∃ d ∈ devices, OnPath k d bus).toList
  have hbuses : buses.Nodup := Finset.nodup_toList _
  have hmem : ∀ bus, bus ∈ buses ↔ ∃ d ∈ devices, OnPath k d bus := by
    intro bus
    rw [Finset.mem_toList, Finset.mem_filter,
      and_iff_right (Finset.mem_univ bus)]
  have hnews := news_perm hforest hdevices hbuses hmem
  refine ⟨buses, fun bus => real (nodeOf k bus).1, fun d =>
    real (endRequest k d).key, ctrlTree k,
    hbuses, hmem, fun bus hbus => ?_, fun d hd => ?_, fun d hd => ?_, ?_, ?_⟩
  · obtain ⟨info, hinfo⟩ :=
      isRead_of_busNode (hforest.entrySound _) (hforest.busNode_eq bus)
    refine ⟨(nodeOf k bus).1, info, by rw [hforest.busNode_eq, ← hinfo], ?_⟩
    have hplaced :=
      hnews.mem_iff.mpr (List.mem_append_left _ (List.mem_map_of_mem hbus))
    refine (hreal _ hplaced info hinfo).trans ?_
    rw [busRequest]
    cases busAbove k bus with
    | none => exact congrArg (· ++ [info]) hsystem
    | some above => rfl
  · obtain ⟨dev, pdev, bus, line, address, hview⟩ :=
      exists_view hforest hdevices hd
    obtain ⟨details, hdetails⟩ := isRead_pciDevDetails (hforest.functions pdev)
    obtain ⟨info, hinfo⟩ : IsRead (endpointInfo k pdev address d) :=
      ⟨_, Fallible.bind_eq_ok.mpr ⟨details, hdetails, rfl⟩⟩
    refine ⟨dev, pdev, bus, address, info, hview.found, hview.onBus,
      hview.hasAddress, hinfo, ?_⟩
    have hplaced :=
      hnews.mem_iff.mpr (List.mem_append_right _ (List.mem_map_of_mem hd))
    have hstep : real (endRequest k d).key = real (endRequest k d).parent ++
        [info] :=
      hreal _ hplaced info (by rw [hview.request]; exact hinfo)
    have hparent : (endRequest k d).parent = (nodeOf k bus).1 := by
      rw [hview.request]
    rwa [hparent] at hstep
  · obtain ⟨dev, pdev, bus, line, address, hview⟩ :=
      exists_view hforest hdevices hd
    exact ⟨dev, pdev, hview.found, hview.ctrl⟩
  · have hhung : (devices.flatMap (movesOf k)).flatMap (hung real) =
        devices.flatMap fun d =>
        (chains (ctrlTree k d)).map (real (endRequest k d).key ++ ·) := by
      rw [List.flatMap_assoc]
      refine List.flatMap_congr fun d hd => ?_
      obtain ⟨dev, pdev, bus, line, address, hview⟩ :=
        exists_view hforest hdevices hd
      rw [hview.moves, flatMap_hung_movesOn, lastKey_append, hview.request]
    have hplaced := hnews.map fun r => real r.key
    rw [List.map_append, List.map_map, List.map_map] at hplaced
    rw [hhung] at hperm
    rw [← hroot]
    exact hperm.trans ((hplaced.append_right _).cons _)
  · have hnone :
        (devices.flatMap fun d =>
        (movesOf k d).flatMap (hungKeys TopologyInfo.id)).filter
        (fun id => decide (IsPathId id)) = [] :=
      List.filter_eq_nil_iff.mpr fun id hid hpath =>
        not_isPathId_of_hung hid (of_decide_eq_true hpath)
    have hids := (idsOf_topology h).filter fun id => decide (IsPathId id)
    rw [List.filter_append, hnone, List.append_nil] at hids
    exact hids.nodup_iff.mpr ((nodup_news (List.nodup_singleton _)).filter _)

omit [Fintype B] hforest in
/-- The order of the devices does not matter. -/
theorem OnFunctions.perm {devices' : List PyText} (hp : devices.Perm devices') :
    OnFunctions k devices' where
  nodup := hp.nodup_iff.mp hdevices.nodup
  found d hd := hdevices.found d (hp.mem_iff.mpr hd)
  apart d hd e he := hdevices.apart d (hp.mem_iff.mpr hd) e (hp.mem_iff.mpr he)
  noBridge d hd := hdevices.noBridge d (hp.mem_iff.mpr hd)

/-- **The order of the devices** is in the order of siblings only. -/
theorem alike_of_perm_devices {devices' : List PyText}
    (hp : devices.Perm devices') {t t' : Topology}
    {backendKind : PyText} (h : buildTopology k devices backendKind = .ok t)
    (h' : buildTopology k devices' backendKind = .ok t') :
    RoseTree.Alike t.root t'.root := by
  obtain ⟨-, nodes, hgrow, hroot⟩ := buildTopology_root.mp ⟨t, h, rfl⟩
  obtain ⟨-, nodes', hgrow', hroot'⟩ := buildTopology_root.mp ⟨t', h', rfl⟩
  rw [← hroot, ← hroot']
  refine IndexedTree.alike_grow (hp.flatMap_right _) hgrow hgrow'
    (List.nodup_singleton _)
    isPathId_index (placed_moves devices) (placed_moves devices')
      (proper_moves devices) ?_
  exact fun r q hr hq =>
    eq_of_key hforest hdevices (mem_requests.mpr hr) (mem_requests.mpr hq)

/-- **The topology is the merge of the bus paths.** -/
theorem topology_merges_paths (backendKind : PyText) :
    ∃ t, buildTopology k devices backendKind = .ok t ∧
      IsMerge k devices t.root ∧
      ∀ devices', devices.Perm devices' →
        ∃ t', buildTopology k devices' backendKind = .ok t' ∧
          RoseTree.Alike t.root t'.root := by
  obtain ⟨t, ht⟩ := exists_buildTopology_of_forest hforest hdevices backendKind
  refine ⟨t, ht, isMerge_of_buildTopology hforest hdevices ht,
    fun devices' hp => ?_⟩
  obtain ⟨t', ht'⟩ :=
    exists_buildTopology_of_forest hforest (hdevices.perm hp) backendKind
  exact ⟨t', ht', alike_of_perm_devices hforest hdevices hp ht ht'⟩

end

end

/-! ### A bridge with two disks -/

/-- The sample is a forest. -/
theorem sampleKernel_forest (subsys₀ subsys₁ : NvmeSubsystem) :
    PciForest (sampleKernel subsys₀ subsys₁) where
  buses
    | 0 => sampleBus_sound 0 none
    | 1 => sampleBus_sound 1 (some 0)
  functions
    | 0 => samplePci_sound 0 8 0x060400
    | 1 => samplePci_sound 1 0 0x010802
    | 2 => samplePci_sound 1 8 0x010802
  acyclic := by
    refine acyclic_of_rank Fin.val fun b a h => ?_
    match b with
    | 0 => cases h
    | 1 =>
        cases Option.some.inj h
        exact Nat.zero_lt_one
  busValue := of_decide_eq_true rfl
  busNumber := of_decide_eq_true rfl
  address := of_decide_eq_true rfl
  oneBus := of_decide_eq_true rfl

/-- Its devices are functions of it. -/
theorem sampleKernel_onFunctions {subsys₀ subsys₁ : NvmeSubsystem}
    (h₀ : SubsysSound subsys₀)
    (h₁ : SubsysSound subsys₁) :
    OnFunctions (sampleKernel subsys₀ subsys₁) ["nvme0".toList,
      "nvme1".toList] where
  nodup := by decide
  found := by
    intro d hd
    rcases List.mem_pair.mp hd with rfl | rfl
    · exact ⟨_, 1, rfl, sampleDev_sound 1 h₀, sampleDev_shifts 1 subsys₀⟩
    · exact ⟨_, 2, rfl, sampleDev_sound 2 h₁, sampleDev_shifts 2 subsys₁⟩
  apart := by
    intro d hd e he dev dev' pdev hfind hfind'
    rcases List.mem_pair.mp hd with rfl | rfl <;>
      rcases List.mem_pair.mp he with rfl | rfl
    · rfl
    · cases Except.ok.inj hfind
      cases Except.ok.inj hfind'
    · cases Except.ok.inj hfind
      cases Except.ok.inj hfind'
    · rfl
  noBridge := by
    intro d hd dev pdev hfind bus hbridge
    rcases List.mem_pair.mp hd with rfl | rfl <;> cases Except.ok.inj hfind <;>
      match bus with
      | 0 => cases hbridge
      | 1 => cases hbridge

/-- The two disks in either order. -/
theorem sampleKernel_merges : ∃ t,
    buildTopology (sampleKernel (sampleSubsys 0x4000 0) (sampleSubsys 0x5000 1))
      ["nvme0".toList, "nvme1".toList] "drgn".toList = .ok t ∧
    IsMerge (sampleKernel (sampleSubsys 0x4000 0) (sampleSubsys 0x5000 1))
      ["nvme0".toList, "nvme1".toList] t.root ∧
    ∃ t', buildTopology
      (sampleKernel (sampleSubsys 0x4000 0) (sampleSubsys 0x5000 1))
      ["nvme1".toList, "nvme0".toList] "drgn".toList = .ok t' ∧
        RoseTree.Alike t.root t'.root := by
  obtain ⟨t, ht, hmerge, hperm⟩ :=
    topology_merges_paths (sampleKernel_forest _ _)
    (sampleKernel_onFunctions (sampleSubsys_sound 0x4000 0)
      (sampleSubsys_sound 0x5000 1)) "drgn".toList
  exact ⟨t, ht, hmerge, hperm _ (List.Perm.swap _ _ _)⟩

end Telemetryd
