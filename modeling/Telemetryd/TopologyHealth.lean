import Telemetryd.TopologyFaults

/-!
# Devices whose reads succeed

Where none of the reads of a device fail, its chain of buses leads up to a root
bus, and all that `build_topology` reads for it, guarded or not, is there.
-/

namespace Telemetryd

open PyText RoseTree IndexedTree

section

variable {B P : Type} {k : Kernel B P}

/-! ### Chains of buses -/

/-- **One round of the loop of `_bus_chain`**: it stops without the bus, it ends
at a root bus, or it goes on above a bridge. -/
theorem busChainFrom_succ {fuel : Nat} {seen : List Nat} {bus : B}
    {l : List (B × Option P)}
    (h : busChainFrom k (fuel + 1) seen bus = .ok l) :
    l = [] ∨ l = [(bus, none)] ∨ ∃ addr bridge above chain,
      (k.bus bus).value = .ok addr ∧
      addr ∉ seen ∧ (k.bus bus).self = .ok (.ok (some bridge)) ∧
        (k.pci bridge).bus = .ok above ∧
      busChainFrom k fuel (addr :: seen) above = .ok chain ∧
        l = (bus, some bridge) :: chain := by
  rw [busChainFrom] at h
  cases hvalue : (k.bus bus).value with
  | error e =>
      rw [hvalue] at h
      exact Or.inl (Except.ok.inj h).symm
  | ok addr =>
      rw [hvalue] at h
      dsimp only [Except.toOption] at h
      by_cases hseen : addr ∈ seen
      · rw [if_pos hseen] at h
        exact Or.inl (Except.ok.inj h).symm
      · rw [if_neg hseen] at h
        cases hself : (k.bus bus).self with
        | error e =>
            rw [hself] at h
            exact Or.inr (Or.inl (Except.ok.inj h).symm)
        | ok pointer =>
            rw [hself] at h
            obtain ⟨bridge, rfl, h⟩ := Fallible.bind_eq_ok.mp h
            cases bridge with
            | none => exact Or.inr (Or.inl (Except.ok.inj h).symm)
            | some bridge =>
                have hbind : ((k.pci bridge).bus >>= fun above =>
                    busChainFrom k fuel (addr :: seen) above >>= fun chain =>
                      pure ((bus, some bridge) :: chain)) = Except.ok l := h
                simp only [Fallible.bind_eq_ok, Fallible.pure_eq_ok] at hbind
                obtain ⟨above, habove, chain, hchain, rfl⟩ := hbind
                exact Or.inr (Or.inr ⟨addr, bridge, above, chain, rfl, hseen,
                  rfl, habove, hchain, rfl⟩)

/-- A chain that leads to a root bus starts at its bus, and has the bus of each
bridge on it. -/
theorem busChainFrom_linked {fuel : Nat} {seen : List Nat} {bus root : B}
    {l : List (B × Option P)}
    (h : busChainFrom k fuel seen bus = .ok l)
    (hlast : l.getLast? = some (root, none)) :
    bus ∈ l.map Prod.fst ∧ ∀ b bridge, (b, some bridge) ∈ l →
      ∃ above, (k.pci bridge).bus = .ok above ∧ above ∈ l.map Prod.fst := by
  induction fuel generalizing seen bus l with
  | zero =>
      rw [← Except.ok.inj h] at hlast
      cases hlast
  | succ fuel ih =>
      rcases busChainFrom_succ h with rfl | rfl | ⟨addr, bridge, above, chain,
        -, -, -, habove, hchain, rfl⟩
      · cases hlast
      · refine ⟨List.mem_singleton_self _, fun b bridge hb => ?_⟩
        cases List.mem_singleton.mp hb
      · cases chain with
        | nil => cases hlast
        | cons entry chain =>
            rw [List.getLast?_cons_cons] at hlast
            obtain ⟨hmem, hlinked⟩ := ih hchain hlast
            refine ⟨List.mem_cons_self, fun b p hb => ?_⟩
            rcases List.mem_cons.mp hb with heq | hb
            · cases heq
              exact ⟨above, habove, List.mem_cons_of_mem _ hmem⟩
            · obtain ⟨above', hbus, hmem'⟩ := hlinked b p hb
              exact ⟨above', hbus, List.mem_cons_of_mem _ hmem'⟩

/-! ### Sound entries -/

/-- A sound PCI device on a numbered bus has an address. -/
theorem AddressReads.of_sound {p : P} (h : PciSound (k.pci p)) {bus : B}
    (hbus : (k.pci p).bus = .ok bus)
    (hnumber : IsRead (k.bus bus).number) : AddressReads k p :=
  ⟨h.devfn, bus, hbus, hnumber⟩

/-- The details of a sound PCI device can be read. -/
theorem isRead_pciDevDetails {pdev : PciDev B} (h : PciSound pdev) :
    IsRead (pciDevDetails pdev) := by
  obtain ⟨value, hvalue⟩ := h.value
  exact ⟨_, Fallible.bind_eq_ok.mpr ⟨value, hvalue, rfl⟩⟩

/-- What is said of a sound bus can be read. -/
theorem isRead_of_busNode {entry : B × Option P} (h : EntrySound k entry)
    {e : PyText × Read TopologyInfo}
    (he : busNode k entry = .ok e) : IsRead e.2 := by
  obtain ⟨bus, bridge⟩ := entry
  obtain ⟨hbus, hbridge⟩ := h
  obtain ⟨number, hnumber⟩ := hbus.number
  cases bridge with
  | none =>
      obtain ⟨_, -, he⟩ := Fallible.bind_eq_ok.mp he
      obtain ⟨value, hvalue⟩ := hbus.value
      obtain ⟨name, hname, -⟩ := hbus.name
      rw [← Except.ok.inj he]
      exact ⟨_, Fallible.bind_eq_ok.mpr ⟨name, hname,
        Fallible.bind_eq_ok.mpr ⟨number, hnumber,
        Fallible.bind_eq_ok.mpr ⟨value, hvalue, rfl⟩⟩⟩⟩
  | some bridge =>
      obtain ⟨address, -, he⟩ := Fallible.bind_eq_ok.mp he
      obtain ⟨details, hdetails⟩ := isRead_pciDevDetails (hbridge bridge rfl)
      rw [← Except.ok.inj he]
      exact ⟨_, Fallible.bind_eq_ok.mpr ⟨details, hdetails,
        Fallible.bind_eq_ok.mpr ⟨number, hnumber, rfl⟩⟩⟩

/-! ### Sound controllers -/

/-- The shifts of the namespaces are not negative. -/
def ShiftsSound (dev : NvmeDevObject P) : Prop :=
  ∀ ctrl list, dev.ctrl = .ok ctrl → ctrl.namespaces = .ok list →
    ∀ ns ∈ list, ∀ n, ns.lbaShift = .ok n → 0 ≤ n

/-- A sound namespace with a sound shift has a node. -/
theorem NsReads.of_sound {ns : NvmeNs} (h : NsSound ns)
    (hshift : ∀ n, ns.lbaShift = .ok n → 0 ≤ n) :
    NsReads ns where
  head := by
    intro pointer hpointer
    obtain ⟨_, head, hhead, rfl, -⟩ := h.head
    rw [hhead] at hpointer
    exact ⟨head, (Except.ok.inj hpointer).symm⟩
  lbaShift := by
    obtain ⟨n, hn⟩ := h.lbaShift
    rw [hn]
    exact hshift n hn
  value := h.value

/-- A sound subsystem has a node. -/
theorem SubsysReads.of_sound {subsys : NvmeSubsystem} (h : SubsysSound subsys) :
    SubsysReads subsys where
  subnqn := h.subnqn.imp fun _ => And.left
  model := h.model.imp fun _ => And.left
  serial := h.serial.imp fun _ => And.left
  firmwareRev := h.firmwareRev.imp fun _ => And.left
  value := h.value

/-- A sound controller has a node. -/
theorem CtrlReads.of_sound {ctrl : NvmeCtrl} (h : CtrlSound ctrl)
    (hshifts : ∀ list, ctrl.namespaces = .ok list →
      ∀ ns ∈ list, ∀ n, ns.lbaShift = .ok n → 0 ≤ n) :
    CtrlReads ctrl where
  subsys := by
    intro pointer hpointer
    obtain ⟨_, subsys, hsubsys, rfl, hsound⟩ := h.subsys
    rw [hsubsys] at hpointer
    exact ⟨subsys, (Except.ok.inj hpointer).symm, fun s hs =>
      .of_sound (hsound s hs)⟩
  namespaces := by
    obtain ⟨list, hlist, hsound⟩ := h.namespaces
    rw [hlist]
    exact fun ns hns => .of_sound (hsound ns hns) (hshifts list hlist ns hns)
  state := h.state.imp fun _ => And.left

variable [Fintype B]

/-- **The reads for the moves of a healthy device** succeed. -/
theorem Healthy.deviceReads {device : PyText} (h : Healthy k device)
    {dev : NvmeDevObject P} {pdev : P}
    (hfind : findDevice k device = .ok (dev, pdev))
    (hshifts : ShiftsSound dev) :
    DeviceReads k dev pdev := by
  obtain ⟨_, _, root, chain, hfind', hchain, hentries, hpdev, hdev⟩ := h
  rw [hfind] at hfind'
  cases hfind'
  have hnumber : ∀ bus ∈ ((root, none) :: chain).map Prod.fst,
      IsRead (k.bus bus).number := by
    intro bus hbus
    obtain ⟨entry, hentry, rfl⟩ := List.mem_map.mp hbus
    exact (hentries entry hentry).1.number
  -- the loop went up to the root, so that the bus of each bridge is on the chain
  simp only [busChain, Fallible.bind_eq_ok, Fallible.pure_eq_ok] at hchain
  obtain ⟨bus, hbus, up, hup, hreverse⟩ := hchain
  have hlast : up.getLast? = some (root, none) := by
    rw [← List.head?_reverse, hreverse]
    rfl
  have hmem : ∀ entry, entry ∈ up ↔ entry ∈ (root, none) :: chain := by
    intro entry
    rw [← hreverse, List.mem_reverse]
  have hmap : ∀ b, b ∈ up.map Prod.fst →
      b ∈ ((root, none) :: chain).map Prod.fst := by
    intro b hb
    obtain ⟨entry, hentry, rfl⟩ := List.mem_map.mp hb
    exact List.mem_map_of_mem ((hmem entry).mp hentry)
  obtain ⟨hfirst, hlinked⟩ := busChainFrom_linked hup hlast
  obtain ⟨ctrl, hctrl, hsound⟩ := hdev.ctrl
  refine ⟨⟨(root, none) :: chain, ?_, fun entry hentry => ?_⟩, ?_,
    ⟨ctrl, hctrl, ?_⟩, hdev.value⟩
  · simp only [busChain, Fallible.bind_eq_ok, Fallible.pure_eq_ok]
    exact ⟨bus, hbus, up, hup, hreverse⟩
  · obtain ⟨b, bridge⟩ := entry
    cases bridge with
    | none => exact (hentries _ hentry).1.number
    | some bridge =>
        obtain ⟨above, habove, hin⟩ := hlinked b bridge ((hmem _).mpr hentry)
        exact .of_sound ((hentries _ hentry).2 bridge rfl) habove
          (hnumber above (hmap above hin))
  · exact .of_sound hpdev hbus (hnumber bus (hmap bus hfirst))
  · exact .of_sound hsound fun list => hshifts ctrl list hctrl

/-- **The nodes on the path of a healthy device** can be read. -/
theorem Healthy.isRead {device : PyText} (h : Healthy k device) :
    ∀ r ∈ asks k [device], IsRead r.describe := by
  obtain ⟨dev, pdev, root, chain, hfind, hchain, hentries, hpdev, -⟩ := h
  intro r hr
  rcases movesOf_eq (k := k) device with hmoves | ⟨_, _, steps, ctrl, hfind',
    hsteps, -, hmoves⟩
  · rw [asks, List.flatMap_singleton, hmoves] at hr
    cases hr
  · rw [hfind] at hfind'
    cases hfind'
    rw [asks_eq_path hmoves] at hr
    have hstep := exists_step_of_mem_path hr
    simp only [pathOf, Fallible.bind_eq_ok, Fallible.pure_eq_ok] at hsteps
    obtain ⟨_, hchain', buses, hbuses, address, -, rfl⟩ := hsteps
    rw [hchain] at hchain'
    cases hchain'
    rcases List.mem_append.mp hstep with hstep | hstep
    · have hall := Fallible.mapM_eq_ok_iff_map.mp hbuses
      obtain ⟨entry, hentry, hok⟩ :=
        List.mem_map.mp (hall ▸ List.mem_map_of_mem (f := Except.ok) hstep)
      exact isRead_of_busNode (hentries entry hentry) hok
    · have hdescribe : r.describe = endpointInfo k pdev address device :=
        congrArg Prod.snd (List.mem_singleton.mp hstep)
      obtain ⟨details, hdetails⟩ := isRead_pciDevDetails hpdev
      rw [hdescribe]
      exact ⟨_, Fallible.bind_eq_ok.mpr ⟨details, hdetails, rfl⟩⟩

/-- **A tree is built** for devices whose reads succeed. -/
theorem exists_buildTopology {devices : List PyText}
    (hhealthy : ∀ d ∈ devices, Healthy k d)
    (hshifts : ∀ d ∈ devices, ∀ dev pdev, findDevice k d = .ok (dev, pdev) →
      ShiftsSound dev)
    (backendKind : PyText) :
    ∃ t, buildTopology k devices backendKind = .ok t := by
  refine exists_topology_iff.mpr ⟨fun d hd dev pdev hfind =>
    (hhealthy d hd).deviceReads hfind (hshifts d hd dev pdev hfind),
      fun r hr => ?_⟩
  obtain ⟨d, hd, hask⟩ := mem_asks.mp (List.mem_of_find?_eq_some hr)
  exact (hhealthy d hd).isRead r hask

end

/-- The sample has no namespaces, so its shifts are sound. -/
theorem sampleDev_shifts (pdev : Fin 3) (subsys : NvmeSubsystem) :
    ShiftsSound (sampleDev pdev subsys) := by
  intro ctrl list hctrl hlist ns hns
  cases Except.ok.inj hctrl
  cases Except.ok.inj hlist
  cases hns

end Telemetryd
