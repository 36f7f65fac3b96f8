import Telemetryd.TopologyHealth

/-!
# The ids of the nodes

`models.py` calls the id of a node a stable key, and the web page keeps which
nodes are expanded and selected under their ids.  The nodes of the PCI part are
looked up by their ids, so that each has its own.  The others are made anew for
each controller, and the id of a subsystem says its instance only, not the
controller: two controllers of one subsystem give two nodes with one id.
-/

namespace Telemetryd

open PyText Utf8 RoseTree IndexedTree

/-! ### Names -/

/-- What the id of a node at or below a controller is made of. -/
inductive NodeName where
  | ctrl (device : PyText)
  | subsys (instanceNr : Int)
  | ns (disk : PyText)
  | queues (device : PyText)
  | queue (device : PyText) (qid : Nat)

/-- What is before the colon of an id. -/
def NodeName.tag : NodeName → PyText
  | .ctrl _ => "ctrl".toList
  | .subsys _ => "subsys".toList
  | .ns _ => "ns".toList
  | .queues _ => "queues".toList
  | .queue _ _ => ['q']

/-- What is after it. -/
def NodeName.rest : NodeName → PyText
  | .ctrl device => device
  | .subsys instanceNr => ofInt instanceNr
  | .ns disk => disk
  | .queues device => device
  | .queue device qid => device ++ ':' :: ofNat qid

/-- The id of a node. -/
def NodeName.id (name : NodeName) : PyText := name.tag ++ ':' :: name.rest

/-- The kind of a node can be told from its id. -/
theorem NodeName.idTag_id (name : NodeName) : idTag name.id = name.tag := by
  cases name <;> rfl

/-- A numeral has no colon. -/
theorem colon_notMem_ofNat (n : Nat) : ':' ∉ ofNat n := fun h =>
  absurd (isDigit_of_mem_ofNat h) (by decide)

/-- **The id says the name.** -/
theorem NodeName.id_injective : Function.Injective NodeName.id := by
  intro x y h
  have htag := congrArg idTag h
  rw [idTag_id, idTag_id] at htag
  unfold NodeName.id at h
  rw [htag, List.append_cancel_left_eq, List.cons.injEq] at h
  have hrest := h.2
  cases x <;> cases y <;> try exact absurd htag (of_decide_eq_false rfl)
  case ctrl.ctrl => exact congrArg _ hrest
  case subsys.subsys => exact congrArg _ (ofInt_injective hrest)
  case ns.ns => exact congrArg _ hrest
  case queues.queues => exact congrArg _ hrest
  case queue.queue d m e n =>
      obtain ⟨hd, hn⟩ :=
        append_last_inj (colon_notMem_ofNat m) (colon_notMem_ofNat n) hrest
      rw [hd, ofNat_injective hn]

/-! ### The names of a controller -/

section

variable {P : Type}

/-- The name of a disk. -/
def NvmeNs.diskText (ns : NvmeNs) : PyText :=
  tryRead (ns.diskName.map decode) []

/-- The subsystem of a controller, if it can be read and there is one. -/
def NvmeCtrl.subsysOf (ctrl : NvmeCtrl) : Option NvmeSubsystem :=
  match ctrl.subsys with
  | .ok (.ok subsys) => subsys
  | _ => none

/-- The namespaces of a controller, none if they cannot be read. -/
def NvmeCtrl.namespacesOf (ctrl : NvmeCtrl) : List NvmeNs :=
  tryRead ctrl.namespaces []

/-- The number of a subsystem, 0 if it cannot be read. -/
def NvmeSubsystem.instanceOf (subsys : NvmeSubsystem) : Int :=
  tryRead subsys.instanceNr 0

/-- The names of the node of a controller and of those below it. -/
def namesOf (device : PyText) (dev : NvmeDevObject P) (ctrl : NvmeCtrl) :
    List NodeName :=
  .ctrl device :: (ctrl.subsysOf.toList.map (fun s => .subsys s.instanceOf) ++
    ctrl.namespacesOf.map (fun ns => .ns ns.diskText) ++
    if tryRead dev.onlineQueues 0 = 0 then [] else
      .queues device :: (queueIds dev).map (.queue device))

/-- The id under a controller for its subsystem. -/
theorem subsystemNode_flatMap_ids {device : PyText} {ctrl : NvmeCtrl}
    {node : Option TopologyNode}
    (h : subsystemNode ctrl device = .ok node) : node.toList.flatMap idsOf
      = ctrl.subsysOf.toList.map fun s =>
        (NodeName.subsys s.instanceOf).id := by
  cases node with
  | some t =>
      obtain ⟨subsys, hsubsys, hids⟩ := subsystemNode_ids h
      rw [Option.toList_some, List.flatMap_singleton, hids, NvmeCtrl.subsysOf,
        hsubsys]
      rfl
  | none =>
      have hnone : ctrl.subsysOf = none := by
        unfold subsystemNode at h
        unfold NvmeCtrl.subsysOf
        cases hsubsys : ctrl.subsys with
        | error e => rfl
        | ok pointer =>
            rw [hsubsys] at h
            obtain ⟨subsys, rfl, h⟩ := Fallible.bind_eq_ok.mp h
            cases subsys with
            | none => rfl
            | some subsys =>
                have hbind : (subsystemInfo subsys device >>= fun info =>
                    pure (some (RoseTree.node info []))) = Except.ok none := h
                obtain ⟨info, -, hsome⟩ := Fallible.bind_eq_ok.mp hbind
                cases hsome
      rw [hnone]
      rfl

/-- The ids under a controller for its namespaces. -/
theorem namespaceNodes_flatMap_ids {device : PyText} {ctrl : NvmeCtrl}
    {nodes : List TopologyNode}
    (h : namespaceNodes ctrl device = .ok nodes)
    (hdisk : ∀ ns ∈ ctrl.namespacesOf, IsRead ns.diskName) :
    nodes.flatMap idsOf = ctrl.namespacesOf.map fun ns =>
      (NodeName.ns ns.diskText).id := by
  unfold namespaceNodes at h
  unfold NvmeCtrl.namespacesOf at hdisk ⊢
  generalize tryRead ctrl.namespaces [] = list at h hdisk
  induction list generalizing nodes with
  | nil =>
      rw [List.mapM_nil, Fallible.pure_eq_ok] at h
      rw [← h]
      rfl
  | cons ns list ih =>
      obtain ⟨t, ts, ht, hts, rfl⟩ := Fallible.mapM_cons_eq_ok.mp h
      obtain ⟨⟨bytes, hbytes⟩, hothers⟩ := List.forall_mem_cons.mp hdisk
      obtain ⟨nsid, -, hids⟩ := namespaceNode_ids ht
      rw [List.flatMap_cons, ih hts hothers, hids, List.map_cons,
        NvmeNs.nodeName, NvmeNs.diskText, hbytes]
      rfl

/-- The ids under a controller for its queues. -/
theorem queueGroupNode_flatMap_ids (dev : NvmeDevObject P) (device : PyText) :
    (queueGroupNode dev device).toList.flatMap idsOf =
      (if tryRead dev.onlineQueues 0 = 0 then [] else
        NodeName.queues device :: (queueIds dev).map (.queue device)).map
          NodeName.id := by
  cases hnode : queueGroupNode dev device with
  | none =>
      unfold queueGroupNode at hnode
      dsimp only at hnode
      split at hnode
      · next h =>
        rw [if_pos h]
        rfl
      · cases hnode
  | some t =>
      have hids := queueGroupNode_ids hnode
      unfold queueGroupNode at hnode
      dsimp only at hnode
      split at hnode
      · cases hnode
      · next h =>
        rw [if_neg h, Option.toList_some, List.flatMap_singleton, hids,
          List.map_cons, List.map_map]
        rfl

/-- **The ids of a controller's tree** are those of its names. -/
theorem idsOf_ctrlNode {dev : NvmeDevObject P} {device : PyText}
    {ctrl : NvmeCtrl} {t : TopologyNode}
    (hctrl : dev.ctrl = .ok ctrl)
    (hdisk : ∀ ns ∈ ctrl.namespacesOf, IsRead ns.diskName)
    (h : ctrlNode dev device = .ok t) :
    idsOf t = (namesOf device dev ctrl).map NodeName.id := by
  obtain ⟨ctrl', subsys, nsNodes, hctrl', hsubsys, hns, hids⟩ := ctrlNode_ids h
  rw [hctrl] at hctrl'
  cases hctrl'
  rw [hids, subsystemNode_flatMap_ids hsubsys,
    namespaceNodes_flatMap_ids hns hdisk,
    queueGroupNode_flatMap_ids, namesOf, List.map_cons, List.map_append,
    List.map_append, List.map_map,
    List.map_map]
  rfl

/-- What a name says is there. -/
def NodeName.IsOf (device : PyText) (dev : NvmeDevObject P) (ctrl : NvmeCtrl) :
    NodeName → Prop
  | .ctrl d => d = device
  | .subsys n => ∃ s ∈ ctrl.subsysOf, s.instanceOf = n
  | .ns disk => ∃ ns ∈ ctrl.namespacesOf, ns.diskText = disk
  | .queues d => d = device ∧ tryRead dev.onlineQueues 0 ≠ 0
  | .queue d qid =>
      d = device ∧ tryRead dev.onlineQueues 0 ≠ 0 ∧ qid ∈ queueIds dev

/-- The names below a controller are those of its parts. -/
theorem mem_namesOf {device : PyText} {dev : NvmeDevObject P} {ctrl : NvmeCtrl}
    {name : NodeName} :
    name ∈ namesOf device dev ctrl ↔ name.IsOf device dev ctrl := by
  unfold namesOf
  by_cases honline : tryRead dev.onlineQueues 0 = 0
  · cases name <;> simp [NodeName.IsOf, honline]
  · cases name <;> simp [NodeName.IsOf, honline, eq_comm, and_comm]

/-- They differ if the disks do and the queues do. -/
theorem nodup_namesOf {device : PyText} {dev : NvmeDevObject P}
    {ctrl : NvmeCtrl}
    (hdisks : (ctrl.namespacesOf.map NvmeNs.diskText).Nodup)
    (hqueues : (queueIds dev).Nodup) :
    (namesOf device dev ctrl).Nodup := by
  have hns : (ctrl.namespacesOf.map fun ns =>
      NodeName.ns ns.diskText).Nodup := by
    have hnodup := hdisks.map (f := NodeName.ns) fun _ _ h => NodeName.ns.inj h
    rwa [List.map_map] at hnodup
  have hsubsys :
      (ctrl.subsysOf.toList.map fun s =>
      NodeName.subsys s.instanceOf).Nodup := by
    cases ctrl.subsysOf with
    | none => exact List.nodup_nil
    | some s => exact List.nodup_singleton _
  have hqueue : (if tryRead dev.onlineQueues 0 = 0 then [] else
      NodeName.queues device :: (queueIds dev).map (.queue device)).Nodup := by
    split
    · exact List.nodup_nil
    · refine List.nodup_cons.mpr ⟨by simp, hqueues.map fun _ _ h =>
        (NodeName.queue.inj h).2⟩
  refine List.nodup_cons.mpr ⟨?_,
    List.nodup_append'.mpr ⟨List.nodup_append'.mpr ⟨hsubsys, hns, ?_⟩,
    hqueue, ?_⟩⟩
  · simp only [List.mem_append, List.mem_map, not_or]
    refine ⟨by simp, ?_⟩
    split <;> simp
  · intro x hx hx'
    obtain ⟨s, -, rfl⟩ := List.mem_map.mp hx
    simp at hx'
  · intro x hx hx'
    split at hx'
    · cases hx'
    · rcases List.mem_append.mp hx with hx | hx
      · obtain ⟨s, -, rfl⟩ := List.mem_map.mp hx
        simp at hx'
      · obtain ⟨ns, -, rfl⟩ := List.mem_map.mp hx
        simp at hx'

/-- Two controllers have a name in common only if a subsystem or a disk gives
it. -/
theorem disjoint_namesOf {device device' : PyText} {dev dev' : NvmeDevObject P}
    {ctrl ctrl' : NvmeCtrl}
    (hne : device ≠ device')
    (hdisks : ∀ ns ∈ ctrl.namespacesOf, ∀ ns' ∈ ctrl'.namespacesOf,
      ns.diskText ≠ ns'.diskText) :
    (namesOf device dev ctrl).Disjoint (namesOf device' dev' ctrl') ↔
      ∀ s ∈ ctrl.subsysOf, ∀ s' ∈ ctrl'.subsysOf,
        s.instanceOf ≠ s'.instanceOf := by
  constructor
  · intro h s hs s' hs' heq
    have hname : NodeName.subsys s.instanceOf ∈ namesOf device dev ctrl :=
      mem_namesOf.mpr ⟨s, hs, rfl⟩
    exact h hname (mem_namesOf.mpr ⟨s', hs', heq.symm⟩)
  · intro h name hname hname'
    have hof := mem_namesOf.mp hname
    have hof' := mem_namesOf.mp hname'
    cases name with
    | ctrl d => exact hne (hof.symm.trans hof')
    | subsys n =>
        obtain ⟨s, hs, heq⟩ := hof
        obtain ⟨s', hs', heq'⟩ := hof'
        exact h s hs s' hs' (heq.trans heq'.symm)
    | ns disk =>
        obtain ⟨ns, hns, heq⟩ := hof
        obtain ⟨ns', hns', heq'⟩ := hof'
        exact hdisks ns hns ns' hns' (heq.trans heq'.symm)
    | queues d => exact hne (hof.1.symm.trans hof'.1)
    | queue d qid => exact hne (hof.1.symm.trans hof'.1)

end

/-! ### The ids of the tree -/

section

variable {B P : Type} {k : Kernel B P} {devices : List PyText}

/-- The controller of a device that is found. -/
def HasCtrl (k : Kernel B P) (device : PyText) (dev : NvmeDevObject P)
    (ctrl : NvmeCtrl) : Prop :=
  (∃ pdev, findDevice k device = .ok (dev, pdev)) ∧ dev.ctrl = .ok ctrl

/-- A device has one controller. -/
theorem HasCtrl.unique {device : PyText} {dev dev' : NvmeDevObject P}
    {ctrl ctrl' : NvmeCtrl}
    (h : HasCtrl k device dev ctrl) (h' : HasCtrl k device dev' ctrl') :
    dev = dev' ∧ ctrl = ctrl' := by
  obtain ⟨⟨pdev, hfind⟩, hctrl⟩ := h
  obtain ⟨⟨pdev', hfind'⟩, hctrl'⟩ := h'
  rw [hfind] at hfind'
  cases hfind'
  rw [hctrl] at hctrl'
  exact ⟨rfl, Except.ok.inj hctrl'⟩

variable [Fintype B]

/-- **No id is used twice** if none is among those below the endpoints. -/
theorem nodup_idsOf_iff {t : Topology} {backendKind : PyText}
    (h : buildTopology k devices backendKind = .ok t) : (idsOf t.root).Nodup ↔
      (devices.flatMap fun d =>
        (movesOf k d).flatMap (hungKeys TopologyInfo.id)).Nodup := by
  rw [(idsOf_topology h).nodup_iff]
  refine ⟨fun hnodup => hnodup.of_append_right, fun hnodup =>
    List.nodup_append'.mpr
    ⟨nodup_news (List.nodup_singleton _), hnodup, fun id hid hid' => ?_⟩⟩
  have hpath : IsPathId id := by
    rcases List.mem_append.mp hid with hid | hid
    · exact isPathId_index id hid
    · obtain ⟨r, hr, rfl⟩ := List.mem_map.mp hid
      exact (key_of_mem_asks (mem_requests.mpr (place_mem_of_mem_news hr))).1
  exact not_isPathId_of_hung hid' hpath

variable (k devices) in
/-- **What a kernel keeps apart**: two disks have different names, which are
texts, two queues of a device different numbers and two subsystems different
instances.  A shift is not negative. -/
structure Consistent : Prop where
  texts : ∀ d ∈ devices, ∀ dev ctrl, HasCtrl k d dev ctrl →
    ∀ ns ∈ ctrl.namespacesOf, ∀ bytes,
    ns.diskName = .ok bytes → ∃ name, bytes = encode name
  disks : ∀ d ∈ devices, ∀ dev ctrl, HasCtrl k d dev ctrl →
    (ctrl.namespacesOf.map NvmeNs.diskName).Nodup
  disksApart : ∀ d ∈ devices, ∀ e ∈ devices, d ≠ e → ∀ dev ctrl dev' ctrl',
    HasCtrl k d dev ctrl →
    HasCtrl k e dev' ctrl' → ∀ ns ∈ ctrl.namespacesOf,
      ∀ ns' ∈ ctrl'.namespacesOf,
      ns.diskName ≠ ns'.diskName
  queues : ∀ d ∈ devices, ∀ dev ctrl, HasCtrl k d dev ctrl →
    ∀ online, dev.onlineQueues = .ok online →
    ∀ i < online, ∀ j < online, ∀ q q', dev.queues i = .ok q →
      dev.queues j = .ok q' →
      q.qid = q'.qid → i = j
  instances : ∀ d ∈ devices, ∀ e ∈ devices, ∀ dev ctrl dev' ctrl',
    HasCtrl k d dev ctrl →
    HasCtrl k e dev' ctrl' → ∀ s ∈ ctrl.subsysOf, ∀ s' ∈ ctrl'.subsysOf,
      (s.instanceNr = s'.instanceNr ↔ s.value = s'.value)
  shifts : ∀ d ∈ devices, ∀ dev pdev, findDevice k d = .ok (dev, pdev) →
    ShiftsSound dev

variable (k) in
/-- The controllers of two devices belong to one subsystem. -/
def ShareSubsystem (d e : PyText) : Prop :=
  ∃ dev ctrl dev' ctrl', HasCtrl k d dev ctrl ∧ HasCtrl k e dev' ctrl' ∧
    ∃ s ∈ ctrl.subsysOf, ∃ s' ∈ ctrl'.subsysOf, s.value = s'.value

/-- What the reads of a healthy device give for its names. -/
theorem Healthy.exists_ctrl {device : PyText} (h : Healthy k device) :
    ∃ dev ctrl, HasCtrl k device dev ctrl ∧ DevSound dev ∧ CtrlSound ctrl := by
  obtain ⟨dev, pdev, -, -, hfind, -, -, -, hdev⟩ := h
  obtain ⟨ctrl, hctrl, hsound⟩ := hdev.ctrl
  exact ⟨dev, ctrl, ⟨⟨pdev, hfind⟩, hctrl⟩, hdev, hsound⟩

/-- The namespaces of a sound controller are sound. -/
theorem CtrlSound.nsSound {ctrl : NvmeCtrl} (h : CtrlSound ctrl) :
    ∀ ns ∈ ctrl.namespacesOf, NsSound ns := by
  obtain ⟨list, hlist, hsound⟩ := h.namespaces
  rw [NvmeCtrl.namespacesOf, hlist]
  exact hsound

/-- So is its subsystem. -/
theorem CtrlSound.subsysSound {ctrl : NvmeCtrl} (h : CtrlSound ctrl) :
    ∀ s ∈ ctrl.subsysOf, SubsysSound s := by
  obtain ⟨pointer, subsys, hsubsys, rfl, hsound⟩ := h.subsys
  rw [NvmeCtrl.subsysOf, hsubsys]
  exact hsound

/-- The numbers of the queues of a sound device are its own. -/
theorem nodup_queueIds {dev : NvmeDevObject P} (h : DevSound dev)
    (hqueues : ∀ online,
    dev.onlineQueues = .ok online → ∀ i < online, ∀ j < online, ∀ q q',
    dev.queues i = .ok q →
      dev.queues j = .ok q' → q.qid = q'.qid →
        i = j) : (queueIds dev).Nodup := by
  obtain ⟨online, honline, hsound⟩ := h.queues
  unfold queueIds List.Nodup
  rw [honline, List.pairwise_filterMap]
  refine List.nodup_range.imp_of_mem fun {i j} hi hj hne a ha b hb heq => hne ?_
  obtain ⟨q, hq, hsoundq⟩ := hsound i (List.mem_range.mp hi)
  obtain ⟨q', hq', hsoundq'⟩ := hsound j (List.mem_range.mp hj)
  obtain ⟨n, hn⟩ := hsoundq.qid
  obtain ⟨n', hn'⟩ := hsoundq'.qid
  rw [hq] at ha
  rw [hq'] at hb
  have ha : tryRead q.qid i = a := Option.some.inj ha
  have hb : tryRead q'.qid j = b := Option.some.inj hb
  rw [hn] at ha
  rw [hn'] at hb
  refine hqueues online honline i (List.mem_range.mp hi) j
    (List.mem_range.mp hj) q q' hq hq' ?_
  have hsame : n = n' := ha.trans (heq.trans hb.symm)
  rw [hn, hn', hsame]

/-- Texts are told apart as their bytes are. -/
theorem diskName_eq_of_diskText {ns ns' : NvmeNs} (h : NsSound ns)
    (h' : NsSound ns')
    (htext : ∀ bytes, ns.diskName = .ok bytes → ∃ name, bytes = encode name)
    (htext' : ∀ bytes, ns'.diskName = .ok bytes → ∃ name, bytes = encode name)
    (heq : ns.diskText = ns'.diskText) : ns.diskName = ns'.diskName := by
  obtain ⟨bytes, hbytes⟩ := h.diskName
  obtain ⟨bytes', hbytes'⟩ := h'.diskName
  obtain ⟨name, rfl⟩ := htext bytes hbytes
  obtain ⟨name', rfl⟩ := htext' bytes' hbytes'
  have hdecode : decode (encode name) = decode (encode name') := by
    rwa [NvmeNs.diskText, NvmeNs.diskText, hbytes, hbytes'] at heq
  rw [decode_encode, decode_encode] at hdecode
  rw [hbytes, hbytes', hdecode]

/-- Sound subsystems are told apart by their numbers. -/
theorem instanceOf_eq_iff {s s' : NvmeSubsystem} (h : SubsysSound s)
    (h' : SubsysSound s') :
    s.instanceOf = s'.instanceOf ↔ s.instanceNr = s'.instanceNr := by
  obtain ⟨n, hn⟩ := h.instanceNr
  obtain ⟨n', hn'⟩ := h'.instanceNr
  rw [NvmeSubsystem.instanceOf, NvmeSubsystem.instanceOf, hn, hn']
  exact ⟨fun heq => congrArg Except.ok heq, Except.ok.inj⟩

/-- What the moves of a healthy device hang is what its names say. -/
theorem hungKeys_movesOf {device : PyText} {dev : NvmeDevObject P}
    {ctrl : NvmeCtrl}
    (h : Healthy k device) (hctrl : HasCtrl k device dev ctrl)
    (hsound : CtrlSound ctrl)
    (hshifts : ∀ dev pdev, findDevice k device = .ok (dev, pdev) →
      ShiftsSound dev) :
    (movesOf k device).flatMap (hungKeys TopologyInfo.id) =
      (namesOf device dev ctrl).map NodeName.id := by
  obtain ⟨⟨pdev, hfind⟩, hctrl⟩ := hctrl
  have hreads := h.deviceReads hfind (hshifts dev pdev hfind)
  obtain ⟨steps, hsteps⟩ : IsRead (pathOf k device pdev) :=
    isRead_pathOf.mpr ⟨hreads.chain, hreads.address⟩
  obtain ⟨t, ht⟩ : IsRead (ctrlNode dev device) :=
    isRead_ctrlNode.mpr ⟨hreads.ctrl, hreads.value⟩
  have hids :=
    idsOf_ctrlNode hctrl (fun ns hns => (hsound.nsSound ns hns).diskName) ht
  rw [moves_of_found hfind hsteps ht, flatMap_movesOn fun _ => rfl, ← hids]
  rfl

omit [Fintype B] in
/-- Two disks of one text are of one name, their controllers being sound. -/
theorem Consistent.diskName_eq (h : Consistent k devices) {d e : PyText}
    (hd : d ∈ devices)
    (he : e ∈ devices) {dev dev' : NvmeDevObject P} {ctrl ctrl' : NvmeCtrl}
    (hctrl : HasCtrl k d dev ctrl) (hctrl' : HasCtrl k e dev' ctrl')
    (hsound : CtrlSound ctrl)
    (hsound' : CtrlSound ctrl') {ns ns' : NvmeNs} (hns : ns ∈ ctrl.namespacesOf)
    (hns' : ns' ∈ ctrl'.namespacesOf) (heq : ns.diskText = ns'.diskText) :
    ns.diskName = ns'.diskName :=
  diskName_eq_of_diskText (hsound.nsSound ns hns) (hsound'.nsSound ns' hns')
    (h.texts d hd dev ctrl hctrl ns hns)
      (h.texts e he dev' ctrl' hctrl' ns' hns') heq

omit [Fintype B] in
/-- The names a device gives its nodes are its own. -/
theorem Consistent.nodup_names (h : Consistent k devices) {d : PyText}
    (hd : d ∈ devices)
    {dev : NvmeDevObject P} {ctrl : NvmeCtrl} (hctrl : HasCtrl k d dev ctrl)
    (hdev : DevSound dev)
    (hsound : CtrlSound ctrl) : (namesOf d dev ctrl).Nodup := by
  have hdisks : (ctrl.namespacesOf.map NvmeNs.diskText).Nodup := by
    have hpairs := List.pairwise_map.mp (h.disks d hd dev ctrl hctrl)
    refine List.pairwise_map.mpr (hpairs.imp_of_mem fun hns hns' hne heq =>
      hne ?_)
    exact h.diskName_eq hd hd hctrl hctrl hsound hsound hns hns' heq
  exact nodup_namesOf hdisks
    (nodup_queueIds hdev (h.queues d hd dev ctrl hctrl))

omit [Fintype B] in
/-- Two devices share a name exactly if their controllers share a subsystem. -/
theorem Consistent.disjoint_names_iff (h : Consistent k devices) {d e : PyText}
    (hd : d ∈ devices)
    (he : e ∈ devices) (hne : d ≠ e) {dev dev' : NvmeDevObject P}
    {ctrl ctrl' : NvmeCtrl}
    (hctrl : HasCtrl k d dev ctrl) (hctrl' : HasCtrl k e dev' ctrl')
    (hsound : CtrlSound ctrl)
    (hsound' : CtrlSound ctrl') :
    (namesOf d dev ctrl).Disjoint (namesOf e dev' ctrl') ↔
      ¬ ShareSubsystem k d e := by
  have hdisks : ∀ ns ∈ ctrl.namespacesOf, ∀ ns' ∈ ctrl'.namespacesOf,
      ns.diskText ≠ ns'.diskText := by
    intro ns hns ns' hns' htext
    refine h.disksApart d hd e he hne dev ctrl dev' ctrl' hctrl hctrl' ns hns
      ns' hns' ?_
    exact h.diskName_eq hd he hctrl hctrl' hsound hsound' hns hns' htext
  have hinstances : ∀ s ∈ ctrl.subsysOf, ∀ s' ∈ ctrl'.subsysOf,
      (s.instanceOf = s'.instanceOf ↔ s.value = s'.value) := fun s hs s' hs' =>
    (instanceOf_eq_iff (hsound.subsysSound s hs)
      (hsound'.subsysSound s' hs')).trans
      (h.instances d hd e he dev ctrl dev' ctrl' hctrl hctrl' s hs s' hs')
  rw [disjoint_namesOf hne hdisks]
  constructor
  · rintro hapart ⟨_, _, _, _, hc, hc', s, hs, s', hs', hvalue⟩
    obtain ⟨rfl, rfl⟩ := hctrl.unique hc
    obtain ⟨rfl, rfl⟩ := hctrl'.unique hc'
    exact hapart s hs s' hs' ((hinstances s hs s' hs').mpr hvalue)
  · intro hshare s hs s' hs' hinstance
    exact hshare ⟨dev, ctrl, dev', ctrl', hctrl, hctrl', s, hs, s', hs',
      (hinstances s hs s' hs').mp hinstance⟩

/-- Different names have different ids. -/
theorem NodeName.disjoint_map_id {names names' : List NodeName} :
    (names.map NodeName.id).Disjoint (names'.map NodeName.id) ↔
      names.Disjoint names' := by
  refine ⟨fun h name hname hname' =>
    ?_, List.disjoint_map NodeName.id_injective⟩
  exact h (List.mem_map_of_mem hname) (List.mem_map_of_mem hname')

/-- **The ids of the nodes are different** exactly if no two of the devices
belong to one subsystem. -/
theorem nodup_ids_iff {backendKind : PyText}
    (hhealthy : ∀ d ∈ devices, Healthy k d)
    (hconsistent : Consistent k devices) (hnodup : devices.Nodup) :
    (∃ t, buildTopology k devices backendKind = .ok t ∧ (idsOf t.root).Nodup) ↔
      devices.Pairwise fun d e => ¬ ShareSubsystem k d e := by
  obtain ⟨t, ht⟩ := exists_buildTopology hhealthy hconsistent.shifts backendKind
  have hkeys : ∀ d ∈ devices, ∃ dev ctrl, HasCtrl k d dev ctrl ∧ DevSound dev ∧
      CtrlSound ctrl ∧
      (movesOf k d).flatMap (hungKeys TopologyInfo.id) =
        (namesOf d dev ctrl).map NodeName.id := by
    intro d hd
    obtain ⟨dev, ctrl, hctrl, hdev, hsound⟩ := (hhealthy d hd).exists_ctrl
    exact ⟨dev, ctrl, hctrl, hdev, hsound,
      hungKeys_movesOf (hhealthy d hd) hctrl hsound (hconsistent.shifts d hd)⟩
  have hown : ∀ d ∈ devices,
      ((movesOf k d).flatMap (hungKeys TopologyInfo.id)).Nodup := by
    intro d hd
    obtain ⟨dev, ctrl, hctrl, hdev, hsound, heq⟩ := hkeys d hd
    rw [heq]
    exact (hconsistent.nodup_names hd hctrl hdev hsound).map
      NodeName.id_injective
  have hapart : ∀ d ∈ devices, ∀ e ∈ devices, d ≠ e →
      (((movesOf k d).flatMap (hungKeys TopologyInfo.id)).Disjoint
        ((movesOf k e).flatMap (hungKeys TopologyInfo.id)) ↔
          ¬ ShareSubsystem k d e) := by
    intro d hd e he hne
    obtain ⟨dev, ctrl, hctrl, -, hsound, heq⟩ := hkeys d hd
    obtain ⟨dev', ctrl', hctrl', -, hsound', heq'⟩ := hkeys e he
    rw [heq, heq', NodeName.disjoint_map_id]
    exact hconsistent.disjoint_names_iff hd he hne hctrl hctrl' hsound hsound'
  have hpairs :
      (∃ t, buildTopology k devices backendKind = .ok t ∧
      (idsOf t.root).Nodup) ↔
      (idsOf t.root).Nodup := by
    refine ⟨?_, fun h => ⟨t, ht, h⟩⟩
    rintro ⟨t', ht', h⟩
    rw [ht] at ht'
    cases ht'
    exact h
  rw [hpairs, nodup_idsOf_iff ht, List.nodup_flatMap, and_iff_right hown]
  constructor
  · intro h
    refine (hnodup.and h).imp_of_mem fun hd he hboth => ?_
    exact (hapart _ hd _ he hboth.1).mp hboth.2
  · intro h
    refine (hnodup.and h).imp_of_mem fun hd he hboth => ?_
    exact (hapart _ hd _ he hboth.1).mpr hboth.2

end

/-- The devices of the sample. -/
theorem sampleKernel_found {subsys₀ subsys₁ : NvmeSubsystem} {d : PyText}
    {dev : NvmeDevObject (Fin 3)}
    {pdev : Fin 3}
    (h : findDevice (sampleKernel subsys₀ subsys₁) d = .ok (dev, pdev)) :
    dev = sampleDev pdev subsys₀ ∨ dev = sampleDev pdev subsys₁ := by
  simp only [findDevice, Fallible.bind_eq_ok, Fallible.pure_eq_ok,
    sampleKernel] at h
  obtain ⟨found, hfound, p, hp, heq⟩ := h
  cases heq
  split at hfound
  · cases Except.ok.inj hfound
    cases Except.ok.inj hp
    exact Or.inl rfl
  · split at hfound
    · cases Except.ok.inj hfound
      cases Except.ok.inj hp
      exact Or.inr rfl
    · cases hfound

/-- A kernel that numbers the subsystems of the two disks as they are. -/
theorem sampleKernel_consistent {subsys₀ subsys₁ : NvmeSubsystem}
    (h : subsys₀.instanceNr = subsys₁.instanceNr ↔
      subsys₀.value = subsys₁.value)
    (devices : List PyText) :
    Consistent (sampleKernel subsys₀ subsys₁) devices := by
  have hctrl : ∀ {d dev ctrl},
      HasCtrl (sampleKernel subsys₀ subsys₁) d dev ctrl →
      ctrl.namespacesOf = [] ∧ (∀ i q, dev.queues i ≠ .ok q) ∧
        (ctrl.subsysOf = some subsys₀ ∨ ctrl.subsysOf = some subsys₁) := by
    rintro d dev ctrl ⟨⟨pdev, hfind⟩, hctrl⟩
    rcases sampleKernel_found hfind with rfl | rfl
    · cases Except.ok.inj hctrl
      exact ⟨rfl, (fun _ _ hq => nomatch hq), Or.inl rfl⟩
    · cases Except.ok.inj hctrl
      exact ⟨rfl, (fun _ _ hq => nomatch hq), Or.inr rfl⟩
  refine ⟨?_, ?_, ?_, ?_, ?_, ?_⟩
  · intro d _ dev ctrl hd ns hns
    rw [(hctrl hd).1] at hns
    cases hns
  · intro d _ dev ctrl hd
    rw [(hctrl hd).1]
    exact List.nodup_nil
  · intro d _ e _ _ dev ctrl dev' ctrl' hd _ ns hns
    rw [(hctrl hd).1] at hns
    cases hns
  · intro d _ dev ctrl hd _ _ i _ j _ q q' hq
    exact absurd hq ((hctrl hd).2.1 i q)
  · intro d _ e _ dev ctrl dev' ctrl' hd he s hs s' hs'
    rcases (hctrl hd).2.2 with hsome | hsome <;>
      rcases (hctrl he).2.2 with hsome' | hsome' <;>
      rw [hsome, Option.mem_some_iff] at hs <;>
        rw [hsome', Option.mem_some_iff] at hs' <;>
      subst hs <;> subst hs'
    · exact iff_of_true rfl rfl
    · exact h
    · rw [eq_comm, h, eq_comm]
    · exact iff_of_true rfl rfl
  · rintro d - dev pdev hfind ctrl list hdev hlist ns hns
    have hnil := (hctrl ⟨⟨pdev, hfind⟩, hdev⟩).1
    rw [NvmeCtrl.namespacesOf, hlist] at hnil
    rw [show list = [] from hnil] at hns
    cases hns

/-- Two disks with a subsystem each. -/
theorem sampleKernel_unique : ∃ t,
    buildTopology (sampleKernel (sampleSubsys 0x4000 0) (sampleSubsys 0x5000 1))
      ["nvme0".toList, "nvme1".toList] "drgn".toList = .ok t ∧
        (idsOf t.root).Nodup := by
  refine (nodup_ids_iff
    (sampleKernel_healthy (sampleSubsys_sound _ _) (sampleSubsys_sound _ _))
    (sampleKernel_consistent (by decide) _) (by decide)).mpr ?_
  refine List.pairwise_pair.mpr ?_
  rintro ⟨dev, ctrl, dev', ctrl', ⟨⟨p, h⟩, hctrl⟩, ⟨⟨p', h'⟩, hctrl'⟩, s, hs,
    s', hs', hvalue⟩
  cases Except.ok.inj h
  cases Except.ok.inj h'
  cases Except.ok.inj hctrl
  cases Except.ok.inj hctrl'
  cases Option.some.inj hs
  cases Option.some.inj hs'
  cases hvalue

/-- **Two disks of one subsystem**: `subsys:0` is the id of two nodes. -/
theorem sharedSubsystem_twice :
    (∀ d ∈ ["nvme0".toList, "nvme1".toList],
      Healthy (sampleKernel (sampleSubsys 0x4000 0) (sampleSubsys 0x4000 0))
        d) ∧
    Consistent (sampleKernel (sampleSubsys 0x4000 0) (sampleSubsys 0x4000 0))
      ["nvme0".toList, "nvme1".toList] ∧
    ∃ t, buildTopology
      (sampleKernel (sampleSubsys 0x4000 0) (sampleSubsys 0x4000 0))
      ["nvme0".toList, "nvme1".toList] "drgn".toList = .ok t ∧
        ¬ (idsOf t.root).Nodup :=
  ⟨sampleKernel_healthy (sampleSubsys_sound _ _) (sampleSubsys_sound _ _),
    sampleKernel_consistent (iff_of_true rfl rfl) _, _, rfl, by decide⟩

end Telemetryd
