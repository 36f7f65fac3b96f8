import Telemetryd.Lib.GroupedSums
import Telemetryd.Lib.PyNumber
import Telemetryd.Lib.Regex
import Telemetryd.Lib.Utf8

/-!
# The snapshot of a controller

`get_device_snapshot` of `services/queues/service.py`.  A controller is reached
through the disk of one of its namespaces, that with the smallest number.  The
queues are those of the controller, whichever disk it is; the requests in flight
are counted in the request queue of this one disk.
-/

namespace Telemetryd

open PyText PyError Regex GroupedSums Utf8

/-- The fields of a `struct nvme_queue` that are shown. -/
structure NvmeQueueState where
  qid : Nat
  qDepth : Nat
  sqTail : Nat
  cqHead : Nat
  sqDmaAddr : Nat
  cqDmaAddr : Nat

/-- The fields of a `struct nvme_dev`.  A kernel may not have the count of the
allocated queues, and the model number may not be readable. -/
structure NvmeDevState where
  addr : Nat
  onlineQueues : Nat
  nrAllocatedQueues : Option Nat
  modelNumber : Option Bytes
  bar : Nat
  dbs : Nat
  queues : Nat → NvmeQueueState

/-- The disk of a namespace: its name, its request queue, and the controller
that its private data lead to. -/
structure NamespaceDisk where
  diskName : PyText
  queue : Nat
  dev : NvmeDevState

/-- The two spaces of tags of a request queue. -/
inductive TagSpace where
  | driver
  | sched
  deriving DecidableEq

/-- What the service reads: the disks; the numbers of the hardware queues of the
requests that `request_queue_busy_iter` yields, until it ends or faults; and the
host's IOMMU. -/
structure BlockLayer where
  disks : List NamespaceDisk
  busyIter : Nat → TagSpace → List (Option Nat)
  iommuEnabled : Bool

/-- `QueueSnapshot`. -/
structure QueueSnapshot where
  index : Nat
  qid : Nat
  isAdmin : Bool
  depth : Nat
  sqTail : Nat
  cqHead : Nat
  sqDmaAddr : Nat
  cqDmaAddr : Nat
  hctxIndex : Option Nat
  inflightDriver : Nat
  inflightSched : Nat
  deriving DecidableEq

/-- `DeviceSnapshot`. -/
structure DeviceSnapshot where
  name : PyText
  addr : Nat
  model : PyText
  onlineQueues : Nat
  allocatedQueues : Nat
  barAddr : Nat
  dbsAddr : Nat
  iommuEnabled : Bool
  backendKind : PyText
  queues : List QueueSnapshot
  deriving DecidableEq

/-- What the service raises. -/
inductive DeviceError where
  | notFound (device : PyText)
  | raised (e : PyError)
  deriving DecidableEq

/-! ### Looking a device up -/

section

variable [UnicodeDb]

/-- `^nvme(\d+)$` -/
def devicePattern : Pattern :=
  [text "nvme".toList, group [.many 1 isDecimal], skip .eos]

/-- `_instance_of` -/
def instanceOf (device : PyText) : Except DeviceError Int :=
  match Regex.match? devicePattern device with
  | some [digits] => (pyInt digits).mapError .raised
  | _ => .error (.notFound device)

/-- `_DISK_RE`, a pattern over bytes. -/
def diskPattern : Pattern :=
  [text "nvme".toList, group [.many 1 Char.isDigit], text ['n'],
    group [.many 1 Char.isDigit],
    skip .eos]

/-- The numbers of the controller and the namespace in the name of a disk. -/
def diskNumbers (diskName : PyText) : Option (Nat × Nat) :=
  match Regex.match? diskPattern diskName with
  | some [inst, nsid] =>
      some (Nat.ofDigitChars 10 inst 0, Nat.ofDigitChars 10 nsid 0)
  | _ => none

/-- The body of the loop of `_find_any_namespace_disk`. -/
def betterDisk (inst : Int) (best : Option (Nat × NamespaceDisk))
    (disk : NamespaceDisk) :
    Option (Nat × NamespaceDisk) :=
  match diskNumbers disk.diskName with
  | some (i, nsid) =>
      if (i : Int) = inst ∧ ∀ b ∈ best, nsid < b.1 then some (nsid, disk)
        else best
  | none => best

/-- `_find_any_namespace_disk`. -/
def findAnyNamespaceDisk (disks : List NamespaceDisk) (inst : Int) :
    Option NamespaceDisk :=
  (disks.foldl (betterDisk inst) none).map Prod.snd

/-- `lookup_device`: the disk, and through it the controller. -/
def lookupDevice (k : BlockLayer) (device : PyText) :
    Except DeviceError NamespaceDisk := do
  let inst ← instanceOf device
  match findAnyNamespaceDisk k.disks inst with
  | some disk => pure disk
  | none => .error (.notFound device)

/-! ### The snapshot -/

/-- The requests of one space of tags by hardware queue; a request without one
is left out. -/
def countByHctx (busy : List (Option Nat)) : OrderedDict Nat Nat :=
  busy.foldl (fun bucket hctx =>
    match hctx with
    | none => bucket
    | some idx => bucket.insert idx ((bucket.get? idx).getD 0 + 1)) .empty

/-- `_inflight_by_hctx` -/
def inflightByHctx (k : BlockLayer) (queue : Nat) :
    OrderedDict Nat Nat × OrderedDict Nat Nat :=
  (countByHctx (k.busyIter queue .driver),
    countByHctx (k.busyIter queue .sched))

/-- The snapshot of one queue. -/
def queueSnapshot (dev : NvmeDevState)
    (driverCounts schedCounts : OrderedDict Nat Nat) (qid : Nat) :
    QueueSnapshot :=
  let nvmeq := dev.queues qid
  let hctxIndex := if qid = 0 then none else some (qid - 1)
  { index := qid
    qid := nvmeq.qid
    isAdmin := decide (qid = 0)
    depth := nvmeq.qDepth
    sqTail := nvmeq.sqTail
    cqHead := nvmeq.cqHead
    sqDmaAddr := nvmeq.sqDmaAddr
    cqDmaAddr := nvmeq.cqDmaAddr
    hctxIndex := hctxIndex
    inflightDriver := (hctxIndex.bind driverCounts.get?).getD 0
    inflightSched := (hctxIndex.bind schedCounts.get?).getD 0 }

/-- The snapshot of the controller of a disk. -/
def snapshotVia (k : BlockLayer) (device : PyText) (disk : NamespaceDisk) :
    DeviceSnapshot :=
  let dev := disk.dev
  let (driverCounts, schedCounts) := inflightByHctx k disk.queue
  { name := device
    addr := dev.addr
    model := (dev.modelNumber.map (fun raw => strip (decode raw))).getD ['?']
    onlineQueues := dev.onlineQueues
    allocatedQueues := dev.nrAllocatedQueues.getD dev.onlineQueues
    barAddr := dev.bar
    dbsAddr := dev.dbs
    iommuEnabled := k.iommuEnabled
    backendKind := "drgn".toList
    queues := (List.range dev.onlineQueues).map
      (queueSnapshot dev driverCounts schedCounts) }

/-- `get_device_snapshot`. -/
def getDeviceSnapshot (k : BlockLayer) (device : PyText) :
    Except DeviceError DeviceSnapshot := do
  let disk ← lookupDevice k device
  pure (snapshotVia k device disk)

end

/-! ### Whose requests are counted -/

/-- A request in flight: its request queue, and the number of its hardware queue
if it has one. -/
structure OutstandingRequest where
  queue : Nat
  hctx : Option Nat

/-- `request_queue_busy_iter` yields the busy requests of a request queue. -/
def YieldsBusy (k : BlockLayer) (outstanding : List OutstandingRequest) :
    Prop :=
  ∀ q, (k.busyIter q .driver).Perm
    ((outstanding.filter (fun r => decide (r.queue = q))).map (·.hctx))

/-- The disks of the namespaces of a controller. -/
def namespaceDisks (k : BlockLayer) (inst : Int) : List NamespaceDisk :=
  k.disks.filter (fun d =>
    (diskNumbers d.diskName).any (fun n => decide ((n.1 : Int) = inst)))

/-- The request is one of the controller's and on its hardware queue `h`. -/
def OutstandingRequest.OnHctx (k : BlockLayer) (inst : Int) (h : Nat)
    (r : OutstandingRequest) : Prop :=
  r.queue ∈ (namespaceDisks k inst).map (·.queue) ∧ r.hctx = some h

instance (k : BlockLayer) (inst : Int) (h : Nat) (r : OutstandingRequest) :
    Decidable (r.OnHctx k inst h) := inferInstanceAs (Decidable (_ ∧ _))

/-- Every I/O queue of a snapshot has the number of the requests of all
namespaces on its hardware queue. -/
def CountsController (k : BlockLayer) (inst : Int)
    (outstanding : List OutstandingRequest)
    (snap : DeviceSnapshot) : Prop :=
  ∀ q ∈ snap.queues, q.index ≠ 0 →
    q.inflightDriver = outstanding.countP (fun r =>
      decide (r.OnHctx k inst (q.index - 1)))

/-- All requests of the controller on the hardware queues that are shown are
those of one disk. -/
def OnlyThrough (k : BlockLayer) (inst : Int)
    (outstanding : List OutstandingRequest)
    (disk : NamespaceDisk) : Prop :=
  ∀ r ∈ outstanding, ∀ h, r.OnHctx k inst h → h + 1 < disk.dev.onlineQueues →
    r.queue = disk.queue

theorem getD_countByHctx (busy : List (Option Nat)) (h : Nat) :
    ((countByHctx busy).get? h).getD 0 = busy.count (some h) := by
  have hfold : ∀ (busy : List (Option Nat)) (bucket : OrderedDict Nat Nat),
      ((busy.foldl (fun bucket hctx =>
        match hctx with
        | none => bucket
        | some idx =>
            bucket.insert idx ((bucket.get? idx).getD 0 + 1)) bucket).get?
              h).getD 0
        = (bucket.get? h).getD 0 + busy.count (some h) := by
    intro busy
    induction busy with
    | nil => exact fun _ => rfl
    | cons hctx busy ih =>
        intro bucket
        rw [List.foldl_cons, ih, List.count_cons]
        cases hctx with
        | none => simp
        | some idx =>
            dsimp only
            rw [OrderedDict.get?_insert]
            by_cases hidx : h = idx
            · subst hidx
              simp only [if_true, Option.getD_some, beq_self_eq_true]
              omega
            · have hne : ¬ idx = h := fun heq => hidx heq.symm
              simp [hidx, hne]
  have := hfold busy .empty
  rwa [OrderedDict.get?_empty, Option.getD_none, Nat.zero_add] at this

/-- A weaker property is counted as often if it never holds alone. -/
theorem countP_eq_countP_iff {α : Type*} {p q : α → Bool} {l : List α}
    (h : ∀ a ∈ l, p a = true → q a = true) :
    l.countP p = l.countP q ↔ ∀ a ∈ l, q a = true → p a = true := by
  induction l with
  | nil => simp
  | cons a l ih =>
      have hrest := ih fun b hb => h b (List.mem_cons_of_mem _ hb)
      have hle : l.countP p ≤ l.countP q :=
        List.countP_mono_left fun b hb => h b (List.mem_cons_of_mem _ hb)
      have hfirst := h a List.mem_cons_self
      rw [List.countP_cons, List.countP_cons, List.forall_mem_cons, ← hrest]
      by_cases hp : p a = true
      · simp [hp, hfirst hp]
      · by_cases hq : q a = true
        · simp only [hp, hq, Bool.false_eq_true, if_false, if_true,
            forall_const, false_and, iff_false]
          omega
        · simp [hp, hq]

/-- The requests of one request queue on a hardware queue. -/
theorem inflightDriver_eq {k : BlockLayer}
    {outstanding : List OutstandingRequest}
    (hbusy : YieldsBusy k outstanding) (disk : NamespaceDisk) (h : Nat) :
    ((inflightByHctx k disk.queue).1.get? h).getD 0
      = outstanding.countP (fun r =>
        decide (r.queue = disk.queue ∧ r.hctx = some h)) := by
  unfold inflightByHctx
  rw [getD_countByHctx, (hbusy disk.queue).count_eq, List.count,
    List.countP_map, List.countP_filter]
  refine List.countP_congr fun r _ => ?_
  simp [and_comm]

/-- Through any disk of the controller. -/
theorem countsController_iff {k : BlockLayer}
    {outstanding : List OutstandingRequest}
    (hbusy : YieldsBusy k outstanding) (device : PyText) {inst : Int}
    {disk : NamespaceDisk}
    (hdisk : disk ∈ namespaceDisks k inst) :
    CountsController k inst outstanding (snapshotVia k device disk) ↔
      OnlyThrough k inst outstanding disk := by
  have hqueue :
      ∀ h, (outstanding.countP (fun r =>
      decide (r.queue = disk.queue ∧ r.hctx = some h))
      = outstanding.countP (fun r => decide (r.OnHctx k inst h)) ↔
        ∀ r ∈ outstanding, r.OnHctx k inst h → r.queue = disk.queue) := by
    intro h
    rw [countP_eq_countP_iff]
    · simp only [decide_eq_true_eq]
      constructor
      · intro hall r hr hon
        exact (hall r hr hon).1
      · intro hall r hr hon
        exact ⟨hall r hr hon, hon.2⟩
    · intro r _ hr
      obtain ⟨hq, hh⟩ := of_decide_eq_true hr
      exact decide_eq_true ⟨hq ▸ List.mem_map_of_mem hdisk, hh⟩
  unfold CountsController OnlyThrough
  constructor
  · intro hcounts r hr h hon hshown
    have hmem : queueSnapshot disk.dev (inflightByHctx k disk.queue).1
        (inflightByHctx k disk.queue).2 (h + 1) ∈
          (snapshotVia k device disk).queues :=
      List.mem_map_of_mem (List.mem_range.mpr hshown)
    have hcount := hcounts _ hmem (Nat.succ_ne_zero h)
    exact (hqueue h).mp ((inflightDriver_eq hbusy disk h).symm.trans hcount) r
      hr hon
  · intro honly q hq hindex
    obtain ⟨qid, hqid, rfl⟩ := List.mem_map.mp hq
    obtain ⟨h, rfl⟩ : ∃ h, qid = h + 1 := ⟨qid - 1, by
      have : qid ≠ 0 := hindex
      omega⟩
    have hcount := (hqueue h).mpr fun r hr hon =>
      honly r hr h hon (List.mem_range.mp hqid)
    exact (inflightDriver_eq hbusy disk h).trans hcount

/-- The disk that is found is one of the controller's. -/
theorem mem_namespaceDisks_of_find {k : BlockLayer} {inst : Int}
    {disk : NamespaceDisk}
    (h : findAnyNamespaceDisk k.disks inst = some disk) :
    disk ∈ namespaceDisks k inst := by
  have hfold :
      ∀ (disks : List NamespaceDisk) (best : Option (Nat × NamespaceDisk)),
      (∀ d ∈ disks, d ∈ k.disks) → (∀ b ∈ best, b.2 ∈ namespaceDisks k inst) →
      ∀ b ∈ disks.foldl (betterDisk inst) best,
        b.2 ∈ namespaceDisks k inst := by
    intro disks
    induction disks with
    | nil => exact fun _ _ hbest => hbest
    | cons d disks ih =>
        intro best hmem hbest
        refine ih _ (fun d' hd' => hmem d' (List.mem_cons_of_mem _ hd')) ?_
        intro b hb
        unfold betterDisk at hb
        cases hnumbers : diskNumbers d.diskName with
        | none =>
            rw [hnumbers] at hb
            exact hbest b hb
        | some numbers =>
            rw [hnumbers] at hb
            obtain ⟨i, nsid⟩ := numbers
            dsimp only at hb
            split at hb
            case isTrue hbetter =>
              obtain rfl : (nsid, d) = b := Option.some.inj hb
              refine List.mem_filter.mpr ⟨hmem d List.mem_cons_self, ?_⟩
              rw [hnumbers]
              exact decide_eq_true hbetter.1
            case isFalse => exact hbest b hb
  unfold findAnyNamespaceDisk at h
  obtain ⟨b, hb, rfl⟩ := Option.map_eq_some_iff.mp h
  exact hfold k.disks none (fun _ hd => hd) (by simp) b hb

/-- **When the counts are those of the controller.**  The snapshot that is
returned is made through one disk of the controller.  Made through this one, or
any other, it has the requests of all namespaces on every I/O queue exactly if
all of them are in the request queue of this disk. -/
theorem snapshot_counts_controller_iff [UnicodeDb] (k : BlockLayer)
    (outstanding : List OutstandingRequest)
    (hbusy : YieldsBusy k outstanding) (device : PyText) (inst : Int)
    (hinst : instanceOf device = .ok inst) (disk : NamespaceDisk)
    (hdisk : lookupDevice k device = .ok disk) :
    (∀ snap, getDeviceSnapshot k device = .ok snap →
      (CountsController k inst outstanding snap ↔
        OnlyThrough k inst outstanding disk)) ∧
    disk ∈ namespaceDisks k inst ∧
    ∀ d ∈ namespaceDisks k inst,
      (CountsController k inst outstanding (snapshotVia k device d) ↔
        OnlyThrough k inst outstanding d) := by
  have hmem : disk ∈ namespaceDisks k inst := by
    have hfind :
        lookupDevice k device = match findAnyNamespaceDisk k.disks inst with
        | some disk => .ok disk
        | none => .error (.notFound device) := by
      unfold lookupDevice
      rw [hinst]
      rfl
    rw [hfind] at hdisk
    cases hfound : findAnyNamespaceDisk k.disks inst with
    | none =>
        rw [hfound] at hdisk
        cases hdisk
    | some d =>
        rw [hfound] at hdisk
        cases hdisk
        exact mem_namespaceDisks_of_find hfound
  refine ⟨?_, hmem, fun d hd => countsController_iff hbusy device hd⟩
  intro snap hsnap
  have hvia : getDeviceSnapshot k device = .ok (snapshotVia k device disk) := by
    unfold getDeviceSnapshot
    rw [hdisk]
    rfl
  rw [hvia] at hsnap
  cases hsnap
  exact countsController_iff hbusy device hmem

/-- A controller with two queues and two namespaces, and one request in flight,
in the request queue with this number. -/
def twoNamespaces (queue : Nat) : BlockLayer :=
  let dev : NvmeDevState :=
    ⟨0, 2, none, none, 0, 0, fun qid => ⟨qid, 64, 0, 0, 0, 0⟩⟩
  { disks := [⟨"nvme0n1".toList, 1, dev⟩, ⟨"nvme0n2".toList, 2, dev⟩]
    busyIter := fun q space => if q = queue ∧ space = .driver then [some 0]
      else []
    iommuEnabled := false }

theorem twoNamespaces_yieldsBusy (queue : Nat) :
    YieldsBusy (twoNamespaces queue) [⟨queue, some 0⟩] := by
  intro q
  by_cases hq : q = queue
  · subst hq
    simp [twoNamespaces]
  · have hne : ¬ queue = q := fun h => hq h.symm
    simp [twoNamespaces, hq, hne]

/-- The snapshot of this controller. -/
def twoNamespacesSnapshot (queue : Nat) : DeviceSnapshot :=
  snapshotVia (twoNamespaces queue) "nvme0".toList
    ⟨"nvme0n1".toList, 1,
      ⟨0, 2, none, none, 0, 0, fun qid => ⟨qid, 64, 0, 0, 0, 0⟩⟩⟩

/-- A request of the namespace that is picked is counted. -/
theorem snapshot_counts_controller_first :
    CountsController (twoNamespaces 1) 0 [⟨1, some 0⟩]
      (twoNamespacesSnapshot 1) := by
  refine (((@snapshot_counts_controller_iff UnicodeDb.ascii (twoNamespaces 1)
    [⟨1, some 0⟩]
    (twoNamespaces_yieldsBusy 1) "nvme0".toList 0 (by rfl) _ (by rfl)).1 _ (by
      rfl)).mpr ?_)
  intro r hr h hon _
  rw [List.mem_singleton.mp hr]

/-- **Requests of another namespace are missed.**  One request of the second
namespace is in flight on the first hardware queue, and the snapshot has
none. -/
theorem second_namespace_not_counted :
    YieldsBusy (twoNamespaces 2) [⟨2, some 0⟩] ∧
    @getDeviceSnapshot UnicodeDb.ascii (twoNamespaces 2) "nvme0".toList =
      .ok (twoNamespacesSnapshot 2) ∧
    (twoNamespacesSnapshot 2).queues.map (·.inflightDriver) = [0, 0] ∧
    ¬ CountsController (twoNamespaces 2) 0 [⟨2, some 0⟩]
      (twoNamespacesSnapshot 2) := by
  refine ⟨twoNamespaces_yieldsBusy 2, by rfl, by decide, ?_⟩
  intro hcounts
  have hqueue := hcounts _ (List.mem_of_getElem? (i := 1) rfl) (by decide)
  revert hqueue
  decide

end Telemetryd
