import Telemetryd.PrpPayload

/-!
# Completion queues

The completion side of `services/queues`: the ring that the controller writes
and the driver takes from, and the window that `get_completion_entries` shows
before the driver's doorbell.  The controller may be ahead of the driver.  What
it has written since stands in the slots that the window reaches last.
-/

namespace Telemetryd

open PyText SlotRing

/-- One `struct nvme_completion`.  `resultU32` is absent where the union has no
such member. -/
structure NvmeCompletion where
  commandId : Nat
  sqId : Nat
  sqHead : Nat
  status : Nat
  resultU32 : Option Nat
  resultU16 : Nat
  deriving DecidableEq

/-- The fields of a `struct nvme_queue` that are read for its completions. -/
structure CompletionQueue where
  qDepth : Nat
  cqHead : Nat
  cqes : Nat → Option NvmeCompletion

/-- One entry of the completion queue, as it is shown. -/
structure CompletionEntry where
  index : Nat
  commandId : Nat
  sqId : Nat
  sqHead : Nat
  statusRaw : Nat
  phase : Bool
  statusCode : Nat
  statusCodeType : Nat
  result : Nat
  deriving DecidableEq

/-- The entry that is shown for a slot of the completion queue. -/
def completionEntry (index : Nat) (c : NvmeCompletion) : CompletionEntry where
  index := index
  commandId := c.commandId
  sqId := c.sqId
  sqHead := c.sqHead
  statusRaw := c.status
  phase := decide (c.status % 2 ≠ 0)
  statusCode := c.status / 2 % 256
  statusCodeType := c.status / 512 % 8
  result := c.resultU32.getD c.resultU16

/-- The indices `get_completion_entries` reads. -/
def completionIndices (q : CompletionQueue) (limit : Int)
    (aroundDoorbell : Bool) : List Nat :=
  if aroundDoorbell
    then windowIndices q.cqHead q.qDepth (if limit ≠ 0 then limit else 16)
  else List.range (if limit ≠ 0 then min limit q.qDepth else q.qDepth).toNat

/-- The body of `get_completion_entries`; a slot that faults is left out. -/
def completionEntries (q : CompletionQueue) (limit : Int)
    (aroundDoorbell : Bool) : List CompletionEntry :=
  (completionIndices q limit aroundDoorbell).filterMap fun i =>
    (q.cqes i).map (completionEntry i)

/-- `get_completion_entries`, where `lookupDevice` finds the online queues of a
controller. -/
def getCompletionEntries (lookupDevice : PyText → Option (List CompletionQueue))
    (device : PyText)
    (qid limit : Int) (aroundDoorbell : Bool) :
    Except QueueError (List CompletionEntry) :=
  match lookupDevice device with
  | none => .error (.deviceNotFound device)
  | some queues =>
      if 0 ≤ qid then
        match queues[qid.toNat]? with
        | some q => .ok (completionEntries q limit aroundDoorbell)
        | none => .error (.queueNotFound qid)
      else .error (.queueNotFound qid)

/-! ### The controller ahead of the driver -/

/-- A ring whose every slot can be read.  The driver has taken the completions
of `taken`, and the controller has written those of `pending` since. -/
def servedQueue (start : SlotRing.Ring NvmeCompletion)
    (taken pending : List NvmeCompletion) :
    CompletionQueue where
  qDepth := start.depth
  cqHead := (start.pushAll taken).tail
  cqes i := some ((start.pushAll (taken ++ pending)).slots i)

/-- What the slots before the doorbell hold, the nearest first. -/
def beforeDoorbell (depth : Nat) (taken pending : List NvmeCompletion) :
    List NvmeCompletion :=
  taken.reverse.take (depth - pending.length) ++ pending.reverse

section

variable (start : SlotRing.Ring NvmeCompletion)
    (taken pending : List NvmeCompletion)

theorem windowIndices_served {shown : Int} (hshown : shown ≠ 0) :
    windowIndices (start.pushAll taken).tail start.depth shown
      = (List.range (min shown.toNat start.depth)).map
        (start.pushAll taken).back := by
  by_cases hneg : shown < 0
  · -- nothing is asked for
    have hnone : (min shown (start.depth : Int)).toNat =
      min shown.toNat start.depth := by omega
    have hzero : min shown.toNat start.depth = 0 := by omega
    unfold windowIndices
    simp only [if_pos hshown, hnone, hzero, List.range_zero, List.map_nil]
  · have hwindow :=
      windowIndices_ring (start.pushAll taken) (show 1 ≤ shown by omega)
    rwa [SlotRing.Ring.depth_pushAll] at hwindow

variable (hpending : pending.length ≤ start.depth)

include hpending

/-- **A slot before the doorbell** holds a completion that was taken, or, if the
controller has come round to it, one that is pending. -/
theorem slots_beforeDoorbell {j : Nat} (hj : j < start.depth)
    (htaken : min (j + 1) (start.depth - pending.length) ≤ taken.length) :
    (beforeDoorbell start.depth taken pending)[j]?
      = some ((start.pushAll (taken ++ pending)).slots
        ((start.pushAll taken).back j)) := by
  have hdepth : (start.pushAll taken).depth = start.depth :=
    start.depth_pushAll taken
  unfold beforeDoorbell
  rw [SlotRing.Ring.pushAll_append]
  by_cases hfar : j + pending.length < start.depth
  · -- not overwritten, so it is the `j`-th latest of those taken
    have hlt : j < taken.length := by omega
    rw [SlotRing.Ring.slots_pushAll _ _ (by omega),
      start.slots_back_getElem taken hlt hj,
      List.getElem?_append_left (by simp; omega),
      List.getElem?_take_of_lt (by omega),
      List.getElem?_reverse hlt, List.getElem?_eq_getElem]
  · have hcount : (taken.reverse.take (start.depth - pending.length)).length =
        start.depth - pending.length := by
      rw [List.length_take, List.length_reverse]
      omega
    have hi : start.depth - 1 - j < pending.length := by omega
    have hslot :=
      (start.pushAll taken).slots_pushAll_getElem pending hi (by omega)
    rw [hdepth, show start.depth - 1 - (start.depth - 1 - j) =
      j by omega] at hslot
    rw [hslot, List.getElem?_append_right (by omega), hcount,
      List.getElem?_reverse (by omega),
      ← List.getElem?_eq_getElem hi]
    congr 1
    omega

/-- **What the window shows.**  Before the doorbell stand the completions that
the driver took last, the latest first.  As far as the controller has come round
to these slots the window shows what it has written there, where the oldest
were. -/
theorem completions_before_doorbell
    {lookupDevice : PyText → Option (List CompletionQueue)}
    {device : PyText} {queues : List CompletionQueue}
    (hdevice : lookupDevice device = some queues)
    {qid : Nat} (hq : queues[qid]? = some (servedQueue start taken pending))
    (limit : Int)
    (htaken : min (if limit ≠ 0 then limit
      else 16).toNat (start.depth - pending.length) ≤ taken.length) :
    getCompletionEntries lookupDevice device qid limit true
      = .ok (List.zipWith completionEntry
          (windowIndices (start.pushAll taken).tail start.depth
            (if limit ≠ 0 then limit else 16))
          (beforeDoorbell start.depth taken pending)) := by
  unfold getCompletionEntries
  simp only [hdevice, Int.natCast_nonneg, if_true, Int.toNat_natCast, hq]
  refine congrArg Except.ok ?_
  set shown : Int := if limit ≠ 0 then limit else 16
  have hindices : completionIndices (servedQueue start taken pending) limit true
      = windowIndices (start.pushAll taken).tail start.depth shown := if_pos rfl
  have hread :
      (fun i => ((servedQueue start taken pending).cqes i).map
      (completionEntry i))
      = some ∘ fun i =>
        completionEntry i ((start.pushAll (taken ++ pending)).slots i) := rfl
  unfold completionEntries
  have hshown : shown ≠ 0 := by
    unfold shown
    split <;> omega
  rw [hread, List.filterMap_eq_map, hindices,
    windowIndices_served start taken hshown]
  apply List.ext_getElem?
  intro j
  rw [List.getElem?_map, List.getElem?_zipWith, List.getElem?_map]
  by_cases hj : j < min shown.toNat start.depth
  · rw [List.getElem?_range hj,
      slots_beforeDoorbell start taken pending hpending (by omega) (by omega)]
    rfl
  · rw [List.getElem?_eq_none (by rw [List.length_range]; omega)]
    rfl

end

/-- Five completions were taken from a ring of four slots, and two have been
written since: the third entry before the doorbell is the one written last. -/
theorem completions_before_doorbell_ahead :
    let posted : Nat → NvmeCompletion := fun id => ⟨id, 1, 0, 1, some 0, 0⟩
    let q := servedQueue ⟨4, 0, fun _ =>
      posted 0, by decide⟩ ([1, 2, 3, 4, 5].map posted) ([6, 7].map posted)
    getCompletionEntries (fun _ => some [q]) "nvme0".toList 0 3 true
      = .ok [completionEntry 0 (posted 5), completionEntry 3 (posted 4),
        completionEntry 2 (posted 7)] :=
  (completions_before_doorbell _ _ _ (by decide) rfl rfl 3 (by decide)).trans
    (by decide)

end Telemetryd
