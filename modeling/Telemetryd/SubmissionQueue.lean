import Telemetryd.Lib.SlotRing
import Telemetryd.NvmeConst

/-!
# Submission queues

The submission side of `services/queues`: the ring of commands that the driver
writes and the service reads, and the window of the latest entries that
`get_queue_entries` shows.  A read of kernel memory may fault; a slot that
cannot be read is `none`.
-/

namespace Telemetryd

open PyText

/-- One `struct nvme_command`.  `cdw23` is absent where neither layout of the
two words can be read, `rwLength` where the structure has no `rw` member. -/
structure NvmeCommand where
  opcode : Nat
  flags : Nat
  commandId : Nat
  nsid : Nat
  cdw23 : Option (Nat × Nat) := none
  cdw10 : Nat := 0
  cdw11 : Nat := 0
  cdw12 : Nat := 0
  cdw13 : Nat := 0
  cdw14 : Nat := 0
  cdw15 : Nat := 0
  prp1 : Nat := 0
  prp2 : Nat := 0
  rwLength : Option Nat := none
  deriving DecidableEq

/-- The fields of a `struct nvme_queue` the service reads. -/
structure NvmeQueue where
  qDepth : Nat
  sqTail : Nat
  sqCmds : Nat → Option NvmeCommand

/-- One entry of the submission queue, as it is shown. -/
structure QueueEntry where
  index : Nat
  cid : Nat
  opcode : Nat
  opcodeName : PyText
  nsid : Nat
  flags : Nat
  usesSgl : Bool
  cdw2 : Nat
  cdw3 : Nat
  cdw10 : Nat
  cdw11 : Nat
  cdw12 : Nat
  cdw13 : Nat
  cdw14 : Nat
  cdw15 : Nat
  prp1 : Nat
  prp2 : Nat
  deriving DecidableEq

/-- The PRP or SGL selector of a command. -/
def NvmeCommand.psdt (c : NvmeCommand) : Nat := c.flags / 64 % 4

/-- `_cdw2_cdw3`: zero where the words cannot be read. -/
def cdw2Cdw3 (c : NvmeCommand) : Nat × Nat := c.cdw23.getD (0, 0)

/-- The `limit` indices before a doorbell, latest first.  A limit of zero means
the whole ring. -/
def windowIndices (doorbell depth : Nat) (limit : Int) : List Nat :=
  let n := if limit ≠ 0 then min limit depth else depth
  (List.range n.toNat).map (fun i : Nat =>
    (((doorbell : Int) - 1 - i) % depth).toNat)

/-- The entry that is shown for a slot of the submission queue. -/
def queueEntry (isAdmin : Bool) (index : Nat) (c : NvmeCommand) :
    QueueEntry where
  index := index
  cid := c.commandId
  opcode := c.opcode
  opcodeName := opcodeName c.opcode isAdmin
  nsid := c.nsid
  flags := c.flags
  usesSgl := decide (c.psdt ≠ 0)
  cdw2 := (cdw2Cdw3 c).1
  cdw3 := (cdw2Cdw3 c).2
  cdw10 := c.cdw10
  cdw11 := c.cdw11
  cdw12 := c.cdw12
  cdw13 := c.cdw13
  cdw14 := c.cdw14
  cdw15 := c.cdw15
  prp1 := c.prp1
  prp2 := c.prp2

/-- The indices `get_queue_entries` reads. -/
def entryIndices (q : NvmeQueue) (limit : Int) (aroundDoorbell : Bool) :
    List Nat :=
  if aroundDoorbell
    then windowIndices q.sqTail q.qDepth (if limit ≠ 0 then limit else 16)
  else List.range (if limit ≠ 0 then min limit q.qDepth else q.qDepth).toNat

/-- The body of `get_queue_entries`; a slot that faults is left out. -/
def queueEntries (q : NvmeQueue) (isAdmin : Bool) (limit : Int)
    (aroundDoorbell : Bool) :
    List QueueEntry :=
  (entryIndices q limit aroundDoorbell).filterMap
    (fun i => (q.sqCmds i).map (queueEntry isAdmin i))

/-! ### Rings the driver writes -/

open SlotRing

/-- A ring of commands whose every slot can be read. -/
def ringQueue (r : SlotRing.Ring NvmeCommand) : NvmeQueue :=
  ⟨r.depth, r.tail, fun i => some (r.slots i)⟩

/-- The window walks back from the tail. -/
theorem windowIndices_ring {α : Type*} (r : SlotRing.Ring α) {limit : Int}
    (hlimit : 1 ≤ limit) :
    windowIndices r.tail r.depth limit =
      (List.range (min limit.toNat r.depth)).map r.back := by
  have hlt := r.tail_lt
  have hne : limit ≠ 0 := by omega
  have hcount : (min limit (r.depth : Int)).toNat =
    min limit.toNat r.depth := by omega
  unfold windowIndices
  simp only [hne, ne_eq, not_false_eq_true, if_true, hcount]
  apply List.map_congr_left
  intro i hi
  have hi : i < r.depth :=
    lt_of_lt_of_le (List.mem_range.mp hi) (Nat.min_le_right _ _)
  unfold SlotRing.Ring.back
  split
  case isTrue h =>
    have heq : ((r.tail : Int) - 1 - i) % r.depth = r.tail - 1 - i :=
      Int.emod_eq_of_lt (by omega) (by omega)
    rw [heq]
    omega
  case isFalse h =>
    have heq : ((r.tail : Int) - 1 - i) % r.depth =
        r.tail + r.depth - 1 - i := by
      rw [← Int.add_emod_right, Int.emod_eq_of_lt (by omega) (by omega)]
      omega
    rw [heq]
    omega

theorem entryIndices_ring (r : SlotRing.Ring NvmeCommand) {limit : Int}
    (hlimit : 1 ≤ limit) :
    entryIndices (ringQueue r) limit true =
      (List.range (min limit.toNat r.depth)).map r.back := by
  have hne : limit ≠ 0 := by omega
  unfold entryIndices
  rw [if_pos rfl, if_pos hne]
  exact windowIndices_ring r hlimit

/-- The entries that are shown of a ring. -/
theorem queueEntries_ring (r : SlotRing.Ring NvmeCommand) (isAdmin : Bool)
    {limit : Int}
    (hlimit : 1 ≤ limit) :
    queueEntries (ringQueue r) isAdmin limit true
      = ((List.range (min limit.toNat r.depth)).map r.back).map
          (fun i => queueEntry isAdmin i (r.slots i)) := by
  unfold queueEntries
  rw [entryIndices_ring r hlimit]
  have hread : (fun i => ((ringQueue r).sqCmds i).map (queueEntry isAdmin i))
      = some ∘ (fun i => queueEntry isAdmin i (r.slots i)) := rfl
  rw [hread, List.filterMap_eq_map]

end Telemetryd
