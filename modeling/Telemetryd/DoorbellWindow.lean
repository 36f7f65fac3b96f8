import Mathlib.Data.List.Nodup
import Telemetryd.PrpPayload

/-!
# The window before the doorbell

`_window_indices` lists the indices before a doorbell.  A driver writes its
commands round the ring, so these are the slots it wrote last, latest first, as
far as the window reaches.  `backend/mock_backend.py` has a copy of the
function.
-/

namespace Telemetryd

open SlotRing

/-- `_window_indices` of `backend/mock_backend.py`. -/
def mockWindowIndices (doorbell depth : Nat) (limit : Int) : List Nat :=
  let n := if limit ≠ 0 then min limit depth else depth
  (List.range n.toNat).map (fun i : Nat =>
    (((doorbell : Int) - 1 - i) % depth).toNat)

/-- **The window shows the latest submissions.**  After any number of commands
written from any slot on, the window of at least one entry has as many as asked
for, but not more than the ring.  They are different slots of the ring; the
`i`-th of them is the slot of the `i`-th latest command, which it still holds;
`get_queue_entries` lists the slots in this order, and the mock's window is the
same. -/
theorem window_of_latest (start : SlotRing.Ring NvmeCommand)
    (history : List NvmeCommand)
    (limit : Int) (hlimit : 1 ≤ limit) :
    let r := start.pushAll history
    let window := windowIndices r.tail r.depth limit
    window.length = min limit.toNat r.depth ∧ window.Nodup ∧
      (∀ i ∈ window, i < r.depth) ∧
    (∀ before cmd after, history = before ++ cmd :: after →
      after.length < window.length →
      window[after.length]? = some (start.pushAll before).tail ∧
        r.slots (start.pushAll before).tail = cmd) ∧
    (∀ (k : QueueKernel) (device : PyText) (qid : Nat) (dev : NvmeDev),
      k.lookupDevice device = some dev → dev.queues[qid]? = some (ringQueue r) →
        getQueueEntries k device qid limit true
          = .ok (window.map (fun i =>
            queueEntry (decide ((qid : Int) = 0)) i (r.slots i)))) ∧
    mockWindowIndices r.tail r.depth limit = window := by
  intro r window
  have hwindow : window = (List.range (min limit.toNat r.depth)).map r.back :=
    windowIndices_ring r hlimit
  have hlength : window.length = min limit.toNat r.depth := by
    rw [hwindow, List.length_map, List.length_range]
  refine ⟨hlength, ?_, ?_, ?_, ?_, rfl⟩
  · rw [hwindow]
    refine List.Nodup.map_on ?_ List.nodup_range
    intro i hi j hj hij
    rw [List.mem_range] at hi hj
    exact r.back_inj (by omega) (by omega) hij
  · intro i hi
    rw [hwindow] at hi
    obtain ⟨j, hj, rfl⟩ := List.mem_map.mp hi
    rw [List.mem_range] at hj
    exact r.back_lt (by omega)
  · intro before cmd after hhistory hafter
    have hdepth : r.depth = start.depth := start.depth_pushAll history
    have hlen : after.length < start.depth := by omega
    have hback : r.back after.length = (start.pushAll before).tail := by
      have := start.back_pushAll before cmd after hlen
      rwa [← hhistory] at this
    have hslot : r.slots (r.back after.length) = cmd := by
      have := start.slots_back before cmd after hlen
      rwa [← hhistory] at this
    rw [hback] at hslot
    refine ⟨?_, hslot⟩
    rw [hwindow, List.getElem?_map, List.getElem?_range (by omega),
      Option.map_some, hback]
  · intro k device qid dev hdev hq
    unfold getQueueEntries
    rw [queueOf_eq hdev hq]
    exact congrArg Except.ok
      ((queueEntries_ring r _ hlimit).trans (by rw [← hwindow]))

/-- Five commands in a ring of four slots: the fifth is in the first slot. -/
theorem window_of_latest_wrapped :
    windowIndices 1 4 2 = [0, 3] ∧
      (idleRing.pushAll ([1, 2, 3, 4, 5].map (blockRead · 0))).slots 0 =
        blockRead 5 0 := by
  have h := window_of_latest idleRing ([1, 2, 3, 4, 5].map (blockRead · 0)) 2
    (by decide)
  have hlatest :=
    h.2.2.2.1 ([1, 2, 3, 4].map (blockRead · 0)) (blockRead 5 0)
    [] rfl (by decide)
  exact ⟨by decide, hlatest.2⟩

end Telemetryd
