import Telemetryd.InflightLength

/-!
# The payload of a command

`get_prp_payload` of `services/queues/service.py`: the command is looked up in
the submission ring by its id and its data buffer is dumped.  The lookup goes
through the slots from the first to the last, while `get_queue_entries` shows
them from the latest back; a ring keeps stale commands, so the two can meet
different copies of one id.
-/

namespace Telemetryd

open PyText SlotRing

/-- `PrpPayload`. -/
structure PrpPayload where
  device : PyText
  qid : Int
  cid : Int
  usesSgl : Bool
  totalLen : Nat
  pages : List PrpPage
  error : Option PyText := none
  deriving DecidableEq

/-- What the queue service raises. -/
inductive QueueError where
  | deviceNotFound (device : PyText)
  | queueNotFound (qid : Int)
  deriving DecidableEq

/-- A controller as the service sees it: its online queues, the admin queue
first, and its requests in flight with the walk over those of its disk. -/
structure NvmeDev where
  queues : List NvmeQueue
  inflight : InFlight
  walk : BusyWalk

/-- The kernel the service reads, and the host's IOMMU. -/
structure QueueKernel where
  lookupDevice : PyText → Option NvmeDev
  memory : PhysicalMemory
  iommuEnabled : Bool

/-- `dev.queues[qid]` of an online queue. -/
def queueOf (k : QueueKernel) (device : PyText) (qid : Int) :
    Except QueueError (NvmeDev × NvmeQueue) :=
  match k.lookupDevice device with
  | none => .error (.deviceNotFound device)
  | some dev =>
      if 0 ≤ qid then
        match dev.queues[qid.toNat]? with
        | some q => .ok (dev, q)
        | none => .error (.queueNotFound qid)
      else .error (.queueNotFound qid)

/-- `get_queue_entries`. -/
def getQueueEntries (k : QueueKernel) (device : PyText) (qid limit : Int)
    (aroundDoorbell : Bool) : Except QueueError (List QueueEntry) :=
  match queueOf k device qid with
  | .error e => .error e
  | .ok (_, q) => .ok (queueEntries q (decide (qid = 0)) limit aroundDoorbell)

/-- Whether a slot can be read and holds a command with this id. -/
def holdsCid (q : NvmeQueue) (cid : Int) (i : Nat) : Bool :=
  (q.sqCmds i).any (fun c => decide ((c.commandId : Int) = cid))

/-- The slot the loop of `get_prp_payload` stops at. -/
def findSlot (q : NvmeQueue) (cid : Int) : Option Nat :=
  (List.range q.qDepth).find? (holdsCid q cid)

/-- The note for addresses that the host cannot read. -/
def iommuMessage : PyText :=
  ("IOMMU가 켜져 있어 PRP 페이로드를 덤프하지 않았다 — PRP1/PRP2가 " ++
    "물리주소가 아니라 IOVA라서 그대로 읽으면 엉뚱한 메모리를 읽는다. " ++
    "덤프가 필요하면 커널 부팅 옵션에서 IOMMU를 끄거나" ++
    "(intel_iommu=off / amd_iommu=off), IOVA->물리 변환을 거쳐야 한다. " ++
    "CDW/큐 상태 등 나머지 기능은 IOMMU와 무관하게 정상 동작한다.").toList

/-- The dump of a command that was found. -/
def payloadOf (k : QueueKernel) (dev : NvmeDev) (device : PyText)
    (qid cid : Int)
    (cmd : NvmeCommand) : PrpPayload :=
  if cmd.psdt ≠ 0 then ⟨device, qid, cid, true, 0, [], none⟩
  else
    let (totalLen, note) :=
      resolveTotalLen (dev.walk.reached dev.inflight) qid.toNat cid cmd
      (decide (qid = 0))
    if k.iommuEnabled then ⟨device, qid, cid, false, totalLen, [],
      some iommuMessage⟩
    else ⟨device, qid, cid, false, totalLen,
      decodePrpPages k.memory cmd.prp1 cmd.prp2 totalLen, note⟩

/-- `get_prp_payload`. -/
def getPrpPayload (k : QueueKernel) (device : PyText) (qid cid : Int) :
    Except QueueError PrpPayload :=
  match queueOf k device qid with
  | .error e => .error e
  | .ok (dev, q) =>
      match (findSlot q cid).bind q.sqCmds with
      | some cmd => .ok (payloadOf k dev device qid cid cmd)
      | none =>
          .ok ⟨device, qid, cid, false, 0, [],
            some ("SQ 링에서 cid=".toList ++ ofInt cid ++
            " 를 찾지 못함 (큐 depth=".toList ++ ofNat q.qDepth ++ ")".toList)⟩

/-! ### The two searches -/

variable {q : NvmeQueue} {cid : Int}

/-- The slots with this id below the tail. -/
def copiesBelow (q : NvmeQueue) (cid : Int) : List Nat :=
  (List.range q.sqTail).filter (holdsCid q cid)

/-- The slots with this id from the tail on, written before those below it. -/
def copiesAbove (q : NvmeQueue) (cid : Int) : List Nat :=
  (List.range' q.sqTail (q.qDepth - q.sqTail)).filter (holdsCid q cid)

/-- Below the tail the id occurs once; or it occurs there not at all, and once
from the tail on. -/
def SingleLatestCopy (q : NvmeQueue) (cid : Int) : Prop :=
  (copiesBelow q cid).length = 1 ∨
    (copiesBelow q cid = [] ∧ (copiesAbove q cid).length = 1)

/-- A list without repetition starts and ends with one element only if it has
no other. -/
theorem head?_eq_getLast?_iff {α : Type*} {l : List α} (hnd : l.Nodup)
    (hne : l ≠ []) :
    l.head? = l.getLast? ↔ l.length = 1 := by
  cases l with
  | nil => exact absurd rfl hne
  | cons a l =>
      rw [List.head?_cons, List.getLast?_cons]
      cases hl : l.getLast? with
      | none =>
          rw [List.getLast?_eq_none_iff.mp hl]
          simp
      | some b =>
          have hb : b ∈ l := List.mem_of_getLast? hl
          have hab : a ≠ b := by
            rintro rfl
            exact (List.nodup_cons.mp hnd).1 hb
          have hlen : 0 < l.length := List.length_pos_of_mem hb
          simp only [Option.getD_some, Option.some.injEq, hab, List.length_cons,
            false_iff]
          omega

/-- Upwards the first copy is met first, the one below the tail if there is
one. -/
theorem findSlot_eq (h : q.sqTail ≤ q.qDepth) :
    findSlot q cid =
      ((copiesBelow q cid).head?).or (copiesAbove q cid).head? := by
  have hsplit : List.range q.qDepth
      = List.range q.sqTail ++ List.range' q.sqTail (q.qDepth - q.sqTail) := by
    have happend :
        List.range' 0 q.sqTail ++
        List.range' (0 + q.sqTail) (q.qDepth - q.sqTail)
        = List.range' 0 (q.sqTail + (q.qDepth - q.sqTail)) :=
          List.range'_append_1
    rw [Nat.zero_add, Nat.add_sub_cancel' h] at happend
    rw [List.range_eq_range', List.range_eq_range', happend]
  rw [findSlot, hsplit, List.find?_append, copiesBelow, copiesAbove,
    List.head?_filter,
    List.head?_filter]

/-- Backwards from the tail the last copy is met first, again the one below the
tail if there is one. -/
theorem find?_back (r : SlotRing.Ring NvmeCommand) :
    ((List.range r.depth).map r.back).find? (holdsCid (ringQueue r) cid)
      = ((copiesBelow (ringQueue r) cid).getLast?).or
          (copiesAbove (ringQueue r) cid).getLast? := by
  rw [r.map_back_range, List.find?_append, copiesBelow,
    copiesAbove, ← List.head?_filter,
    ← List.head?_filter, List.filter_reverse, List.filter_reverse,
    List.head?_reverse,
    List.head?_reverse]
  rfl

/-- The two searches meet the same slot exactly when the id has a single copy
where the latest one is. -/
theorem findSlot_eq_back_iff (r : SlotRing.Ring NvmeCommand)
    {i : Nat} (hlatest : ((List.range r.depth).map r.back).find?
      (holdsCid (ringQueue r) cid) = some i) :
    findSlot (ringQueue r) cid = some i ↔
      SingleLatestCopy (ringQueue r) cid := by
  have hbelow : (copiesBelow (ringQueue r) cid).Nodup :=
    List.nodup_range.filter _
  have habove : (copiesAbove (ringQueue r) cid).Nodup :=
    (List.nodup_range').filter _
  rw [find?_back] at hlatest
  rw [findSlot_eq (show (ringQueue r).sqTail ≤
    (ringQueue r).qDepth from r.tail_lt.le), ← hlatest]
  unfold SingleLatestCopy
  by_cases hb : copiesBelow (ringQueue r) cid = []
  case pos =>
    rw [hb] at hlatest ⊢
    have ha : copiesAbove (ringQueue r) cid ≠ [] := by
      intro ha
      rw [ha] at hlatest
      cases hlatest
    simpa using head?_eq_getLast?_iff habove ha
  case neg =>
    have hhead :
        ((copiesBelow (ringQueue r) cid).head?).or
        (copiesAbove (ringQueue r) cid).head?
        = (copiesBelow (ringQueue r) cid).head? := by
      cases hl : copiesBelow (ringQueue r) cid with
      | nil => exact absurd hl hb
      | cons x l => rfl
    have hlast : ((copiesBelow (ringQueue r) cid).getLast?).or
        (copiesAbove (ringQueue r) cid).getLast? =
          (copiesBelow (ringQueue r) cid).getLast? := by
      cases hl : (copiesBelow (ringQueue r) cid).getLast? with
      | none => exact absurd (List.getLast?_eq_none_iff.mp hl) hb
      | some x => rfl
    rw [hhead, hlast, head?_eq_getLast?_iff hbelow hb]
    simp [hb]

/-- The slot whose command `get_prp_payload` dumps. -/
def dumpedSlot (k : QueueKernel) (device : PyText) (qid cid : Int) :
    Option Nat :=
  match queueOf k device qid with
  | .error _ => none
  | .ok (_, q) => findSlot q cid

theorem queueOf_eq {k : QueueKernel} {device : PyText} {dev : NvmeDev}
    {qid : Nat}
    (hdev : k.lookupDevice device = some dev) (hq : dev.queues[qid]? = some q) :
    queueOf k device qid = .ok (dev, q) := by
  unfold queueOf
  rw [hdev]
  dsimp only
  rw [if_pos (Int.natCast_nonneg qid), Int.toNat_natCast, hq]

/-- The dump is that of the command in the slot. -/
theorem getPrpPayload_of_slot {k : QueueKernel} {device : PyText}
    {dev : NvmeDev} {qid : Int}
    (hq : queueOf k device qid = .ok (dev, q)) {j : Nat}
    (hj : findSlot q cid = some j) :
    ∃ c, q.sqCmds j = some c ∧
      getPrpPayload k device qid cid =
        .ok (payloadOf k dev device qid cid c) := by
  have hholds : holdsCid q cid j = true := List.find?_some hj
  unfold holdsCid at hholds
  cases hc : q.sqCmds j with
  | none =>
      rw [hc] at hholds
      cases hholds
  | some c =>
      refine ⟨c, rfl, ?_⟩
      unfold getPrpPayload
      rw [hq]
      dsimp only
      rw [hj, Option.bind_some, hc]

/-- The latest submission with an id is the first one met backwards from the
tail. -/
theorem find?_back_latest (start : SlotRing.Ring NvmeCommand)
    (before : List NvmeCommand)
    (cmd : NvmeCommand) (after : List NvmeCommand)
    (hlen : after.length < start.depth)
    (hlatest : ∀ c ∈ after, c.commandId ≠ cmd.commandId) :
    let r := start.pushAll (before ++ cmd :: after)
    ((List.range r.depth).map r.back).find?
      (holdsCid (ringQueue r) cmd.commandId)
      = some (r.back after.length) := by
  intro r
  have hdepth : r.depth = start.depth := start.depth_pushAll _
  have hsplit : List.range r.depth
      = List.range after.length ++
        List.range' after.length (r.depth - after.length) := by
    have happend : List.range' 0 after.length
          ++ List.range' (0 + after.length) (r.depth - after.length)
        = List.range' 0 (after.length + (r.depth - after.length)) :=
          List.range'_append_1
    rw [Nat.zero_add, Nat.add_sub_cancel' (by omega)] at happend
    rw [List.range_eq_range', List.range_eq_range', happend]
  have hrest : List.range' after.length (r.depth - after.length)
      = after.length ::
        List.range' (after.length + 1) (r.depth - after.length - 1) := by
    rw [← List.range'_succ]
    congr 1
    omega
  rw [hsplit, hrest, List.map_append, List.map_cons, List.find?_append]
  have hlater : ((List.range after.length).map r.back).find?
      (holdsCid (ringQueue r) cmd.commandId) = none := by
    rw [List.find?_eq_none]
    intro i hi
    obtain ⟨j, hj, rfl⟩ := List.mem_map.mp hi
    have hj : j < after.length := List.mem_range.mp hj
    -- the submission that is `j` steps back is one of the later ones
    obtain ⟨pre, c, post, hafter, hpost⟩ :
        ∃ pre c post, after = pre ++ c :: post ∧ post.length = j := by
      refine ⟨after.take (after.length - j - 1), after[after.length - j - 1],
        after.drop (after.length - j), ?_, by simp; omega⟩
      have hdrop :=
        List.drop_eq_getElem_cons (l := after) (i := after.length - j - 1)
        (by omega)
      rw [show after.length - j - 1 + 1 = after.length - j by omega] at hdrop
      rw [← hdrop, List.take_append_drop]
    have hr : r = start.pushAll ((before ++ cmd :: pre) ++ c :: post) := by
      simp only [r, hafter, List.append_assoc, List.cons_append]
    have hslot : r.slots (r.back j) = c := by
      rw [hr, ← hpost]
      exact start.slots_back _ _ _ (by omega)
    have hne : c.commandId ≠ cmd.commandId := hlatest c (by rw [hafter]; simp)
    simp only [holdsCid, ringQueue, hslot, Option.any_some, decide_eq_true_eq]
    omega
  have hhere : holdsCid (ringQueue r) cmd.commandId (r.back after.length) =
      true := by
    have hslot : r.slots (r.back after.length) = cmd :=
      start.slots_back _ _ _ hlen
    simp [holdsCid, ringQueue, hslot]
  rw [hlater, Option.none_or, List.find?_cons_of_pos hhere]

/-- The first entry with an id that is shown for a whole ring. -/
theorem find?_queueEntries (r : SlotRing.Ring NvmeCommand) (isAdmin : Bool) :
    (queueEntries (ringQueue r) isAdmin r.depth true).find? (fun e =>
      decide ((e.cid : Int) = cid))
      = (((List.range r.depth).map r.back).find?
          (holdsCid (ringQueue r) cid)).map
          (fun i => queueEntry isAdmin i (r.slots i)) := by
  have hdepth : (1 : Int) ≤ r.depth := by
    have := r.depth_pos
    omega
  rw [queueEntries_ring r isAdmin hdepth, Int.toNat_natCast, Nat.min_self,
    List.find?_map]
  rfl

/-- **When the dump is that of the latest command.**  Take any ring that a
driver has written and the latest submission with some id that is still in it.
It is the first entry with that id that is shown, and it is the one dumped
exactly when the id has a single copy where the latest one is: one below the
tail, or none there and one from the tail on. -/
theorem prp_of_latest_iff (k : QueueKernel) (device : PyText) (qid : Nat)
    (dev : NvmeDev)
    (start : SlotRing.Ring NvmeCommand) (before : List NvmeCommand)
    (cmd : NvmeCommand)
    (after : List NvmeCommand) (hdev : k.lookupDevice device = some dev)
    (hq : dev.queues[qid]? =
      some (ringQueue (start.pushAll (before ++ cmd :: after))))
    (hlen : after.length < start.depth)
    (hlatest : ∀ c ∈ after, c.commandId ≠ cmd.commandId) :
    let r := start.pushAll (before ++ cmd :: after)
    let slot := r.back after.length
    r.slots slot = cmd ∧
    (∃ entries, getQueueEntries k device qid r.depth true = .ok entries ∧
      entries.find? (fun e => decide ((e.cid : Int) = cmd.commandId))
        = some (queueEntry (decide ((qid : Int) = 0)) slot cmd)) ∧
    (∀ j, dumpedSlot k device qid cmd.commandId = some j →
      getPrpPayload k device qid cmd.commandId
        = .ok (payloadOf k dev device qid cmd.commandId (r.slots j))) ∧
    (dumpedSlot k device qid cmd.commandId = some slot ↔
      SingleLatestCopy (ringQueue r) cmd.commandId) := by
  intro r slot
  have hqueue : queueOf k device qid = .ok (dev, ringQueue r) :=
    queueOf_eq hdev hq
  have hslot : r.slots slot = cmd := start.slots_back _ _ _ hlen
  have hback :
      ((List.range r.depth).map r.back).find?
      (holdsCid (ringQueue r) cmd.commandId)
      = some slot := find?_back_latest start before cmd after hlen hlatest
  have hdumped : dumpedSlot k device qid cmd.commandId
      = findSlot (ringQueue r) cmd.commandId := by
    unfold dumpedSlot
    rw [hqueue]
  refine ⟨hslot, ?_, ?_, ?_⟩
  · refine ⟨_, by unfold getQueueEntries; rw [hqueue], ?_⟩
    rw [find?_queueEntries, hback, Option.map_some, hslot]
  · intro j hj
    rw [hdumped] at hj
    obtain ⟨c, hc, hpayload⟩ := getPrpPayload_of_slot hqueue hj
    rwa [Option.some.inj (show some (r.slots j) = some c from hc)]
  · rw [hdumped]
    exact findSlot_eq_back_iff r hback

/-- A read of one block to or from a page. -/
def blockRead (commandId prp1 : Nat) : NvmeCommand :=
  { opcode := 2, flags := 0, commandId := commandId, nsid := 1, prp1 := prp1,
    rwLength := some 0 }

/-- A ring of four slots that have not been used. -/
def idleRing : SlotRing.Ring NvmeCommand :=
  ⟨4, 0, fun _ => blockRead 0 0, by decide⟩

/-- A device with one queue, whose ring has seen these commands, and with no
request in flight. -/
def ringKernel (cmds : List NvmeCommand) : QueueKernel where
  lookupDevice _ :=
    some ⟨[ringQueue (idleRing.pushAll cmds)], ⟨[], by simp⟩, ⟨1, none⟩⟩
  memory _ _ := none
  iommuEnabled := false

/-- With one copy of each id the latest command is dumped. -/
theorem prp_of_latest_iff_single :
    dumpedSlot (ringKernel [blockRead 8 4096, blockRead 7 8192]) [] 0 7 =
      some 1 :=
  (prp_of_latest_iff (ringKernel [blockRead 8 4096, blockRead 7 8192]) [] 0
    ⟨[ringQueue (idleRing.pushAll [blockRead 8 4096, blockRead 7 8192])],
      ⟨[], by simp⟩, ⟨1, none⟩⟩
    idleRing [blockRead 8 4096] (blockRead 7 8192) [] rfl rfl (by decide)
      (by simp)).2.2.2.mpr
    (Or.inl (by decide))

/-- **A stale command is dumped.**  Id 7 was used for a read to page 4096 and,
after it completed, for one to page 8192.  The entries show the second, the
dump is of the first. -/
theorem stale_copy_dumped :
    let k := ringKernel [blockRead 7 4096, blockRead 8 0, blockRead 7 8192]
    (getQueueEntries k [] 0 4 true).toOption.bind
        (fun entries =>
          (entries.find? (fun e => decide (e.cid = 7))).map (fun e =>
          (e.index, e.prp1)))
      = some (2, 8192) ∧
    dumpedSlot k [] 0 7 = some 0 ∧
    (getPrpPayload k [] 0 7).toOption.map (fun p => p.pages.map (·.physAddr)) =
      some [4096] := by
  refine ⟨by decide +kernel, by decide, by decide +kernel⟩

end Telemetryd
