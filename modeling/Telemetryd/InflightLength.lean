import Telemetryd.PrpPages
import Telemetryd.SubmissionQueue

/-!
# The length of an in-flight command

`_resolve_total_len` of `services/queues/service.py`.  The length of a command
in flight is that of its block-layer request, which is looked for among the
busy requests of the namespace's request queue; when there is none it is
estimated from the command itself.

The search compares the *tag* of a request with the *command id* it is asked
for.  The driver makes the id from the tag and a 4-bit generation, so the two
agree in generation 0 only.
-/

namespace Telemetryd

open PyText

/-- The request queue a request belongs to. -/
inductive RequestQueue where
  | admin
  | namespace (nsid : Nat)
  deriving DecidableEq

/-- A request in flight.  `hctx` is the number of its hardware queue, absent
where the pointer is null, and `totalLen` the length in its `nvme_iod`, absent
where it cannot be read. -/
structure Request where
  queue : RequestQueue
  tag : Nat
  generation : Nat
  hctx : Option Nat
  totalLen : Option Nat
  rqBytes : Nat
  tag_lt : tag < 4096 := by decide
  generation_lt : generation < 16 := by decide
  deriving DecidableEq

/-- `nvme_cid`. -/
def Request.cid (r : Request) : Nat := r.generation * 4096 + r.tag

/-- The queue of the device a request is on: the admin queue is queue 0, and
hardware queue `h` of a namespace is queue `h + 1`. -/
def Request.OnQueue (r : Request) (qid : Nat) : Prop :=
  match r.queue with
  | .admin => qid = 0
  | .namespace _ => r.hctx.map (· + 1) = some qid

instance (r : Request) (qid : Nat) : Decidable (r.OnQueue qid) := by
  unfold Request.OnQueue
  cases r.queue <;> infer_instance

/-- The requests in flight on a controller.  The block layer gives those of one
queue different tags. -/
structure InFlight where
  requests : List Request
  tags_differ : ∀ r ∈ requests, ∀ r' ∈ requests, ∀ qid, r.OnQueue qid →
    r'.OnQueue qid →
    r.tag = r'.tag → r = r'

/-- The walk over the busy requests of one disk: the namespace of the disk, and
after how many requests a read faults, if one does. -/
structure BusyWalk where
  nsid : Nat
  faultAfter : Option Nat := none

/-- The requests the walk reaches. -/
def BusyWalk.reached (walk : BusyWalk) (inflight : InFlight) : List Request :=
  let busy := inflight.requests.filter (fun r =>
    decide (r.queue = .namespace walk.nsid))
  match walk.faultAfter with
  | some n => busy.take n
  | none => busy

/-- The test of the loop: the tag, and on an I/O queue the hardware queue. -/
def answers (qid : Nat) (cid : Int) (isAdmin : Bool) (r : Request) : Bool :=
  decide ((r.tag : Int) = cid) &&
    (isAdmin || decide (r.hctx.map (fun h : Nat => (h : Int)) =
      some ((qid : Int) - 1)))

/-- The length a command states itself, with a note where it is a guess. -/
def estimatedLen (cmd : NvmeCommand) (isAdmin : Bool) : Nat × Option PyText :=
  if ¬ isAdmin ∧ (cmd.opcode = 1 ∨ cmd.opcode = 2) then
    let nlb := cmd.rwLength.getD (cmd.cdw12 % 65536)
    ((nlb + 1) * 512,
      some "요청을 blk-mq에서 못 찾음(이미 완료됐을 수 있음) → cdw12(NLB)*512B 추정".toList)
  else if isAdmin ∧ cmd.opcode = 6 then (pageSize, none)
  else if isAdmin ∧ cmd.opcode = 2 then
    let numdl := cmd.cdw10 / 65536 % 65536
    let numdu := cmd.cdw11 % 65536
    ((numdu * 65536 + numdl + 1) * 4, none)
  else
    (0, some "총 전송 길이를 알 수 없음(비-R/W/identify/get_log 커맨드이며 in-flight 요청도 못 찾음)".toList)

/-- `_resolve_total_len`, with a note where the length is not the request's
own. -/
def resolveTotalLen (reached : List Request) (qid : Nat) (cid : Int)
    (cmd : NvmeCommand)
    (isAdmin : Bool) : Nat × Option PyText :=
  match reached.find? (answers qid cid isAdmin) with
  | some rq =>
      match rq.totalLen with
      | some len => (len, none)
      | none => (rq.rqBytes, some "iod.total_len 없음 → blk_rq_bytes로 대체".toList)
  | none => estimatedLen cmd isAdmin

/-! ### Whose length it is -/

variable {inflight : InFlight} {walk : BusyWalk} {qid : Nat} {cid : Int}
    {cmd : NvmeCommand}

/-- The request whose length is returned, if it is that of a request. -/
def lengthSource (walk : BusyWalk) (inflight : InFlight) (qid : Nat)
    (cid : Int) : Option Request :=
  (walk.reached inflight).find? (answers qid cid (decide (qid = 0)))

/-- The command asked for gets the length of its own request, and no command
gets that of another's. -/
def TakesOwnLength (walk : BusyWalk) (inflight : InFlight) (qid : Nat)
    (cid : Int)
    (cmd : NvmeCommand) : Prop :=
  (∀ r ∈ inflight.requests, r.OnQueue qid → (r.cid : Int) = cid →
    ∀ len, r.totalLen = some len →
    (resolveTotalLen (walk.reached inflight) qid cid cmd (decide (qid = 0))).1 =
      len) ∧
  ∀ r, lengthSource walk inflight qid cid = some r → r.OnQueue qid ∧
    (r.cid : Int) = cid

/-- No request of another command passes the test, and the request asked for
passes it, being of generation 0 and within reach of the walk, unless its
command states the same length. -/
def TagStandsForCid (walk : BusyWalk) (inflight : InFlight) (qid : Nat)
    (cid : Int)
    (cmd : NvmeCommand) : Prop :=
  (∀ r ∈ walk.reached inflight, answers qid cid (decide (qid = 0)) r = true →
    r.OnQueue qid ∧ r.generation = 0) ∧
  ∀ r ∈ inflight.requests, r.OnQueue qid → (r.cid : Int) = cid →
    ∀ len, r.totalLen = some len →
    (r ∈ walk.reached inflight ∧ r.generation = 0) ∨
      (estimatedLen cmd (decide (qid = 0))).1 = len

theorem mem_reached {r : Request} (h : r ∈ walk.reached inflight) :
    r ∈ inflight.requests ∧ r.queue = .namespace walk.nsid := by
  unfold BusyWalk.reached at h
  have hbusy : r ∈ inflight.requests.filter
      (fun r => decide (r.queue = .namespace walk.nsid)) := by
    cases hf : walk.faultAfter with
    | none => rwa [hf] at h
    | some n =>
        rw [hf] at h
        exact List.mem_of_mem_take h
  simpa using hbusy

/-- Off the admin queue the test means: this queue, and the id as its tag. -/
theorem answers_iff {r : Request} {nsid : Nat} (hq : r.queue = .namespace nsid)
    (hqid : qid ≠ 0) :
    answers qid cid (decide (qid = 0)) r = true ↔ (r.tag : Int) = cid ∧
      r.OnQueue qid := by
  have hon : r.OnQueue qid ↔ r.hctx.map (· + 1) = some qid := by
    unfold Request.OnQueue
    rw [hq]
  rw [hon]
  unfold answers
  cases r.hctx with
  | none => simp [hqid]
  | some h =>
      simp only [hqid, decide_false, Bool.false_or, Bool.and_eq_true,
        decide_eq_true_eq,
        Option.map_some, Option.some.injEq]
      omega

theorem tag_of_answers {r : Request} {isAdmin : Bool}
    (h : answers qid cid isAdmin r = true) :
    (r.tag : Int) = cid := by
  unfold answers at h
  simp only [Bool.and_eq_true, decide_eq_true_eq] at h
  exact h.1

theorem not_onQueue_zero {r : Request} (h : r ∈ walk.reached inflight) :
    ¬ r.OnQueue 0 := by
  unfold Request.OnQueue
  rw [(mem_reached h).2]
  simp

/-- Two requests of one queue with one id are one request. -/
theorem eq_of_cid {r r' : Request} (hr : r ∈ inflight.requests)
    (hr' : r' ∈ inflight.requests)
    (hq : r.OnQueue qid) (hq' : r'.OnQueue qid) (hcid : r.cid = r'.cid) :
    r = r' := by
  refine inflight.tags_differ r hr r' hr' qid hq hq' ?_
  have := r.tag_lt
  have := r'.tag_lt
  unfold Request.cid at hcid
  omega

/-- A tag is a command id in generation 0 only. -/
theorem generation_eq_zero {r : Request} (htag : (r.tag : Int) = cid)
    (hcid : (r.cid : Int) = cid) :
    r.generation = 0 := by
  unfold Request.cid at hcid
  omega

/-- The length in flight of a request: that of its `nvme_iod`, or that of the
block layer where there is none. -/
def Request.inflightLen (r : Request) : Nat := r.totalLen.getD r.rqBytes

/-- A source gives its own length. -/
theorem resolve_of_source {r : Request}
    (h : lengthSource walk inflight qid cid = some r) :
    (resolveTotalLen (walk.reached inflight) qid cid cmd (decide (qid = 0))).1 =
      r.inflightLen := by
  unfold lengthSource at h
  unfold resolveTotalLen Request.inflightLen
  rw [h]
  dsimp only
  split
  case h_1 hlen => rw [hlen, Option.getD_some]
  case h_2 hnone => rw [hnone, Option.getD_none]

/-- Without a source the length is the estimate. -/
theorem resolve_of_no_source (h : lengthSource walk inflight qid cid = none) :
    resolveTotalLen (walk.reached inflight) qid cid cmd (decide (qid = 0))
      = estimatedLen cmd (decide (qid = 0)) := by
  unfold lengthSource at h
  unfold resolveTotalLen
  rw [h]

/-- If the tag stands for the id, the request taken is the one asked for. -/
theorem TagStandsForCid.source (h : TagStandsForCid walk inflight qid cid cmd)
    {r : Request}
    (hsrc : lengthSource walk inflight qid cid = some r) :
    r ∈ inflight.requests ∧ r.OnQueue qid ∧ (r.cid : Int) = cid := by
  have hmem : r ∈ walk.reached inflight := List.mem_of_find?_eq_some hsrc
  have hpass := List.find?_some hsrc
  obtain ⟨hon, hgen⟩ := h.1 r hmem hpass
  refine ⟨(mem_reached hmem).1, hon, ?_⟩
  have := tag_of_answers hpass
  unfold Request.cid
  rw [hgen]
  omega

/-- A request the walk reaches in generation 0 passes the test for its own
id. -/
theorem source_ne_none {r : Request} (hmem : r ∈ walk.reached inflight)
    (hon : r.OnQueue qid)
    (hcid : (r.cid : Int) = cid) (hgen : r.generation = 0) :
    lengthSource walk inflight qid cid ≠ none := by
  intro hsrc
  have hqid : qid ≠ 0 := by
    rintro rfl
    exact not_onQueue_zero hmem hon
  have htag : (r.tag : Int) = cid := by
    rw [Request.cid, hgen] at hcid
    omega
  have hpass := (answers_iff (mem_reached hmem).2 hqid).mpr ⟨htag, hon⟩
  exact List.find?_eq_none.mp hsrc r hmem hpass

/-- If the request taken is the one asked for, every request that passes the
test is that one, and of generation 0. -/
theorem TakesOwnLength.answers_own
    (h : TakesOwnLength walk inflight qid cid cmd) {r : Request}
    (hr : r ∈ walk.reached inflight)
    (hans : answers qid cid (decide (qid = 0)) r = true) :
    r.OnQueue qid ∧ r.generation = 0 := by
  obtain ⟨r', hr'⟩ : ∃ r', lengthSource walk inflight qid cid = some r' := by
    rw [← Option.isSome_iff_exists, lengthSource, List.find?_isSome]
    exact ⟨r, hr, hans⟩
  obtain ⟨hon', hcid'⟩ := h.2 r' hr'
  have hmem' : r' ∈ walk.reached inflight := List.mem_of_find?_eq_some hr'
  have hqid : qid ≠ 0 := by
    rintro rfl
    exact not_onQueue_zero hmem' hon'
  have hon := ((answers_iff (mem_reached hr).2 hqid).mp hans).2
  have hsame : r = r' := by
    refine inflight.tags_differ r (mem_reached hr).1 r' (mem_reached hmem').1
      qid hon hon' ?_
    have htag := tag_of_answers hans
    have htag' := tag_of_answers (List.find?_some hr')
    omega
  subst hsame
  exact ⟨hon, generation_eq_zero (tag_of_answers hans) hcid'⟩

/-- **When the length is the command's own.**  Exactly when the tag stands for
the command id: on an I/O queue every request whose tag is the id asked for is
of generation 0, on the admin queue there is none, and the request asked for is
one the walk reaches, in generation 0, or has the length its command states.
What is returned is the length in flight of the source, if there is one, and
the estimate if there is none. -/
theorem own_length_iff (walk : BusyWalk) (inflight : InFlight) (qid : Nat)
    (cid : Int)
    (cmd : NvmeCommand) :
    (∀ r, lengthSource walk inflight qid cid = some r →
      (resolveTotalLen (walk.reached inflight) qid cid cmd (decide (qid = 0))).1
        = r.inflightLen) ∧
    (lengthSource walk inflight qid cid = none →
      resolveTotalLen (walk.reached inflight) qid cid cmd (decide (qid = 0))
        = estimatedLen cmd (decide (qid = 0))) ∧
    (TakesOwnLength walk inflight qid cid cmd ↔
      TagStandsForCid walk inflight qid cid cmd) := by
  refine ⟨fun r h => resolve_of_source h, resolve_of_no_source, ?_⟩
  constructor
  · intro h
    refine ⟨fun r hr hans => h.answers_own hr hans,
      fun r hr hon hcid len htotal => ?_⟩
    cases hsrc : lengthSource walk inflight qid cid with
    | none =>
        right
        rw [← resolve_of_no_source hsrc]
        exact h.1 r hr hon hcid len htotal
    | some r' =>
        left
        obtain ⟨hon', hcid'⟩ := h.2 r' hsrc
        have hmem' : r' ∈ walk.reached inflight :=
          List.mem_of_find?_eq_some hsrc
        have hsame : r = r' :=
          eq_of_cid hr (mem_reached hmem').1 hon hon' (by omega)
        subst hsame
        exact ⟨hmem',
          generation_eq_zero (tag_of_answers (List.find?_some hsrc)) hcid⟩
  · intro h
    refine ⟨fun r hr hon hcid len htotal => ?_, fun r hsrc => (h.source hsrc).2⟩
    cases hsrc : lengthSource walk inflight qid cid with
    | some r' =>
        obtain ⟨hr', hon', hcid'⟩ := h.source hsrc
        have hsame : r = r' := eq_of_cid hr hr' hon hon' (by omega)
        subst hsame
        rw [resolve_of_source hsrc, Request.inflightLen, htotal,
          Option.getD_some]
    | none =>
        rw [resolve_of_no_source hsrc]
        rcases h.2 r hr hon hcid len htotal with ⟨hmem, hgen⟩ | hest
        · exact absurd hsrc (source_ne_none hmem hon hcid hgen)
        · exact hest

/-- One read of 16 KiB in flight on queue 1, with tag 5 in generation 1. -/
def secondGeneration : InFlight where
  requests := [⟨.namespace 1, 5, 1, some 0, some 16384,
    16384, by decide, by decide⟩]
  tags_differ := by
    intro r hr r' hr' _ _ _ _
    rw [List.mem_singleton.mp hr, List.mem_singleton.mp hr']

/-- **A command is given another length, and its length to another command.**
The read has command id 4101.  Its length is estimated as 512 bytes, from a
command that states one block; and the id 5, which is not in flight, is given
the 16 KiB. -/
theorem second_generation_misread :
    let cmd : NvmeCommand :=
  ⟨2, 0, 4101, 1, none, 0, 0, 0, 0, 0, 0, 0, 0, some 0⟩
    (resolveTotalLen (BusyWalk.reached ⟨1, none⟩ secondGeneration) 1 4101 cmd
      false).1 = 512 ∧
    (resolveTotalLen (BusyWalk.reached ⟨1, none⟩ secondGeneration) 1 5 cmd
      false).1 = 16384 ∧
    ¬ TakesOwnLength ⟨1, none⟩ secondGeneration 1 4101 cmd ∧
    ¬ TakesOwnLength ⟨1, none⟩ secondGeneration 1 5 cmd := by
  refine ⟨by decide, by decide, ?_, ?_⟩
  · intro ⟨hlen, _⟩
    have := hlen _ List.mem_cons_self (by decide) (by decide) 16384 rfl
    revert this
    decide
  · intro ⟨_, hown⟩
    have := (hown ⟨.namespace 1, 5, 1, some 0, some 16384,
      16384, by decide, by decide⟩ rfl).2
    revert this
    decide

end Telemetryd
