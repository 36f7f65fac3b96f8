import Telemetryd.Lib.PyNumber
import Telemetryd.Models

/-!
# Events as protobuf messages

`nvme_event_to_pb` of `grpcserver/convert.py`.  Assigning an integer outside
the range of the declared type raises `ValueError`.
-/

namespace Telemetryd

open PyError

/-- Assignment to an `int32` field. -/
def toInt32 (i : Int) : Except PyError Int32 :=
  if -(2 ^ 31) ≤ i ∧ i < 2 ^ 31 then .ok (Int32.ofInt i) else .error .valueError

/-- Assignment to a `uint32` field. -/
def toUInt32 (i : Int) : Except PyError UInt32 :=
  if 0 ≤ i ∧ i < 2 ^ 32 then .ok (UInt32.ofNat i.toNat) else .error .valueError

/-- Assignment to a `uint64` field. -/
def toUInt64 (i : Int) : Except PyError UInt64 :=
  if 0 ≤ i ∧ i < 2 ^ 64 then .ok (UInt64.ofNat i.toNat) else .error .valueError

/-- `TimeoutEventDetail` of the protocol. -/
structure TimeoutEventDetailPb where
  tag : Int32
  opcode : Int32
  opcodeName : PyText
  nsid : UInt32
  flags : Int32
  cdw10 : UInt32
  cdw11 : UInt32
  cdw12 : UInt32
  cdw13 : UInt32
  cdw14 : UInt32
  cdw15 : UInt32
  elapsedUs : ℚ

/-- `ErrorEventDetail` of the protocol. -/
structure ErrorEventDetailPb where
  cid : Int32
  tag : Int32
  opcode : Int32
  opcodeName : PyText
  nsid : UInt32
  status : UInt32
  sct : Int32
  sc : Int32
  sctName : PyText
  scName : PyText
  dnr : Bool
  more : Bool
  crd : Int32
  retries : Int32
  slba : UInt64
  nlb : Int32
  lbaValid : Bool
  submitCached : Bool
  elapsedUs : ℚ

/-- The `oneof detail` of an event message. -/
inductive DetailPb where
  | unset
  | timeout (detail : TimeoutEventDetailPb)
  | error (detail : ErrorEventDetailPb)

/-- `NvmeEvent` of the protocol. -/
structure NvmeEventPb where
  kind : PyText
  observedAt : ℚ
  device : PyText
  qid : Int32
  summary : PyText
  detail : DetailPb

/-- The part of `nvme_event_to_pb` for the details of a timeout. -/
def timeoutDetailToPb (d : TimeoutEventDetail) :
    Except PyError TimeoutEventDetailPb := do
  let tag ← toInt32 d.tag
  let opcode ← toInt32 d.opcode
  let nsid ← toUInt32 d.nsid
  let flags ← toInt32 d.flags
  let cdw10 ← toUInt32 d.cdw10
  let cdw11 ← toUInt32 d.cdw11
  let cdw12 ← toUInt32 d.cdw12
  let cdw13 ← toUInt32 d.cdw13
  let cdw14 ← toUInt32 d.cdw14
  let cdw15 ← toUInt32 d.cdw15
  return ⟨tag, opcode, d.opcodeName, nsid, flags, cdw10, cdw11, cdw12, cdw13,
    cdw14, cdw15,
    d.elapsedUs⟩

/-- The part of `nvme_event_to_pb` for the details of an error. -/
def errorDetailToPb (d : ErrorEventDetail) :
    Except PyError ErrorEventDetailPb := do
  let cid ← toInt32 d.cid
  let tag ← toInt32 d.tag
  let opcode ← toInt32 d.opcode
  let nsid ← toUInt32 d.nsid
  let status ← toUInt32 d.status
  let sct ← toInt32 d.sct
  let sc ← toInt32 d.sc
  let crd ← toInt32 d.crd
  let retries ← toInt32 d.retries
  let slba ← toUInt64 d.slba
  let nlb ← toInt32 d.nlb
  return ⟨cid, tag, opcode, d.opcodeName, nsid, status, sct, sc, d.sctName,
    d.scName, d.dnr,
    d.more, crd, retries, slba, nlb, d.lbaValid, d.submitCached, d.elapsedUs⟩

/-- The error slot is copied first, then the timeout slot; a `oneof` keeps the
last one set. -/
def detailToPb (e : NvmeEvent) : Except PyError DetailPb := do
  let detail ← match e.error with
    | some d => DetailPb.error <$> errorDetailToPb d
    | none => pure .unset
  match e.timeout with
    | some d => DetailPb.timeout <$> timeoutDetailToPb d
    | none => pure detail

/-- `nvme_event_to_pb`: the message of an event, or the first error. -/
def nvmeEventToPb (e : NvmeEvent) : Except PyError NvmeEventPb := do
  let qid ← toInt32 e.qid
  let detail ← detailToPb e
  return ⟨e.kind, e.observedAt, e.device, qid, e.summary, detail⟩

/-! ### Which integers can be sent -/

/-- An `int32` field takes the integers of its range. -/
theorem succeeds_toInt32 (i : Int) :
    Succeeds (toInt32 i) ↔ -(2 ^ 31) ≤ i ∧ i < 2 ^ 31 :=
  succeeds_ite _ _

/-- A `uint32` field takes the integers of its range. -/
theorem succeeds_toUInt32 (i : Int) :
    Succeeds (toUInt32 i) ↔ 0 ≤ i ∧ i < 2 ^ 32 :=
  succeeds_ite _ _

/-- A `uint64` field takes the integers of its range. -/
theorem succeeds_toUInt64 (i : Int) :
    Succeeds (toUInt64 i) ↔ 0 ≤ i ∧ i < 2 ^ 64 :=
  succeeds_ite _ _

/-- A row of checks succeeds when each of them does. -/
theorem succeeds_bind_const {α β : Type} {x : Except PyError α}
    {f : α → Except PyError β}
    {P : Prop} (h : ∀ a, Succeeds (f a) ↔ P) :
    Succeeds (x >>= f) ↔ Succeeds x ∧ P := by
  rw [succeeds_bind]
  constructor
  · intro ⟨a, hx, hf⟩
    exact ⟨⟨a, hx⟩, (h a).mp hf⟩
  · intro ⟨⟨a, hx⟩, hP⟩
    exact ⟨a, hx, (h a).mpr hP⟩

/-- The integers of a timeout that its message can hold. -/
def TimeoutEventDetail.InRange (d : TimeoutEventDetail) : Prop :=
  (-(2 ^ 31) ≤ d.tag ∧ d.tag < 2 ^ 31) ∧
    (-(2 ^ 31) ≤ d.opcode ∧ d.opcode < 2 ^ 31) ∧
    (0 ≤ d.nsid ∧ d.nsid < 2 ^ 32) ∧ (-(2 ^ 31) ≤ d.flags ∧ d.flags < 2 ^ 31) ∧
    (0 ≤ d.cdw10 ∧ d.cdw10 < 2 ^ 32) ∧ (0 ≤ d.cdw11 ∧ d.cdw11 < 2 ^ 32) ∧
    (0 ≤ d.cdw12 ∧ d.cdw12 < 2 ^ 32) ∧ (0 ≤ d.cdw13 ∧ d.cdw13 < 2 ^ 32) ∧
    (0 ≤ d.cdw14 ∧ d.cdw14 < 2 ^ 32) ∧ 0 ≤ d.cdw15 ∧ d.cdw15 < 2 ^ 32

/-- The details of a timeout can be sent exactly if they are in range. -/
theorem succeeds_timeoutDetailToPb (d : TimeoutEventDetail) :
    Succeeds (timeoutDetailToPb d) ↔ d.InRange := by
  unfold timeoutDetailToPb TimeoutEventDetail.InRange
  simp only [← succeeds_toInt32, ← succeeds_toUInt32]
  refine succeeds_bind_const fun tag => succeeds_bind_const fun opcode =>
    succeeds_bind_const fun nsid => succeeds_bind_const fun flags =>
    succeeds_bind_const fun cdw10 => succeeds_bind_const fun cdw11 =>
    succeeds_bind_const fun cdw12 => succeeds_bind_const fun cdw13 =>
    succeeds_bind_const fun cdw14 => ?_
  exact succeeds_bind_pure _ _

/-- The integers of an error that its message can hold. -/
def ErrorEventDetail.InRange (d : ErrorEventDetail) : Prop :=
  (-(2 ^ 31) ≤ d.cid ∧ d.cid < 2 ^ 31) ∧ (-(2 ^ 31) ≤ d.tag ∧ d.tag < 2 ^ 31) ∧
    (-(2 ^ 31) ≤ d.opcode ∧ d.opcode < 2 ^ 31) ∧
      (0 ≤ d.nsid ∧ d.nsid < 2 ^ 32) ∧
    (0 ≤ d.status ∧ d.status < 2 ^ 32) ∧ (-(2 ^ 31) ≤ d.sct ∧ d.sct < 2 ^ 31) ∧
    (-(2 ^ 31) ≤ d.sc ∧ d.sc < 2 ^ 31) ∧ (-(2 ^ 31) ≤ d.crd ∧ d.crd < 2 ^ 31) ∧
    (-(2 ^ 31) ≤ d.retries ∧ d.retries < 2 ^ 31) ∧
      (0 ≤ d.slba ∧ d.slba < 2 ^ 64) ∧
    -(2 ^ 31) ≤ d.nlb ∧ d.nlb < 2 ^ 31

/-- The details of an error can be sent exactly if they are in range. -/
theorem succeeds_errorDetailToPb (d : ErrorEventDetail) :
    Succeeds (errorDetailToPb d) ↔ d.InRange := by
  unfold errorDetailToPb ErrorEventDetail.InRange
  simp only [← succeeds_toInt32, ← succeeds_toUInt32, ← succeeds_toUInt64]
  refine succeeds_bind_const fun cid => succeeds_bind_const fun tag =>
    succeeds_bind_const fun opcode => succeeds_bind_const fun nsid =>
    succeeds_bind_const fun status => succeeds_bind_const fun sct =>
    succeeds_bind_const fun sc => succeeds_bind_const fun crd =>
    succeeds_bind_const fun retries => succeeds_bind_const fun slba => ?_
  exact succeeds_bind_pure _ _

/-- An event with an error alone can be sent when its integers are in range. -/
theorem succeeds_nvmeEventToPb_error {e : NvmeEvent} {d : ErrorEventDetail}
    (htimeout : e.timeout = none) (herror : e.error = some d) :
    Succeeds (nvmeEventToPb e) ↔ (-(2 ^ 31) ≤ e.qid ∧ e.qid < 2 ^ 31) ∧
      d.InRange := by
  have hdetail : detailToPb e = DetailPb.error <$> errorDetailToPb d := by
    unfold detailToPb
    rw [htimeout, herror]
    exact bind_pure (DetailPb.error <$> errorDetailToPb d)
  unfold nvmeEventToPb
  rw [← succeeds_toInt32, ← succeeds_errorDetailToPb, ← succeeds_map
    DetailPb.error, ← hdetail]
  refine succeeds_bind_const fun qid => ?_
  exact succeeds_bind_pure _ _

/-- An event with a timeout alone can be sent when its integers are in range. -/
theorem succeeds_nvmeEventToPb {e : NvmeEvent} {d : TimeoutEventDetail}
    (htimeout : e.timeout = some d)
    (herror : e.error = none) :
    Succeeds (nvmeEventToPb e) ↔ (-(2 ^ 31) ≤ e.qid ∧ e.qid < 2 ^ 31) ∧
      d.InRange := by
  have hdetail : detailToPb e = DetailPb.timeout <$> timeoutDetailToPb d := by
    unfold detailToPb
    rw [htimeout, herror]
    rfl
  unfold nvmeEventToPb
  rw [← succeeds_toInt32, ← succeeds_timeoutDetailToPb, ← succeeds_map
    DetailPb.timeout, ← hdetail]
  refine succeeds_bind_const fun qid => ?_
  exact succeeds_bind_pure _ _

end Telemetryd
