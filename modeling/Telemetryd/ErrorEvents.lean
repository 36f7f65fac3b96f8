import Telemetryd.EventLines
import Telemetryd.Models
import Telemetryd.NvmeConst

/-!
# Error events

`backend/ebpf_error_events.py`: the line the collector prints when a command
is completed with an error status, and the event that is read back from it.
-/

namespace Telemetryd

open PyText Regex PyError

namespace ErrorEvents

/-- The kind of the events. -/
def kind : PyText := "error".toList

/-- Opcodes whose command words hold an LBA: write and read. -/
def lbaOpcodes : List Int := [0x01, 0x02]

/-- The fields of the line, in order. -/
def fields : List Field :=
  [⟨"ERROR_EVENT ts_ns=".toList, false⟩, ⟨" ctrl=".toList, true⟩,
    ⟨" qid=".toList, true⟩,
    ⟨" cid=".toList, true⟩, ⟨" tag=".toList, true⟩, ⟨" opcode=".toList, true⟩,
    ⟨" nsid=".toList, true⟩, ⟨" status=".toList, true⟩, ⟨" sct=".toList, true⟩,
    ⟨" sc=".toList, true⟩, ⟨" dnr=".toList, true⟩, ⟨" more=".toList, true⟩,
    ⟨" crd=".toList, true⟩, ⟨" slba=".toList, false⟩, ⟨" nlb=".toList, true⟩,
    ⟨" retries=".toList, true⟩, ⟨" cached=".toList, true⟩,
    ⟨" elapsed_ns=".toList, false⟩]

/-- `_summary`: the event in a sentence. -/
def summary (d : ErrorEventDetail) (qid : Int) : PyText :=
  let place :=
    if d.lbaValid then ", LBA ".toList ++ ofInt d.slba ++ '+' :: ofInt d.nlb
    else []
  let nsidTxt :=
    if d.nsid = 0xFFFFFFFF then "0xFFFFFFFF(broadcast)".toList else ofInt d.nsid
  let dnr := if d.dnr then ", DNR(재시도 불가)".toList else []
  let retried :=
    if d.retries ≠ 0 then ", 재시도 ".toList ++ ofInt d.retries ++ ['회'] else []
  d.opcodeName ++ "(0x".toList ++ hex 2 d.opcode ++ ") 실패 — ".toList ++
    d.sctName ++ '/' ::
    d.scName ++ " (status=0x".toList ++ hex 4 d.status ++ [')'] ++ dnr ++
      retried ++
    " (qid=".toList ++ ofInt qid ++ ", cid=".toList ++ ofInt d.cid ++
      ", nsid=".toList ++
    nsidTxt ++ place ++ [')']

/-- The detail of a line, once its integers are read.  Opcode and namespace are
cut back to their width, and the status is taken apart again. -/
def detail (qid cid tag opcode nsid status slba nlb retries cached : Int)
    (elapsed : ℚ) :
    ErrorEventDetail :=
  let opcode := opcode % 256
  let cached := decide (cached ≠ 0)
  let dec := decodeStatus status
  { cid := cid
    tag := tag
    opcode := opcode
    opcodeName := if cached then opcodeName opcode (decide (qid = 0))
      else "미상".toList
    nsid := nsid % 4294967296
    status := status
    sct := dec.sct
    sc := dec.sc
    sctName := dec.sctName
    scName := dec.scName
    dnr := dec.dnr
    more := dec.more
    crd := dec.crd
    retries := retries
    slba := slba
    nlb := nlb
    lbaValid := cached && decide (qid ≠ 0) && decide (opcode ∈ lbaOpcodes)
    submitCached := cached
    elapsedUs := elapsed / 1000 }

/-- The event of a line. -/
def event (now : ℚ) (ctrl qid : Int) (detail : ErrorEventDetail) :
    NvmeEvent where
  kind := kind
  observedAt := now
  device := "nvme".toList ++ ofInt ctrl
  qid := qid
  summary := summary detail qid
  error := some detail

variable [UnicodeDb]

/-- `_EVENT_RE` -/
def eventRe : Pattern := eventPattern fields

/-- What `_parse_line` reads from a line: the controller, the queue and the
detail, nothing for a line in another format, or an exception for an integer
that is out of range.  The printed parts of the status are not read. -/
def parseDetail (line : PyText) :
    Except PyError (Option (Int × Int × ErrorEventDetail)) :=
  match match? eventRe (strip line) with
  | some [_, ctrl, qid, cid, tag, opcode, nsid, status, _, _, _, _, _, slba,
      nlb, retries, cached,
      elapsedNs] => do
      let qidI ← pyInt qid
      let opcodeI ← pyInt opcode
      let nsidI ← pyInt nsid
      let statusI ← pyInt status
      let cachedI ← pyInt cached
      let cidI ← pyInt cid
      let tagI ← pyInt tag
      let retriesI ← pyInt retries
      let slbaI ← pyInt slba
      let nlbI ← pyInt nlb
      let elapsedI ← pyInt elapsedNs
      let elapsed ← floatOfInt elapsedI
      let ctrlI ← pyInt ctrl
      return some (ctrlI, qidI,
        detail qidI cidI tagI opcodeI nsidI statusI slbaI nlbI retriesI
          cachedI elapsed)
  | _ => .ok none

/-- `_parse_line`, called when the clock reads `now`. -/
def parseLine (now : ℚ) (line : PyText) :
    Except PyError (Option NvmeEvent) := do
  let found ← parseDetail line
  return found.map (fun f => event now f.1 f.2.1 f.2.2)

/-- A line whose integers Python can convert, if it is in the format at all. -/
def Readable (line : PyText) : Prop :=
  match match? eventRe (strip line) with
  | some [_, ctrl, qid, cid, tag, opcode, nsid, status, _, _, _, _, _, slba,
      nlb, retries, cached,
      elapsedNs] =>
      (∀ s ∈ [ctrl, qid, cid, tag, opcode, nsid, status, slba, nlb, retries,
        cached, elapsedNs],
        (unsign s).length ≤ maxStrDigits) ∧
          (intValue elapsedNs).natAbs < floatLimit
  | _ => True

/-- **When a line is read without an exception.** -/
theorem succeeds_parseDetail (line : PyText) :
    Succeeds (parseDetail line) ↔ Readable line := by
  unfold parseDetail Readable
  split
  · simp only [succeeds_pyInt_bind, succeeds_floatOfInt_bind,
      List.forall_mem_cons]
    have hdone :
        ∀ found, Succeeds
        (pure (some found) : Except PyError
        (Option (Int × Int × ErrorEventDetail))) :=
      fun found => succeeds_ok (some found)
    grind
  · exact iff_of_true (succeeds_ok _) trivial

end ErrorEvents

end Telemetryd
