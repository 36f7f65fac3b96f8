import Telemetryd.EventLines
import Telemetryd.Models
import Telemetryd.NvmeConst

/-!
# Timeout events

`backend/ebpf_timeout_events.py`: the line the collector prints when a command
times out, and the event that is read back from it.
-/

namespace Telemetryd

open PyText Regex PyError

namespace TimeoutEvents

/-- The kind of the events. -/
def kind : PyText := "timeout".toList

/-- The fields of the line, in order. -/
def fields : List Field :=
  [⟨"TIMEOUT_EVENT ts_ns=".toList, false⟩, ⟨" ctrl=".toList, true⟩,
    ⟨" qid=".toList, true⟩,
    ⟨" tag=".toList, true⟩, ⟨" opcode=".toList, true⟩, ⟨" nsid=".toList, true⟩,
    ⟨" flags=".toList, true⟩, ⟨" cdw10=".toList, false⟩,
    ⟨" cdw11=".toList, false⟩,
    ⟨" cdw12=".toList, false⟩, ⟨" cdw13=".toList, false⟩,
    ⟨" cdw14=".toList, false⟩,
    ⟨" cdw15=".toList, false⟩, ⟨" elapsed_ns=".toList, false⟩]

/-- The elapsed time in seconds from one second on, else in milliseconds.  The
quotients are exact here and rounded half to even.  The source divides doubles
and formats the result, so at a tie it can round the other way: of 350 us it
makes `0.3ms`, and this makes `0.4ms`. -/
def elapsedText (elapsedUs : ℚ) : PyText :=
  if elapsedUs ≥ 1000000 then fixed1 (elapsedUs / 1000000) ++ ['s']
  else fixed1 (elapsedUs / 1000) ++ "ms".toList

/-- `_summary`: the event in a sentence. -/
def summary (detail : TimeoutEventDetail) (qid : Int) : PyText :=
  detail.opcodeName ++ "(0x".toList ++ hex 2 detail.opcode ++
    ") 커맨드가 ".toList ++
    elapsedText detail.elapsedUs ++ " 동안 완료되지 않음 (qid=".toList ++ ofInt qid ++
    ", tag=".toList ++ ofInt detail.tag ++ ", nsid=".toList ++
      ofInt detail.nsid ++ [')']

/-- The event of a line, once its integers are read. -/
def event (now : ℚ) (ctrl qid : Int) (detail : TimeoutEventDetail) :
    NvmeEvent where
  kind := kind
  observedAt := now
  device := "nvme".toList ++ ofInt ctrl
  qid := qid
  summary := summary detail qid
  timeout := some detail

variable [UnicodeDb]

/-- `_EVENT_RE` -/
def eventRe : Pattern := eventPattern fields

/-- What `_parse_line` reads from a line: the controller, the queue and the
detail, nothing for a line in another format, or an exception for an integer
that is out of range. -/
def parseDetail (line : PyText) :
    Except PyError (Option (Int × Int × TimeoutEventDetail)) :=
  match match? eventRe (strip line) with
  | some [_, ctrl, qid, tag, opcode, nsid, flags, cdw10, cdw11, cdw12, cdw13,
      cdw14, cdw15,
      elapsedNs] => do
      let qidI ← pyInt qid
      let opcodeI ← pyInt opcode
      let tagI ← pyInt tag
      let nsidI ← pyInt nsid
      let flagsI ← pyInt flags
      let cdw10I ← pyInt cdw10
      let cdw11I ← pyInt cdw11
      let cdw12I ← pyInt cdw12
      let cdw13I ← pyInt cdw13
      let cdw14I ← pyInt cdw14
      let cdw15I ← pyInt cdw15
      let elapsedI ← pyInt elapsedNs
      let elapsed ← floatOfInt elapsedI
      let ctrlI ← pyInt ctrl
      return some (ctrlI, qidI,
        { tag := tagI
          opcode := opcodeI
          opcodeName := opcodeName opcodeI (decide (qidI = 0))
          nsid := nsidI
          flags := flagsI
          cdw10 := cdw10I
          cdw11 := cdw11I
          cdw12 := cdw12I
          cdw13 := cdw13I
          cdw14 := cdw14I
          cdw15 := cdw15I
          elapsedUs := elapsed / 1000 })
  | _ => .ok none

/-- `_parse_line`, called when the clock reads `now`. -/
def parseLine (now : ℚ) (line : PyText) :
    Except PyError (Option NvmeEvent) := do
  let found ← parseDetail line
  return found.map (fun f => event now f.1 f.2.1 f.2.2)

/-- A line whose integers Python can convert, if it is in the format at all. -/
def Readable (line : PyText) : Prop :=
  match match? eventRe (strip line) with
  | some [_, ctrl, qid, tag, opcode, nsid, flags, cdw10, cdw11, cdw12, cdw13,
      cdw14, cdw15,
      elapsedNs] =>
      (∀ s ∈ [ctrl, qid, tag, opcode, nsid, flags, cdw10, cdw11, cdw12, cdw13,
        cdw14, cdw15, elapsedNs],
        (unsign s).length ≤ maxStrDigits) ∧
          (intValue elapsedNs).natAbs < floatLimit
  | _ => True

/-- **When a line is read without an exception.** -/
theorem succeeds_parseDetail (line : PyText) :
    Succeeds (parseDetail line) ↔ Readable line := by
  unfold parseDetail Readable
  split
  · simp only [succeeds_pyInt_bind, succeeds_floatOfInt_bind,
      List.forall_mem_cons]
    have hdone :
        ∀ found, Succeeds
        (pure (some found) : Except PyError
        (Option (Int × Int × TimeoutEventDetail))) :=
      fun found => succeeds_ok (some found)
    grind
  · exact iff_of_true (succeeds_ok _) trivial

end TimeoutEvents

end Telemetryd
