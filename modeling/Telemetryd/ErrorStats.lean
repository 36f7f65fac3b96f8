import Mathlib.Data.List.Sort
import Telemetryd.EventLines
import Telemetryd.Lib.OrderedDict
import Telemetryd.LogFile
import Telemetryd.Models
import Telemetryd.NvmeConst

/-!
# How often each error was returned

The second half of `backend/ebpf_error_events.py`: the cumulative counters
`@err_count[ctrl, sct, sc]` in the tail of the collector's log, and the rows of
one device.  All of the tail is parsed, line by line, and a later line for a key
overwrites an earlier one.
-/

namespace Telemetryd

open PyText Regex PyError Utf8

/-- `_TAIL_BYTES` -/
def errTailBytes : Nat := 512 * 1024

/-- `(ctrl, sct, sc)` -/
abbrev ErrKey := Int × Int × Int

section

variable [UnicodeDb]

/-- `_ERR_COUNT_RE` -/
def errCountRe : Pattern :=
  text "@err_count[".toList :: intGroup :: text [','] ::
    skip (.many 0 isSpace) :: intGroup ::
    text [','] :: skip (.many 0 isSpace) :: intGroup :: text [']', ':'] ::
    skip (.many 0 isSpace) :: numGroup :: endOfLine

/-- The body of the loop of `_parse_err_counts`. -/
def addErrCount (counts : OrderedDict ErrKey Int) (line : PyText) :
    Except PyError (OrderedDict ErrKey Int) :=
  match match? errCountRe (strip line) with
  | some [ctrl, sct, sc, n] => do
      let n ← pyInt n
      let ctrl ← pyInt ctrl
      let sct ← pyInt sct
      let sc ← pyInt sc
      return counts.insert (ctrl, sct, sc) n
  | _ => .ok counts

/-- `_parse_err_counts` -/
def parseErrCounts (t : PyText) : Except PyError (OrderedDict ErrKey Int) :=
  (splitlines t).foldlM addErrCount .empty

/-- The order of the rows, `(-count, sct, sc)`. -/
def errRowLE (a b : ErrorStatusCount) : Prop :=
  b.count < a.count ∨
    (a.count = b.count ∧ (a.sct < b.sct ∨ (a.sct = b.sct ∧ a.sc ≤ b.sc)))

instance : DecidableRel errRowLE :=
  fun _ _ => inferInstanceAs (Decidable (_ ∨ _))

/-- The row of an entry. -/
def errRow (e : ErrKey × Int) : ErrorStatusCount where
  sct := e.1.2.1
  sc := e.1.2.2
  sctName := sctName e.1.2.1
  scName := scName e.1.2.1 e.1.2.2
  count := e.2

/-- `read_error_stats` -/
def readErrorStats (file : Option Bytes) (device : PyText) :
    Except PyError DeviceErrorStats :=
  match match? deviceRe device with
  | some [n] => do
      let id ← pyInt n
      if file = none then
        return {
          device := device
          available := false
          error := some ("eBPF 수집기 로그 없음 — nvme_perf.bt가 안 떠 있음 ".toList ++
            "(DESIGN.md §9.6 참고: chroot로 게스트에서 bpftrace 실행 필요)".toList) }
      else
        let counts ← parseErrCounts (readTail errTailBytes file)
        let rows := ((counts.items.filter (fun e => decide (e.1.1 = id))).map
          errRow).insertionSort
          errRowLE
        return {
          device := device
          counts := rows
          total := (rows.map ErrorStatusCount.count).sum
          available := true }
  | _ => .ok {
      device := device
      available := false
      error := some ("디바이스 이름 형식이 아님: ".toList ++ PyText.repr device) }

end

end Telemetryd
