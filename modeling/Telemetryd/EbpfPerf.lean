import Mathlib.Data.List.Sort
import Telemetryd.EventLines
import Telemetryd.LastTick
import Telemetryd.Lib.OrderedDict
import Telemetryd.LogFile
import Telemetryd.Models

/-!
# The performance of the queues

`backend/ebpf_perf.py`: the last complete tick of the collector's log is parsed
into the counters of each queue and its latency histogram, and these into rows.
The parser does not look at the names of the maps: every line with two integer
keys is a counter of the queue with these keys.
-/

namespace Telemetryd

open PyText Regex PyError Utf8

/-- `(lo_ns, hi_ns, count)` -/
abbrev Bucket := Int × Int × Int

/-- What a segment of the log is parsed into. -/
structure Parsed where
  scalars : OrderedDict (Int × Int) (OrderedDict PyText Int) := .empty
  hists : OrderedDict (Int × Int) (List Bucket) := .empty

section

variable [UnicodeDb]

/-- `@(\w+)\[(-?\d+),\s*(-?\d+)\]:` in front of a pattern. -/
def twoKeys (rest : Pattern) : Pattern :=
  text ['@'] :: group [.many 1 isWord] :: text ['['] :: intGroup ::
    text [','] ::
    skip (.many 0 isSpace) :: intGroup :: text [']', ':'] :: rest

/-- `_SCALAR_RE` -/
def scalarRe : Pattern :=
  twoKeys (skip (.many 0 isSpace) :: numGroup :: endOfLine)

/-- `_HIST_KEY_RE` -/
def histKeyRe : Pattern := twoKeys endOfLine

/-- The class `[0-9.]`. -/
def isBound (c : Char) : Bool := c.isDigit || c == '.'

/-- The class `[KMG]`. -/
def isUnit (c : Char) : Bool := c == 'K' || c == 'M' || c == 'G'

/-- The group `([0-9.]+[KMG]?)`. -/
def boundGroup : Segment := group [.many 1 isBound, .maybe isUnit]

/-- `_HIST_BUCKET_RE` -/
def histBucketRe : Pattern :=
  [text ['['], boundGroup, text [',', ' '], boundGroup, text [')'],
    skip (.many 1 isSpace),
    numGroup, skip (.many 1 isSpace), text ['|']]

/-- `_SIZE_MULT` -/
def sizeMult (c : Char) : Option Nat :=
  if c = 'K' then some 1024
  else if c = 'M' then some (1024 * 1024)
  else if c = 'G' then some (1024 * 1024 * 1024)
  else none

/-- `_parse_bucket_bound` -/
def parseBucketBound (s : PyText) : Except PyError Int := do
  let s := strip s
  match s.getLast?.bind sizeMult with
  | some mult =>
      let q ← floatOfText s.dropLast
      intOfFloat (q * mult)
  | none =>
      let q ← floatOfText s
      intOfFloat q

/-! ### One segment -/

/-- The line is a row of a histogram. -/
def isBucketRow (line : PyText) : Bool :=
  (match? histBucketRe (strip line)).isSome

/-- A row of a histogram. -/
def parseBucket (line : PyText) : Except PyError Bucket :=
  match match? histBucketRe (strip line) with
  | some [lo, hi, count] => do
      let lo ← parseBucketBound lo
      let hi ← parseBucketBound hi
      let n ← pyInt count
      return (lo, hi, n)
  | _ => .ok (0, 0, 0)

/-- A line `@name[k1, k2]: v`. -/
def Parsed.addScalar (s : Parsed) (groups : List PyText) :
    Except PyError Parsed :=
  match groups with
  | [name, k1, k2, value] => do
      let k1 ← pyInt k1
      let k2 ← pyInt k2
      let v ← pyInt value
      let counters := (s.scalars.get? (k1, k2)).getD .empty
      return { s with scalars :=
        s.scalars.insert (k1, k2) (counters.insert name v) }
  | _ => .ok s

/-- A line `@name[k1, k2]:` and the rows after it. -/
def Parsed.addHist (s : Parsed) (groups : List PyText) (rows : List PyText) :
    Except PyError Parsed :=
  match groups with
  | [_, k1, k2] => do
      let k1 ← pyInt k1
      let k2 ← pyInt k2
      let buckets ← rows.mapM parseBucket
      let old := (s.hists.get? (k1, k2)).getD []
      return { s with hists := s.hists.insert (k1, k2) (old ++ buckets) }
  | _ => .ok s

/-- The loop of `_parse_segment`, after `skip` more lines. -/
def parseFrom (s : Parsed) : Nat → List PyText → Except PyError Parsed
  | _, [] => .ok s
  | skip + 1, _ :: rest => parseFrom s skip rest
  | 0, line :: rest => match match? scalarRe (strip line) with
      | some groups => do
          let s ← s.addScalar groups
          parseFrom s 0 rest
      | none => match match? histKeyRe (strip line) with
          | some groups => do
              let rows := rest.takeWhile isBucketRow
              let s ← s.addHist groups rows
              parseFrom s rows.length rest
          | none => parseFrom s 0 rest

/-- `_parse_segment` -/
def parseSegment (segment : PyText) : Except PyError Parsed :=
  parseFrom {} 0 (splitlines segment)

/-- `_parse_last_complete_tick` -/
def parseLastCompleteTick (text : PyText) : Except PyError Parsed :=
  match lastComplete text with
  | some part => parseSegment part
  | none => .ok {}

/-! ### Rows -/

/-- `_merge_buckets` -/
def mergeBuckets (bucketLists : List (List Bucket)) : List Bucket :=
  (bucketLists.flatten.foldl (fun (merged : OrderedDict (Int × Int) Int) b =>
    merged.insert (b.1, b.2.1) ((merged.get? (b.1, b.2.1)).getD 0 + b.2.2))
      .empty).items.map
      (fun e => (e.1.1, e.1.2, e.2))

/-- The upper bound of the first bucket at which the count so far reaches the
target. -/
def reach (target : ℚ) : Int → List Bucket → Option Int
  | _, [] => none
  | cum, (_, hi, count) :: rest =>
      if target ≤ (cum + count : Int) then some hi
        else reach target (cum + count) rest

/-- `_percentile_ns` -/
def percentileNs (buckets : List Bucket) (p : ℚ) : ℚ :=
  let total := (buckets.map (fun b => b.2.2)).sum
  if total = 0 then 0
  else
    let sorted := buckets.insertionSort (fun a b => a.1 ≤ b.1)
    match reach (p * total) 0 sorted with
    | some hi => hi
    | none => ((sorted.getLast?.map (fun b => b.2.1)).getD 0 : Int)

/-- `counters.get(name, 0)` -/
def counter (counters : OrderedDict PyText Int) (name : PyText) : Int :=
  (counters.get? name).getD 0

/-- The average of some latencies, in the unit of their sum. -/
def avgLatency (latSum latCount : Int) : Except PyError ℚ :=
  if latCount ≠ 0 then trueDiv latSum latCount else .ok 0

/-- `_build_queue_perf` -/
def buildQueuePerf (qid : Int) (counters : OrderedDict PyText Int)
    (buckets : List Bucket) :
    Except PyError QueuePerf := do
  let iops ← floatOfInt (counter counters "op_count".toList)
  let readIops ← floatOfInt (counter counters "read_count".toList)
  let writeIops ← floatOfInt (counter counters "write_count".toList)
  let bandwidth ← floatOfInt (counter counters "bytes_sum".toList)
  let avg ← avgLatency (counter counters "lat_sum".toList)
    (counter counters "lat_count".toList)
  return {
    qid := qid
    iops := iops
    readIops := readIops
    writeIops := writeIops
    bandwidthBytesPerSec := bandwidth
    avgLatencyUs := avg / 1000
    p50LatencyUs := percentileNs buckets (1 / 2) / 1000
    p95LatencyUs := percentileNs buckets (95 / 100) / 1000
    p99LatencyUs := percentileNs buckets (99 / 100) / 1000
    p999LatencyUs := percentileNs buckets (999 / 1000) / 1000 }

/-- The order of `sorted(scalars.items())`: no two keys are equal. -/
def keyLE (a b : (Int × Int) × OrderedDict PyText Int) : Prop :=
  a.1.1 < b.1.1 ∨ (a.1.1 = b.1.1 ∧ a.1.2 ≤ b.1.2)

instance : DecidableRel keyLE := fun _ _ => inferInstanceAs (Decidable (_ ∨ _))

/-- The counters of the queues of a controller, in order. -/
def deviceCounters (parsed : Parsed) (instanceId : Int) :
    List ((Int × Int) × OrderedDict PyText Int) :=
  (parsed.scalars.items.insertionSort keyLE).filter (fun e =>
    decide (e.1.1 = instanceId))

/-- The sums of the counters. -/
def sumCounters (counters : List (OrderedDict PyText Int)) :
    OrderedDict PyText Int :=
  (counters.flatMap (fun c => c.items)).foldl
    (fun (sums : OrderedDict PyText Int) e =>
    sums.insert e.1 (counter sums e.1 + e.2)) .empty

/-- `read_latest_performance` -/
def readLatestPerformance (file : Option Bytes) (instanceId : Int) :
    Except PyError (List QueuePerf × Option QueuePerf) :=
  if file = none then .ok ([], none)
  else do
    let parsed ← parseLastCompleteTick (readAll file)
    let entries := deviceCounters parsed instanceId
    let buckets := fun (key : Int × Int) => (parsed.hists.get? key).getD []
    let queues ← entries.mapM (fun e => buildQueuePerf e.1.2 e.2 (buckets e.1))
    if queues = [] then return ([], none)
    else
      let aggregate ← buildQueuePerf (-1) (sumCounters (entries.map Prod.snd))
        (mergeBuckets (entries.map (fun e => buckets e.1)))
      return (queues, some aggregate)

end

end Telemetryd
