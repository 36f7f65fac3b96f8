import Mathlib.Data.List.Sort
import Telemetryd.EventLines
import Telemetryd.LastTick
import Telemetryd.Lib.OrderedDict
import Telemetryd.LogFile
import Telemetryd.Models

/-!
# The I/O of the processes

`backend/proc_stats.py`: the last complete tick in the tail of the collector's
log is parsed into raw counters, one record a controller and process, and these
into statistics.  A line is looked at by four patterns in turn; in those of the
maps with the name of a process the name is whatever stands before the last
closing bracket.
-/

namespace Telemetryd

open PyText Regex PyError Utf8

/-- `_TAIL_BYTES` -/
def procTailBytes : Nat := 2 * 1024 * 1024

/-- The raw counters of one process on one controller. -/
structure RawProc where
  comm : PyText := []
  ops : Int := 0
  read : Int := 0
  write : Int := 0
  bytes : Int := 0
  latSum : Int := 0
  latCnt : Int := 0
  seq : Int := 0
  rand : Int := 0
  sizes : OrderedDict Int Int := .empty
  queues : OrderedDict Int Int := .empty
  /-- The name and the counter of each thread. -/
  threads : OrderedDict Int (PyText × Int) := .empty

/-- `{(ctrl_id, tgid): …}` -/
abbrev Procs := OrderedDict (Int × Int) RawProc

/-- `slot(ctrl, tgid)`, and what is then done to the slot. -/
def Procs.update (procs : Procs) (key : Int × Int) (f : RawProc → RawProc) :
    Procs :=
  procs.insert key (f ((procs.get? key).getD {}))

namespace RawProc

/-- A line of `@proc_ops`. -/
def addOps (comm : PyText) (n : Int) (raw : RawProc) : RawProc :=
  { raw with comm := comm, ops := raw.ops + n }

/-- A line of `@thr_ops`. -/
def addThread (tid : Int) (comm : PyText) (n : Int) (raw : RawProc) : RawProc :=
  { raw with threads := raw.threads.insert tid (comm,
    ((raw.threads.get? tid).map Prod.snd).getD 0 + n) }

/-- A line of a map with two keys. -/
def addCounter (name : PyText) (v : Int) (raw : RawProc) : RawProc :=
  if name = "proc_bytes".toList then { raw with bytes := raw.bytes + v }
  else if name = "proc_rd".toList then { raw with read := raw.read + v }
  else if name = "proc_wr".toList then { raw with write := raw.write + v }
  else if name = "proc_lat_sum".toList
    then { raw with latSum := raw.latSum + v }
  else if name = "proc_lat_cnt".toList
    then { raw with latCnt := raw.latCnt + v }
  else if name = "proc_seq".toList then { raw with seq := raw.seq + v }
  else if name = "proc_rand".toList then { raw with rand := raw.rand + v }
  else raw

/-- A line of a map with three keys. -/
def addBucket (name : PyText) (k v : Int) (raw : RawProc) : RawProc :=
  if name = "proc_bs".toList then
    { raw with sizes := raw.sizes.insert k ((raw.sizes.get? k).getD 0 + v) }
  else { raw with queues := raw.queues.insert k ((raw.queues.get? k).getD 0 +
    v) }

/-- A counter leaves the commands, the tables and the threads alone. -/
theorem addCounter_frame (raw : RawProc) (name : PyText) (v : Int) :
    (addCounter name v raw).ops = raw.ops ∧
      (addCounter name v raw).sizes = raw.sizes ∧
      (addCounter name v raw).queues = raw.queues ∧
      (addCounter name v raw).threads = raw.threads := by
  unfold addCounter
  repeat' split
  all_goals exact ⟨rfl, rfl, rfl, rfl⟩

/-- A table leaves the commands and the threads alone. -/
theorem addBucket_frame (raw : RawProc) (name : PyText) (k v : Int) :
    (addBucket name k v raw).ops = raw.ops ∧
      (addBucket name k v raw).threads = raw.threads := by
  unfold addBucket
  split
  all_goals exact ⟨rfl, rfl⟩

end RawProc

section

variable [UnicodeDb]

/-! ### Patterns -/

/-- The class `.`. -/
def isDot (c : Char) : Bool := c != '\n'

/-- `(-?\d+), ` in front of a pattern. -/
def keyThen (rest : Pattern) : Pattern := intGroup :: text ", ".toList :: rest

/-- `\]:\s*(\d+)$` -/
def valueEnd : Pattern :=
  [text [']', ':'], skip (.many 0 isSpace), numGroup, skip .eos]

/-- `_RE_PROC_OPS` -/
def procOpsRe : Pattern :=
  text "@proc_ops[".toList ::
    keyThen (keyThen (group [.many 0 isDot] :: valueEnd))

/-- `_RE_THR_OPS` -/
def thrOpsRe : Pattern :=
  text "@thr_ops[".toList ::
    keyThen (keyThen (keyThen (group [.many 0 isDot] :: valueEnd)))

/-- `_RE_2KEY` -/
def twoKeyRe : Pattern :=
  text ['@'] ::
    group [.oneOf ["proc_bytes".toList, "proc_rd".toList, "proc_wr".toList,
    "proc_lat_sum".toList, "proc_lat_cnt".toList, "proc_seq".toList,
    "proc_rand".toList]] ::
    text ['['] :: keyThen (intGroup :: valueEnd)

/-- `_RE_3KEY` -/
def threeKeyRe : Pattern :=
  text ['@'] :: group [.oneOf ["proc_bs".toList, "proc_q".toList]] ::
    text ['['] :: keyThen (keyThen (intGroup :: valueEnd))

/-! ### One tick -/

/-- The groups of `_RE_PROC_OPS`. -/
def Procs.addProcOps (procs : Procs) : List PyText → Except PyError Procs
  | [ctrl, tgid, comm, n] => do
      let ctrl ← pyInt ctrl
      let tgid ← pyInt tgid
      let n ← pyInt n
      return procs.update (ctrl, tgid) (.addOps comm n)
  | _ => .ok procs

/-- The groups of `_RE_THR_OPS`. -/
def Procs.addThrOps (procs : Procs) : List PyText → Except PyError Procs
  | [ctrl, tgid, tid, comm, n] => do
      let ctrl ← pyInt ctrl
      let tgid ← pyInt tgid
      let tid ← pyInt tid
      let n ← pyInt n
      return procs.update (ctrl, tgid) (.addThread tid comm n)
  | _ => .ok procs

/-- The groups of `_RE_2KEY`. -/
def Procs.addTwoKey (procs : Procs) : List PyText → Except PyError Procs
  | [name, ctrl, tgid, v] => do
      let ctrl ← pyInt ctrl
      let tgid ← pyInt tgid
      let v ← pyInt v
      return procs.update (ctrl, tgid) (.addCounter name v)
  | _ => .ok procs

/-- The groups of `_RE_3KEY`. -/
def Procs.addThreeKey (procs : Procs) : List PyText → Except PyError Procs
  | [name, ctrl, tgid, k, v] => do
      let ctrl ← pyInt ctrl
      let tgid ← pyInt tgid
      let k ← pyInt k
      let v ← pyInt v
      return procs.update (ctrl, tgid) (.addBucket name k v)
  | _ => .ok procs

/-- The body of the loop of `parse_tick`. -/
def Procs.parseLine (procs : Procs) (line : PyText) : Except PyError Procs :=
  let line := strip line
  if ¬ "@proc".toList <+: line ∧ ¬ "@thr_ops".toList <+: line then .ok procs
  else match match? procOpsRe line with
    | some groups => procs.addProcOps groups
    | none => match match? thrOpsRe line with
      | some groups => procs.addThrOps groups
      | none => match match? twoKeyRe line with
        | some groups => procs.addTwoKey groups
        | none => match match? threeKeyRe line with
          | some groups => procs.addThreeKey groups
          | none => .ok procs

/-- `parse_tick` -/
def parseTick (segment : PyText) : Except PyError Procs :=
  (splitlines segment).foldlM Procs.parseLine .empty

end

/-! ### Statistics -/

/-- The threads, those with the most I/O first. -/
def threadStats (threads : OrderedDict Int (PyText × Int)) :
    Except PyError (List ThreadIoStat) :=
  (threads.items.insertionSort (fun a b => b.2.2 ≤ a.2.2)).mapM (fun e => do
    let iops ← floatOfInt e.2.2
    return { tid := e.1, comm := e.2.1, iops := iops })

/-- The average latency in nanoseconds, 0 if nothing was completed. -/
def RawProc.avgLatNs (raw : RawProc) : Except PyError ℚ :=
  if raw.latCnt ≠ 0 then trueDiv raw.latSum raw.latCnt else .ok 0

/-- The share of sequential I/O, if there was any. -/
def RawProc.seqRatio (raw : RawProc) : Except PyError (Option ℚ) :=
  let seqTotal := raw.seq + raw.rand
  if seqTotal ≠ 0 then some <$> trueDiv raw.seq seqTotal else .ok none

/-- `_to_stat` -/
def toStat (ctrlId tgid : Int) (raw : RawProc) :
    Except PyError ProcessIoStat := do
  let avgLatNs ← raw.avgLatNs
  let avgLatUs := avgLatNs / 1000
  let iops ← floatOfInt raw.ops
  let qdEst := if avgLatUs ≠ 0 then iops * (avgLatUs / 1000000) else 0
  let sizes := raw.sizes.items.insertionSort (fun a b => b.2 ≤ a.2)
  let seqRatio ← raw.seqRatio
  let threads ← threadStats raw.threads
  let readIops ← floatOfInt raw.read
  let writeIops ← floatOfInt raw.write
  let bandwidth ← floatOfInt raw.bytes
  return {
    device := "nvme".toList ++ ofInt ctrlId
    pid := tgid
    comm := if raw.comm ≠ [] then raw.comm
      else (threads.head?.map ThreadIoStat.comm).getD []
    iops := iops
    readIops := readIops
    writeIops := writeIops
    bandwidthBps := bandwidth
    avgLatencyUs := avgLatUs
    ioSizeDominant := (sizes.head?.map Prod.fst).getD 0
    ioSizeHist := sizes
    queues := raw.queues.items.insertionSort (fun a b => a.1 ≤ b.1)
    queueDepthEst := qdEst
    seqRatio := seqRatio
    threads := threads }

/-- The statistics of the controllers that are asked for, the process with the
most I/O first. -/
def processStats (procs : Procs) (want : Option Int) :
    Except PyError (List ProcessIoStat) := do
  let chosen :=
    procs.items.filter (fun e => decide (want = none ∨ some e.1.1 = want))
  let out ← chosen.mapM (fun e => toStat e.1.1 e.1.2 e.2)
  return out.insertionSort (fun a b => b.iops ≤ a.iops)

section

variable [UnicodeDb]

/-- The controllers that are asked for: all of them, one, or none. -/
def wanted (device : Option PyText) : Except PyError (Option (Option Int)) :=
  match device with
  | none => .ok (some none)
  | some d => match match? deviceRe d with
      | some [n] => do
          let n ← pyInt n
          return some (some n)
      | _ => .ok none

/-- `read_process_stats` -/
def readProcessStats (file : Option Bytes) (device : Option PyText) :
    Except PyError (List ProcessIoStat) := do
  let procs ← parseTick ((lastComplete (readTail procTailBytes file)).getD [])
  match ← wanted device with
  | none => return []
  | some want => processStats procs want

end

end Telemetryd
