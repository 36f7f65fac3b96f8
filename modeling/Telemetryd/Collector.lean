import Telemetryd.CollectorLines
import Telemetryd.Lib.OrderedDict

/-!
# The collector

`ebpf/nvme_perf.bt` as a state machine over its maps.  Its steps are the probes:
a command is set up, a request is completed, a request times out, a second has
passed.  A step changes the maps and prints lines; the tick that is printed
every second dumps nineteen of the maps and ends with a marker line.

Integers are 64-bit words.  Keys are signed, as they are printed; counters are
unsigned and wrap around.
-/

namespace Telemetryd

open PyText Utf8

/-- A map of counters. -/
abbrev Counters (κ : Type) := OrderedDict κ UInt64

/-- The keys of a map with two. -/
abbrev Key2 := Int64 × Int64
/-- The keys of a map with three. -/
abbrev Key3 := Int64 × Int64 × Int64

namespace Counters

variable {κ : Type} [DecidableEq κ]

/-- The value of a key, 0 when it is not there. -/
def word (m : Counters κ) (k : κ) : UInt64 := (m.get? k).getD 0

/-- `@m[k] += v`, and `@m[k] = count()` for 1. -/
def add (m : Counters κ) (k : κ) (v : UInt64) : Counters κ :=
  m.insert k (word m k + v)

end Counters

open Counters

/-- The maps that a tick prints. -/
structure Maps where
  /-- The number of ticks that were printed before, each in an order of its
  own. -/
  tick : Nat := 0
  opCount : Counters Key2 := .empty
  readCount : Counters Key2 := .empty
  writeCount : Counters Key2 := .empty
  bytesSum : Counters Key2 := .empty
  latSum : Counters Key2 := .empty
  latCount : Counters Key2 := .empty
  latHist : OrderedDict Key2 Hist := .empty
  errCount : Counters Key3 := .empty
  procOps : Counters (Int64 × Int64 × Comm) := .empty
  procBytes : Counters Key2 := .empty
  procRd : Counters Key2 := .empty
  procWr : Counters Key2 := .empty
  procBs : Counters Key3 := .empty
  procQ : Counters Key3 := .empty
  procLatSum : Counters Key2 := .empty
  procLatCnt : Counters Key2 := .empty
  procSeq : Counters Key2 := .empty
  procRand : Counters Key2 := .empty
  thrOps : Counters (Int64 × Int64 × Int64 × Comm) := .empty

/-- The collector between two probes. -/
structure Collector where
  maps : Maps := {}
  start : Counters Key3 := .empty
  cmdTgid : OrderedDict Key3 Int64 := .empty
  lastLbaEnd : Counters Key2 := .empty
  errBudget : Counters Int64 := .empty
  toTs : Counters Key3 := .empty
  toOpcode : OrderedDict Key3 Int64 := .empty
  toNsid : OrderedDict Key3 Int64 := .empty
  toFlags : OrderedDict Key3 Int64 := .empty
  toCdw10 : OrderedDict Key3 UInt32 := .empty
  toCdw11 : OrderedDict Key3 UInt32 := .empty
  toCdw12 : OrderedDict Key3 UInt32 := .empty
  toCdw13 : OrderedDict Key3 UInt32 := .empty
  toCdw14 : OrderedDict Key3 UInt32 := .empty
  toCdw15 : OrderedDict Key3 UInt32 := .empty

/-- What the collector writes: a line, or the marker that ends a tick. -/
inductive Entry where
  | line (l : PrintedLine)
  | mark

/-! ### The probes -/

/-- `tracepoint:nvme:nvme_setup_cmd`, in the context of the submitting task. -/
structure SetupCmd where
  nsecs : UInt64
  ctrl : Int64
  qid : Int64
  cid : Int64
  opcode : UInt8
  flags : UInt8
  nsid : UInt32
  /-- The bytes of the command words 10 to 15. -/
  cdw10 : Fin 24 → UInt8
  pid : Int64
  tid : Int64
  comm : Comm

/-- `tracepoint:nvme:nvme_complete_rq`. -/
structure CompleteRq where
  nsecs : UInt64
  ctrl : Int64
  qid : Int64
  cid : Int64
  status : UInt16
  retries : UInt8

/-- `kprobe:nvme_timeout`. -/
structure NvmeTimeout where
  nsecs : UInt64
  ctrl : Int64
  qid : Int64
  tag : Int64

/-- What the tracer is called for. -/
inductive Probe where
  | setupCmd (args : SetupCmd)
  | completeRq (args : CompleteRq)
  | nvmeTimeout (args : NvmeTimeout)
  | interval

namespace SetupCmd

variable (a : SetupCmd)

instance neZeroCdw10 : NeZero 24 := ⟨by decide⟩

/-- The command word at a byte offset, little endian. -/
def dword (i : Fin 21) : UInt32 :=
  let byte (j : Nat) (h : i.val + j < 24) := (a.cdw10 ⟨i.val + j, h⟩).toUInt32
  byte 0 (by omega) ||| (byte 1 (by omega) <<< 8) |||
    (byte 2 (by omega) <<< 16) |||
    (byte 3 (by omega) <<< 24)

/-- The number of logical blocks, less one. -/
def nlb : UInt64 := ((a.cdw10 9).toUInt64 <<< 8) ||| (a.cdw10 8).toUInt64

/-- The bytes of a read or write. -/
def transferred : UInt64 := (a.nlb + 1) * 512

/-- The first logical block. -/
def slba : UInt64 := ((a.dword 4).toUInt64 <<< 32) ||| (a.dword 0).toUInt64

/-- The opcode is that of a write or a read. -/
def isIo : Bool := a.opcode == 1 || a.opcode == 2

/-- The blk-mq tag. -/
def tag : Int64 := a.cid &&& 0xfff

end SetupCmd

/-- The queue maps of a submission. -/
def Maps.countQueue (m : Maps) (a : SetupCmd) : Maps :=
  let q := (a.ctrl, a.qid)
  { m with
    bytesSum := if a.isIo then add m.bytesSum q a.transferred else m.bytesSum
    writeCount := if a.opcode = 1 then add m.writeCount q 1 else m.writeCount
    readCount := if a.opcode = 2 then add m.readCount q 1 else m.readCount }

/-- The process maps of a submission.  The submission is sequential when it
starts where the process's last one ended. -/
def Maps.countProcess (m : Maps) (a : SetupCmd) (prevEnd : UInt64) : Maps :=
  let p := (a.ctrl, a.pid)
  let sequential := prevEnd ≠ 0 ∧ a.slba = prevEnd
  { m with
    procOps := add m.procOps (a.ctrl, a.pid, a.comm) 1
    thrOps := add m.thrOps (a.ctrl, a.pid, a.tid, a.comm) 1
    procQ := add m.procQ (a.ctrl, a.pid, a.qid) 1
    procBytes := if a.isIo then add m.procBytes p a.transferred else m.procBytes
    procBs := if a.isIo
      then add m.procBs (a.ctrl, a.pid, a.transferred.toInt64) 1 else m.procBs
    procWr := if a.opcode = 1 then add m.procWr p 1 else m.procWr
    procRd := if a.opcode = 2 then add m.procRd p 1 else m.procRd
    procSeq := if a.isIo ∧ sequential then add m.procSeq p 1 else m.procSeq
    procRand := if a.isIo ∧ ¬ sequential then add m.procRand p 1
      else m.procRand }

/-- `tracepoint:nvme:nvme_setup_cmd`. -/
def Collector.setupCmd (s : Collector) (a : SetupCmd) : Collector :=
  let p := (a.ctrl, a.pid)
  let cmd := (a.ctrl, a.qid, a.cid)
  let req := (a.ctrl, a.qid, a.tag)
  { s with
    maps := (s.maps.countQueue a).countProcess a (word s.lastLbaEnd p)
    start := s.start.insert cmd a.nsecs
    lastLbaEnd := if a.isIo then s.lastLbaEnd.insert p (a.slba + a.nlb + 1)
      else s.lastLbaEnd
    cmdTgid := s.cmdTgid.insert cmd a.pid
    toTs := s.toTs.insert req a.nsecs
    toOpcode := s.toOpcode.insert req a.opcode.toInt8.toInt64
    toNsid := s.toNsid.insert req a.nsid.toInt32.toInt64
    toFlags := s.toFlags.insert req a.flags.toInt8.toInt64
    toCdw10 := s.toCdw10.insert req (a.dword 0)
    toCdw11 := s.toCdw11.insert req (a.dword 4)
    toCdw12 := s.toCdw12.insert req (a.dword 8)
    toCdw13 := s.toCdw13.insert req (a.dword 12)
    toCdw14 := s.toCdw14.insert req (a.dword 16)
    toCdw15 := s.toCdw15.insert req (a.dword 20) }

/-- Count a value in a histogram. -/
def Hist.record (h : Hist) (value : UInt64) : Hist :=
  fun i => if i = histIndex value.toInt64 then h i + 1 else h i

/-- The maps of a completion whose submission was seen, at `lat` after it, for
the process that submitted it. -/
def Maps.countLatency (m : Maps) (a : CompleteRq) (lat : UInt64)
    (tgid : Int64) : Maps :=
  let q := (a.ctrl, a.qid)
  let p := (a.ctrl, tgid)
  { m with
    latSum := add m.latSum q lat
    latCount := add m.latCount q 1
    opCount := add m.opCount q 1
    latHist := m.latHist.insert q
      (((m.latHist.get? q).getD (fun _ => 0)).record lat)
    procLatSum := if tgid ≠ 0 then add m.procLatSum p lat else m.procLatSum
    procLatCnt := if tgid ≠ 0 then add m.procLatCnt p 1 else m.procLatCnt }

namespace CompleteRq

variable (a : CompleteRq)

/-- The status code. -/
def sc : UInt64 := (a.status &&& 0xff).toUInt64
/-- The type of the status code. -/
def sct : UInt64 := ((a.status >>> 8) &&& 0x7).toUInt64
/-- The retry delay. -/
def crd : UInt64 := ((a.status >>> 11) &&& 0x3).toUInt64
/-- Whether there is more in the log page. -/
def more : UInt64 := ((a.status >>> 13) &&& 0x1).toUInt64
/-- Whether the command is not to be retried. -/
def dnr : UInt64 := ((a.status >>> 14) &&& 0x1).toUInt64
/-- The low 12 bits of the command id, which are the tag. -/
def tag : Int64 := a.cid &&& 0xfff

end CompleteRq

/-- The line of a completion with an error, from what was cached of its
submission. -/
def Collector.errorLine (s : Collector) (a : CompleteRq) : PyText :=
  let req := (a.ctrl, a.qid, a.tag)
  let ts := word s.toTs req
  let elapsed := if ts ≠ 0 then a.nsecs - ts else 0
  let slba := (((s.toCdw11.get? req).getD 0).toUInt64 <<< 32) |||
    ((s.toCdw10.get? req).getD 0).toUInt64
  let nlb := (((s.toCdw12.get? req).getD 0).toUInt64 &&& 0xffff) + 1
  errorEventLine a.nsecs.toInt64.toInt a.ctrl.toInt a.qid.toInt a.cid.toInt
    a.tag.toInt
    ((s.toOpcode.get? req).getD 0).toInt ((s.toNsid.get? req).getD 0).toInt
      a.status.toNat
    a.sct.toNat a.sc.toNat a.dnr.toNat a.more.toNat a.crd.toNat slba.toNat
      nlb.toNat
    a.retries.toNat (if ts ≠ 0 then 1 else 0) elapsed.toInt64.toInt

/-- The submission is forgotten. -/
def Collector.forget (s : Collector) (a : CompleteRq) : Collector :=
  let cmd := (a.ctrl, a.qid, a.cid)
  let req := (a.ctrl, a.qid, a.tag)
  { s with
    start := if word s.start cmd ≠ 0 then s.start.erase cmd else s.start
    cmdTgid := s.cmdTgid.erase cmd
    toTs := s.toTs.erase req
    toOpcode := s.toOpcode.erase req
    toNsid := s.toNsid.erase req
    toFlags := s.toFlags.erase req
    toCdw10 := s.toCdw10.erase req
    toCdw11 := s.toCdw11.erase req
    toCdw12 := s.toCdw12.erase req
    toCdw13 := s.toCdw13.erase req
    toCdw14 := s.toCdw14.erase req
    toCdw15 := s.toCdw15.erase req }

/-- The counter and the line of an error.  At most fifty lines are printed
between two ticks. -/
def Collector.noteError (s : Collector) (a : CompleteRq) :
    Collector × List Entry :=
  if a.status = 0 then (s, [])
  else
    let budget := word s.errBudget a.ctrl
    let counted := { s with maps := { s.maps with
      errCount := add s.maps.errCount (a.ctrl, a.sct.toInt64,
        a.sc.toInt64) 1 } }
    if budget < 50 then
      ({ counted with errBudget := s.errBudget.insert a.ctrl (budget + 1) },
        [.line (.plain (s.errorLine a))])
    else (counted, [])

/-- `tracepoint:nvme:nvme_complete_rq`. -/
def Collector.completeRq (s : Collector) (a : CompleteRq) :
    Collector × List Entry :=
  let cmd := (a.ctrl, a.qid, a.cid)
  let t0 := word s.start cmd
  let tgid := (s.cmdTgid.get? cmd).getD 0
  let timed :=
    if t0 ≠ 0 then { s with maps := s.maps.countLatency a (a.nsecs - t0) tgid }
    else s
  let noted := timed.noteError a
  (noted.1.forget a, noted.2)

/-- The line of a timeout. -/
def Collector.timeoutLine (s : Collector) (a : NvmeTimeout) : PyText :=
  let req := (a.ctrl, a.qid, a.tag)
  let t0 := word s.toTs req
  let elapsed := if t0 ≠ 0 then a.nsecs - t0 else 0
  timeoutEventLine a.nsecs.toInt64.toInt a.ctrl.toInt a.qid.toInt a.tag.toInt
    ((s.toOpcode.get? req).getD 0).toInt ((s.toNsid.get? req).getD 0).toInt
    ((s.toFlags.get? req).getD 0).toInt ((s.toCdw10.get? req).getD 0).toNat
    ((s.toCdw11.get? req).getD 0).toNat ((s.toCdw12.get? req).getD 0).toNat
    ((s.toCdw13.get? req).getD 0).toNat ((s.toCdw14.get? req).getD 0).toNat
    ((s.toCdw15.get? req).getD 0).toNat elapsed.toInt64.toInt

/-! ### The tick -/

section Print

variable (o : PrintOrder) (tick : Nat)

/-- `print(@name)` of a map with two keys. -/
def print2 (name : PyText) (m : Counters Key2) : List PrintedLine :=
  (o.order tick name m.items).map (fun e =>
    .plain (mapLine name [e.1.1, e.1.2] e.2))

/-- `print(@name)` of a map with three keys. -/
def print3 (name : PyText) (m : Counters Key3) : List PrintedLine :=
  (o.order tick name m.items).map (fun e =>
    .plain (mapLine name [e.1.1, e.1.2.1, e.1.2.2] e.2))

/-- `print(@lat_hist)`. -/
def printHist (name : PyText) (m : OrderedDict Key2 Hist) : List PrintedLine :=
  (o.order tick name m.items).flatMap (fun e =>
    (histLines name [e.1.1, e.1.2] e.2).map .plain)

/-- `print(@proc_ops)`. -/
def printProcOps (m : Counters (Int64 × Int64 × Comm)) : List PrintedLine :=
  (o.order tick "proc_ops".toList m.items).map
    (fun e => commLine "proc_ops".toList [e.1.1, e.1.2.1] e.1.2.2 e.2)

/-- `print(@thr_ops)`. -/
def printThrOps (m : Counters (Int64 × Int64 × Int64 × Comm)) :
    List PrintedLine :=
  (o.order tick "thr_ops".toList m.items).map
    (fun e => commLine "thr_ops".toList [e.1.1, e.1.2.1, e.1.2.2.1]
      e.1.2.2.2 e.2)

/-- The lines of a tick, before its marker. -/
def tickLines (m : Maps) : List PrintedLine :=
  print2 o m.tick "op_count".toList m.opCount ++
    print2 o m.tick "read_count".toList m.readCount ++
    print2 o m.tick "write_count".toList m.writeCount ++
    print2 o m.tick "bytes_sum".toList m.bytesSum ++
    print2 o m.tick "lat_sum".toList m.latSum ++
    print2 o m.tick "lat_count".toList m.latCount ++
    printHist o m.tick "lat_hist".toList m.latHist ++
    print3 o m.tick "err_count".toList m.errCount ++
    printProcOps o m.tick m.procOps ++
    print2 o m.tick "proc_bytes".toList m.procBytes ++
    print2 o m.tick "proc_rd".toList m.procRd ++
    print2 o m.tick "proc_wr".toList m.procWr ++
    print3 o m.tick "proc_bs".toList m.procBs ++
    print3 o m.tick "proc_q".toList m.procQ ++
    print2 o m.tick "proc_lat_sum".toList m.procLatSum ++
    print2 o m.tick "proc_lat_cnt".toList m.procLatCnt ++
    print2 o m.tick "proc_seq".toList m.procSeq ++
    print2 o m.tick "proc_rand".toList m.procRand ++
    printThrOps o m.tick m.thrOps

/-- `interval:s:1`.  The error counters and the ends of the last transfers are
kept. -/
def Collector.interval (s : Collector) : Collector × List Entry :=
  ({ s with
      maps := { tick := s.maps.tick + 1, errCount := s.maps.errCount },
      errBudget := .empty },
    (tickLines o s.maps).map .line ++ [.mark])

/-! ### Runs -/

/-- One probe, and what it writes. -/
def Collector.step (s : Collector) : Probe → Collector × List Entry
  | .setupCmd a => (s.setupCmd a, [])
  | .completeRq a => s.completeRq a
  | .nvmeTimeout a => (s, [.line (.plain (s.timeoutLine a))])
  | .interval => s.interval o

/-- The output of some probes, one after the other. -/
def Collector.output (s : Collector) : List Probe → List Entry
  | [] => []
  | p :: ps => (s.step o p).2 ++ ((s.step o p).1.output ps)

/-- The output of a run from the start. -/
def runOutput (probes : List Probe) : List Entry :=
  .line (.plain attachedLine) :: Collector.output o {} probes

end Print

namespace Entry

/-- The entry as it is written, with its line feed. -/
def bytes : Entry → Bytes
  | line l => l.bytes ++ [10]
  | mark => ascii tickMarker ++ [10]

/-- The entry as it is read, with its line feed. -/
def text : Entry → PyText
  | line l => l.text ++ ['\n']
  | mark => tickMarker ++ ['\n']

end Entry

/-- A log of some output. -/
def logBytes (entries : List Entry) : Bytes := entries.flatMap Entry.bytes

end Telemetryd
