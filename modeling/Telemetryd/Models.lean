import Mathlib.Data.Rat.Defs
import Telemetryd.Lib.PyText

/-!
# Data model

The dataclasses of `models.py` that the target registry, the adapters, the
profiler service and the event readers exchange.  Floats are exact rationals.
Text is the list of its code points.
-/

namespace Telemetryd

/-- I/O issued by one thread over the last tick. -/
structure ThreadIoStat where
  tid : Int
  comm : PyText
  iops : ℚ
  deriving DecidableEq

/-- I/O of one process on one device over the last tick. -/
structure ProcessIoStat where
  device : PyText
  pid : Int
  comm : PyText
  iops : ℚ
  readIops : ℚ
  writeIops : ℚ
  bandwidthBps : ℚ
  avgLatencyUs : ℚ
  ioSizeDominant : Int
  ioSizeHist : List (Int × Int)
  queues : List (Int × Int)
  queueDepthEst : ℚ
  seqRatio : Option ℚ
  threads : List ThreadIoStat
  deriving DecidableEq

/-- One process of the kernel's task list. -/
structure ProcessInfo where
  pid : Int
  comm : PyText
  cmdline : PyText := []
  exePath : PyText := []
  startTimeNs : Int := 0
  threadCount : Int := 0
  threads : List (Int × PyText) := []
  error : Option PyText := none
  deriving DecidableEq

/-- The kinds of target rule; `other` is any text that is none of them. -/
inductive RuleKind where
  | pid
  | name
  | namePattern
  | cmdlinePattern
  | other (text : PyText)
  deriving DecidableEq

/-- The text a kind is written as. -/
def RuleKind.text : RuleKind → PyText
  | .pid => "pid".toList
  | .name => "name".toList
  | .namePattern => "name_pattern".toList
  | .cmdlinePattern => "cmdline_pattern".toList
  | .other t => t

/-- Membership in `VALID_KINDS`. -/
def RuleKind.valid : RuleKind → Bool
  | .other _ => false
  | _ => true

/-- A rule that selects target processes. -/
structure TargetRule where
  kind : RuleKind
  value : PyText
  adapter : Option PyText := none
  deriving DecidableEq

/-- The workload an adapter expects. -/
structure WorkloadSpec where
  ioSize : Option Int := none
  rw : Option PyText := none
  pattern : Option PyText := none
  queueDepth : Option Int := none
  ioengine : Option PyText := none
  direct : Option Bool := none
  filename : Option PyText := none
  numjobs : Option Int := none
  runtimeSec : Option Int := none
  deriving DecidableEq

/-- The workload that was measured. -/
structure MeasuredWorkload where
  ioSizeDominant : Int := 0
  readRatio : ℚ := 0
  writeRatio : ℚ := 0
  queueDepthAvg : ℚ := 0
  iops : ℚ := 0
  bandwidthBps : ℚ := 0
  deriving DecidableEq

/-- Threads an adapter has put together. -/
structure LogicalGroup where
  name : PyText
  type : PyText
  source : PyText
  threadTids : List Int := []
  expectedWorkload : Option WorkloadSpec := none
  measuredWorkload : Option MeasuredWorkload := none
  expectationMatch : Option Bool := none
  mismatchReasons : List PyText := []
  inferred : Bool := false
  progressPct : Option ℚ := none
  deriving DecidableEq

/-- The states that a session is in. -/
inductive SessionStatus where
  | active
  | finished
  deriving DecidableEq

/-- The text of a status. -/
def SessionStatus.text : SessionStatus → PyText
  | .active => "active".toList
  | .finished => "finished".toList

/-- The observation of one process over its life. -/
structure Session where
  sessionId : PyText
  pid : Int
  comm : PyText
  cmdline : PyText
  exePath : PyText := []
  adapter : PyText := "generic".toList
  status : SessionStatus := .active
  startTimeNs : Int := 0
  sessionStartNs : Int := 0
  sessionEndNs : Option Int := none
  devices : List PyText := []
  threadCountActive : Int := 0
  aggregate : Option MeasuredWorkload := none
  logicalGroups : List LogicalGroup := []
  matchedRule : Option PyText := none
  deriving DecidableEq

/-- I/O of a process that no rule selects. -/
structure UnmonitoredIo where
  pid : Int
  comm : PyText
  device : PyText
  ioRate : ℚ
  note : PyText := "관측 대상 아님. 세션 집계에 포함되지 않음".toList
  deriving DecidableEq

/-- The I/O of one device, attributed to sessions as far as possible. -/
structure DeviceAttribution where
  name : PyText
  totalIops : ℚ := 0
  attributedIops : ℚ := 0
  unattributedIops : ℚ := 0
  contributingSessions : List PyText := []
  multiProcessWarning : Bool := false
  deriving DecidableEq

/-- What one refresh reports. -/
structure ProfileSnapshot where
  schemaVersion : PyText := "2.0".toList
  collectedAtNs : Int := 0
  sessions : List Session := []
  unmonitoredIo : List UnmonitoredIo := []
  devices : List DeviceAttribution := []
  rules : List TargetRule := []
  available : Bool := true
  error : Option PyText := none
  deriving DecidableEq

/-- One line of the list that targets are chosen from. -/
structure ProcessListEntry where
  info : ProcessInfo
  ioActive : Bool := false
  ioRate : ℚ := 0
  targetDevices : List PyText := []
  isTarget : Bool := false
  matchedRule : Option PyText := none
  selectable : Bool := true
  unselectableReason : Option PyText := none
  deriving DecidableEq

/-! ### Performance -/

/-- The performance of one queue over the last tick. -/
structure QueuePerf where
  qid : Int
  iops : ℚ
  readIops : ℚ
  writeIops : ℚ
  bandwidthBytesPerSec : ℚ
  avgLatencyUs : ℚ
  p50LatencyUs : ℚ := 0
  p95LatencyUs : ℚ := 0
  p99LatencyUs : ℚ := 0
  p999LatencyUs : ℚ := 0
  deriving DecidableEq

/-! ### Events -/

/-- What is known of a command that timed out. -/
structure TimeoutEventDetail where
  tag : Int
  opcode : Int
  opcodeName : PyText
  nsid : Int
  flags : Int
  cdw10 : Int
  cdw11 : Int
  cdw12 : Int
  cdw13 : Int
  cdw14 : Int
  cdw15 : Int
  elapsedUs : ℚ
  deriving DecidableEq

/-- What is known of a command that was completed with an error status. -/
structure ErrorEventDetail where
  cid : Int
  tag : Int
  opcode : Int
  opcodeName : PyText
  nsid : Int
  status : Int
  sct : Int
  sc : Int
  sctName : PyText
  scName : PyText
  dnr : Bool
  more : Bool
  crd : Int
  retries : Int
  slba : Int
  nlb : Int
  lbaValid : Bool
  submitCached : Bool
  elapsedUs : ℚ
  deriving DecidableEq

/-- One event; the slot of its kind is filled. -/
structure NvmeEvent where
  kind : PyText
  observedAt : ℚ
  device : PyText
  qid : Int
  summary : PyText
  timeout : Option TimeoutEventDetail := none
  error : Option ErrorEventDetail := none
  deriving DecidableEq

/-- How often one status was returned. -/
structure ErrorStatusCount where
  sct : Int
  sc : Int
  sctName : PyText
  scName : PyText
  count : Int
  deriving DecidableEq

/-- `DeviceErrorStats`. -/
structure DeviceErrorStats where
  device : PyText
  counts : List ErrorStatusCount := []
  total : Int := 0
  available : Bool := true
  error : Option PyText := none
  deriving DecidableEq

end Telemetryd
