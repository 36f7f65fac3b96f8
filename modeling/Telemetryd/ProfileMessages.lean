import Telemetryd.Convert

/-!
# A profile as protobuf messages

`profile_to_pb` of `grpcserver/convert.py`.  A profile is a tree of messages
whose integers all have a width; it can be sent if and only if every one of
them fits.
-/

namespace Telemetryd

open PyError

/-! ### The messages -/

/-- `WorkloadSpecMsg` of the protocol. -/
structure WorkloadSpecMsg where
  ioSize : UInt32 := 0
  rw : PyText := []
  pattern : PyText := []
  queueDepth : Int32 := 0
  ioengine : PyText := []
  direct : Bool := false
  filename : PyText := []
  numjobs : Int32 := 0
  runtimeSec : Int32 := 0
  hasSpec : Bool := false

/-- `MeasuredWorkloadMsg` of the protocol. -/
structure MeasuredWorkloadMsg where
  ioSizeDominant : UInt32 := 0
  readRatio : ℚ := 0
  writeRatio : ℚ := 0
  queueDepthAvg : ℚ := 0
  iops : ℚ := 0
  bandwidthBps : ℚ := 0

/-- `LogicalGroupMsg` of the protocol. -/
structure LogicalGroupMsg where
  name : PyText
  type : PyText
  source : PyText
  threadTids : List Int32
  expectedWorkload : WorkloadSpecMsg
  measuredWorkload : MeasuredWorkloadMsg
  hasExpectation : Bool
  expectationMatch : Bool
  mismatchReasons : List PyText
  inferred : Bool
  progressPct : ℚ

/-- `SessionMsg` of the protocol. -/
structure SessionMsg where
  sessionId : PyText
  pid : Int32
  comm : PyText
  cmdline : PyText
  exePath : PyText
  adapter : PyText
  status : PyText
  startTimeNs : UInt64
  sessionStartNs : UInt64
  sessionEndNs : UInt64
  devices : List PyText
  threadCountActive : Int32
  aggregate : MeasuredWorkloadMsg
  logicalGroups : List LogicalGroupMsg
  matchedRule : PyText

/-- `UnmonitoredIoMsg` of the protocol. -/
structure UnmonitoredIoMsg where
  pid : Int32
  comm : PyText
  device : PyText
  ioRate : ℚ
  note : PyText

/-- `TargetRuleMsg` of the protocol. -/
structure TargetRuleMsg where
  kind : PyText
  value : PyText
  adapter : PyText

/-- `ProfileReply` of the protocol. -/
structure ProfileReply where
  schemaVersion : PyText
  collectedAtNs : UInt64
  sessions : List SessionMsg
  unmonitoredIo : List UnmonitoredIoMsg
  devices : List DeviceAttribution
  rules : List TargetRuleMsg
  available : Bool
  error : PyText

/-! ### The conversion -/

/-- `_workload_spec_to_pb` -/
def workloadSpecToPb (spec : Option WorkloadSpec) :
    Except PyError WorkloadSpecMsg :=
  match spec with
  | none => .ok {}
  | some w => do
      let ioSize ← toUInt32 (w.ioSize.getD 0)
      let queueDepth ← toInt32 (w.queueDepth.getD 0)
      let numjobs ← toInt32 (w.numjobs.getD 0)
      let runtimeSec ← toInt32 (w.runtimeSec.getD 0)
      return ⟨ioSize, w.rw.getD [], w.pattern.getD [], queueDepth,
        w.ioengine.getD [],
        w.direct.getD false, w.filename.getD [], numjobs, runtimeSec, true⟩

/-- `_measured_to_pb` -/
def measuredToPb (measured : Option MeasuredWorkload) :
    Except PyError MeasuredWorkloadMsg :=
  match measured with
  | none => .ok {}
  | some m => do
      let ioSizeDominant ← toUInt32 m.ioSizeDominant
      return ⟨ioSizeDominant, m.readRatio, m.writeRatio, m.queueDepthAvg,
        m.iops, m.bandwidthBps⟩

/-- The part of `profile_to_pb` for a group; a value beyond the range of its
field raises. -/
def logicalGroupToPb (g : LogicalGroup) : Except PyError LogicalGroupMsg := do
  let threadTids ← g.threadTids.mapM toInt32
  let expectedWorkload ← workloadSpecToPb g.expectedWorkload
  let measuredWorkload ← measuredToPb g.measuredWorkload
  return ⟨g.name, g.type, g.source, threadTids, expectedWorkload,
    measuredWorkload,
    g.expectationMatch.isSome, g.expectationMatch.getD false, g.mismatchReasons,
    g.inferred,
    g.progressPct.getD 0⟩

/-- The part for a session, with 0 for an end that has not come. -/
def sessionToPb (s : Session) : Except PyError SessionMsg := do
  let pid ← toInt32 s.pid
  let startTimeNs ← toUInt64 (max 0 s.startTimeNs)
  let sessionStartNs ← toUInt64 s.sessionStartNs
  let sessionEndNs ← toUInt64 (s.sessionEndNs.getD 0)
  let threadCountActive ← toInt32 s.threadCountActive
  let aggregate ← measuredToPb s.aggregate
  let logicalGroups ← s.logicalGroups.mapM logicalGroupToPb
  return ⟨s.sessionId, pid, s.comm, s.cmdline, s.exePath, s.adapter,
    s.status.text, startTimeNs,
    sessionStartNs, sessionEndNs, s.devices, threadCountActive, aggregate,
    logicalGroups,
    s.matchedRule.getD []⟩

/-- The part for I/O that no rule selects. -/
def unmonitoredIoToPb (u : UnmonitoredIo) :
    Except PyError UnmonitoredIoMsg := do
  let pid ← toInt32 u.pid
  return ⟨pid, u.comm, u.device, u.ioRate, u.note⟩

/-- `target_rule_to_pb`, which has texts only and never raises. -/
def targetRuleToPb (r : TargetRule) : TargetRuleMsg :=
  ⟨r.kind.text, r.value, r.adapter.getD []⟩

/-- `profile_to_pb`: the message of a whole profile, or the first error. -/
def profileToPb (snap : ProfileSnapshot) : Except PyError ProfileReply := do
  let collectedAtNs ← toUInt64 snap.collectedAtNs
  let sessions ← snap.sessions.mapM sessionToPb
  let unmonitoredIo ← snap.unmonitoredIo.mapM unmonitoredIoToPb
  return ⟨snap.schemaVersion, collectedAtNs, sessions, unmonitoredIo,
    snap.devices,
    snap.rules.map targetRuleToPb, snap.available, snap.error.getD []⟩

/-! ### Which profiles can be sent -/

/-- The range of an `int32` field. -/
def FitsInt32 (i : Int) : Prop := -(2 ^ 31) ≤ i ∧ i < 2 ^ 31

/-- The range of a `uint32` field. -/
def FitsUInt32 (i : Int) : Prop := 0 ≤ i ∧ i < 2 ^ 32

/-- The range of a `uint64` field. -/
def FitsUInt64 (i : Int) : Prop := 0 ≤ i ∧ i < 2 ^ 64

instance (i : Int) : Decidable (FitsInt32 i) :=
  inferInstanceAs (Decidable (_ ∧ _))

instance (i : Int) : Decidable (FitsUInt32 i) :=
  inferInstanceAs (Decidable (_ ∧ _))

instance (i : Int) : Decidable (FitsUInt64 i) :=
  inferInstanceAs (Decidable (_ ∧ _))

/-- A default fits. -/
theorem fitsInt32_zero : FitsInt32 0 := by decide

/-- A default fits. -/
theorem fitsUInt64_zero : FitsUInt64 0 := by decide

/-- The integers of an expectation fit their fields. -/
structure WorkloadSpec.Fits (w : WorkloadSpec) : Prop where
  ioSize : FitsUInt32 (w.ioSize.getD 0)
  queueDepth : FitsInt32 (w.queueDepth.getD 0)
  numjobs : FitsInt32 (w.numjobs.getD 0)
  runtimeSec : FitsInt32 (w.runtimeSec.getD 0)

/-- The integers of a logical group fit their fields. -/
structure LogicalGroup.Fits (g : LogicalGroup) : Prop where
  tids : ∀ t ∈ g.threadTids, FitsInt32 t
  expected : ∀ w, g.expectedWorkload = some w → w.Fits
  measured : ∀ m, g.measuredWorkload = some m → FitsUInt32 m.ioSizeDominant

/-- The integers of a session fit their fields. -/
structure Session.Fits (s : Session) : Prop where
  pid : FitsInt32 s.pid
  start : FitsUInt64 (max 0 s.startTimeNs)
  sessionStart : FitsUInt64 s.sessionStartNs
  sessionEnd : FitsUInt64 (s.sessionEndNs.getD 0)
  threadCount : FitsInt32 s.threadCountActive
  aggregate : ∀ m, s.aggregate = some m → FitsUInt32 m.ioSizeDominant
  groups : ∀ g ∈ s.logicalGroups, g.Fits

/-- A workload can be sent exactly if its integers fit, and always if there is
none. -/
theorem succeeds_workloadSpecToPb (spec : Option WorkloadSpec) :
    Succeeds (workloadSpecToPb spec) ↔ ∀ w, spec = some w → w.Fits := by
  cases spec with
  | none => exact iff_of_true ⟨{}, rfl⟩ (by simp)
  | some w =>
      have hfits : Succeeds (workloadSpecToPb (some w)) ↔
          FitsUInt32 (w.ioSize.getD 0) ∧ FitsInt32 (w.queueDepth.getD 0) ∧
            FitsInt32 (w.numjobs.getD 0) ∧ FitsInt32 (w.runtimeSec.getD 0) := by
        unfold workloadSpecToPb FitsUInt32 FitsInt32
        simp only [← succeeds_toInt32, ← succeeds_toUInt32]
        refine succeeds_bind_const fun ioSize =>
          succeeds_bind_const fun queueDepth =>
          succeeds_bind_const fun numjobs => ?_
        exact succeeds_bind_pure _ _
      rw [hfits]
      constructor
      · rintro ⟨h1, h2, h3, h4⟩ w' heq
        cases heq
        exact ⟨h1, h2, h3, h4⟩
      · intro h
        obtain ⟨h1, h2, h3, h4⟩ := h w rfl
        exact ⟨h1, h2, h3, h4⟩

/-- A measurement can be sent exactly if its size fits. -/
theorem succeeds_measuredToPb (measured : Option MeasuredWorkload) :
    Succeeds (measuredToPb measured) ↔ ∀ m, measured = some m →
      FitsUInt32 m.ioSizeDominant := by
  cases measured with
  | none => exact iff_of_true ⟨{}, rfl⟩ (by simp)
  | some m =>
      unfold measuredToPb FitsUInt32
      simp only [Option.some.injEq, forall_eq', ← succeeds_toUInt32]
      exact succeeds_bind_pure _ _

/-- A group can be sent exactly if its integers fit. -/
theorem succeeds_logicalGroupToPb (g : LogicalGroup) :
    Succeeds (logicalGroupToPb g) ↔ g.Fits := by
  have hfits : Succeeds (logicalGroupToPb g) ↔
      (∀ t ∈ g.threadTids, FitsInt32 t) ∧
      (∀ w, g.expectedWorkload = some w → w.Fits) ∧
        ∀ m, g.measuredWorkload = some m → FitsUInt32 m.ioSizeDominant := by
    have htids : Succeeds (g.threadTids.mapM toInt32) ↔
        ∀ t ∈ g.threadTids, FitsInt32 t := by
      rw [succeeds_mapM_iff]
      exact forall₂_congr fun t _ => succeeds_toInt32 t
    unfold logicalGroupToPb
    rw [← htids, ← succeeds_workloadSpecToPb, ← succeeds_measuredToPb]
    refine succeeds_bind_const fun tids => succeeds_bind_const fun expected =>
      ?_
    exact succeeds_bind_pure _ _
  rw [hfits]
  exact ⟨fun ⟨h1, h2, h3⟩ => ⟨h1, h2, h3⟩, fun h =>
    ⟨h.tids, h.expected, h.measured⟩⟩

/-- **Which sessions can be sent.** -/
theorem succeeds_sessionToPb (s : Session) :
    Succeeds (sessionToPb s) ↔ s.Fits := by
  have hfits : Succeeds (sessionToPb s) ↔ FitsInt32 s.pid ∧
      FitsUInt64 (max 0 s.startTimeNs) ∧
      FitsUInt64 s.sessionStartNs ∧ FitsUInt64 (s.sessionEndNs.getD 0) ∧
      FitsInt32 s.threadCountActive ∧
      (∀ m, s.aggregate = some m → FitsUInt32 m.ioSizeDominant) ∧
      ∀ g ∈ s.logicalGroups, g.Fits := by
    have hgroups : Succeeds (s.logicalGroups.mapM logicalGroupToPb) ↔
        ∀ g ∈ s.logicalGroups, g.Fits := by
      rw [succeeds_mapM_iff]
      exact forall₂_congr fun g _ => succeeds_logicalGroupToPb g
    unfold sessionToPb FitsInt32 FitsUInt64
    rw [← hgroups, ← succeeds_measuredToPb]
    simp only [← succeeds_toInt32, ← succeeds_toUInt64]
    refine succeeds_bind_const fun pid => succeeds_bind_const fun start =>
      succeeds_bind_const fun sessionStart =>
        succeeds_bind_const fun sessionEnd =>
      succeeds_bind_const fun count => succeeds_bind_const fun aggregate => ?_
    exact succeeds_bind_pure _ _
  rw [hfits]
  exact ⟨fun ⟨h1, h2, h3, h4, h5, h6, h7⟩ => ⟨h1, h2, h3, h4, h5, h6, h7⟩,
    fun h => ⟨h.pid, h.start, h.sessionStart, h.sessionEnd, h.threadCount,
      h.aggregate, h.groups⟩⟩

/-- **Which profiles can be sent.** -/
theorem succeeds_profileToPb (snap : ProfileSnapshot) :
    Succeeds (profileToPb snap) ↔ FitsUInt64 snap.collectedAtNs ∧
      (∀ s ∈ snap.sessions, s.Fits) ∧ ∀ u ∈ snap.unmonitoredIo,
        FitsInt32 u.pid := by
  have hsessions : Succeeds (snap.sessions.mapM sessionToPb) ↔
      ∀ s ∈ snap.sessions, s.Fits := by
    rw [succeeds_mapM_iff]
    exact forall₂_congr fun s _ => succeeds_sessionToPb s
  have hunmonitored : Succeeds (snap.unmonitoredIo.mapM unmonitoredIoToPb) ↔
      ∀ u ∈ snap.unmonitoredIo, FitsInt32 u.pid := by
    rw [succeeds_mapM_iff]
    refine forall₂_congr fun u _ => ?_
    exact (succeeds_bind_pure _ _).trans (succeeds_toInt32 u.pid)
  unfold profileToPb FitsUInt64
  rw [← hsessions, ← hunmonitored, ← succeeds_toUInt64]
  refine succeeds_bind_const fun collected =>
    succeeds_bind_const fun sessions => ?_
  exact succeeds_bind_pure _ _

end Telemetryd
