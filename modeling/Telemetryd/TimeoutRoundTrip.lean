import Telemetryd.CollectorLines
import Telemetryd.Convert
import Telemetryd.TimeoutEvents

/-!
# A timeout from the collector to the client

A command that timed out is printed by the collector, read back by the timeout
reader and sent as a message.  The collector prints the 8-bit and 32-bit fields
sign-extended; the error reader masks them back to their width, the timeout
reader does not.  So the command arrives unchanged exactly when no such field
has its top bit set, and the numbers that are not fields of the command fit
what they are converted to.
-/

namespace Telemetryd

open PyText Regex PyError

/-- A command that timed out. -/
structure TimedOut where
  tsNs : Nat
  ctrl : Nat
  qid : Nat
  tag : Nat
  opcode : UInt8
  nsid : UInt32
  flags : UInt8
  cdw10 : UInt32
  cdw11 : UInt32
  cdw12 : UInt32
  cdw13 : UInt32
  cdw14 : UInt32
  cdw15 : UInt32
  elapsedNs : Nat

namespace TimedOut

/-- How the collector prints an 8-bit field. -/
def signExtend8 (x : UInt8) : Int := x.toInt8.toInt

/-- How the collector prints a 32-bit field. -/
def signExtend32 (x : UInt32) : Int := x.toInt32.toInt

/-- The line of the command. -/
def line (c : TimedOut) : PyText :=
  timeoutEventLine c.tsNs c.ctrl c.qid c.tag (signExtend8 c.opcode)
    (signExtend32 c.nsid)
    (signExtend8 c.flags) c.cdw10.toNat c.cdw11.toNat c.cdw12.toNat
      c.cdw13.toNat c.cdw14.toNat
    c.cdw15.toNat c.elapsedNs

/-- The integers of the line, in order. -/
def values (c : TimedOut) : List Int :=
  [c.tsNs, c.ctrl, c.qid, c.tag, signExtend8 c.opcode, signExtend32 c.nsid,
    signExtend8 c.flags,
    c.cdw10.toNat, c.cdw11.toNat, c.cdw12.toNat, c.cdw13.toNat, c.cdw14.toNat,
    c.cdw15.toNat,
    c.elapsedNs]

/-- The detail that is read back. -/
def detail (c : TimedOut) : TimeoutEventDetail where
  tag := c.tag
  opcode := signExtend8 c.opcode
  opcodeName := opcodeName (signExtend8 c.opcode) (decide ((c.qid : Int) = 0))
  nsid := signExtend32 c.nsid
  flags := signExtend8 c.flags
  cdw10 := c.cdw10.toNat
  cdw11 := c.cdw11.toNat
  cdw12 := c.cdw12.toNat
  cdw13 := c.cdw13.toNat
  cdw14 := c.cdw14.toNat
  cdw15 := c.cdw15.toNat
  elapsedUs := (c.elapsedNs : ℚ) / 1000

/-- A byte printed as signed: its value, or its value less 256. -/
theorem signExtend8_eq (x : UInt8) :
    signExtend8 x = if x.toNat < 128 then (x.toNat : Int)
      else (x.toNat : Int) - 256 := by
  have h : signExtend8 x = x.toBitVec.toInt := rfl
  rw [h, BitVec.toInt_eq_toNat_cond]
  have hnat : x.toBitVec.toNat = x.toNat := rfl
  rw [hnat]
  split <;> split <;> omega

/-- A word printed as signed: its value, or its value less 2^32. -/
theorem signExtend32_eq (x : UInt32) :
    signExtend32 x = if x.toNat < 2 ^ 31 then (x.toNat : Int)
      else (x.toNat : Int) - 2 ^ 32 := by
  have h : signExtend32 x = x.toBitVec.toInt := rfl
  rw [h, BitVec.toInt_eq_toNat_cond]
  have hnat : x.toBitVec.toNat = x.toNat := rfl
  rw [hnat]
  split <;> split <;> omega

/-- The printed line is a row of the fields the reader expects. -/
theorem timeoutEventLine_eq
    (tsNs ctrl qid tag opcode nsid flags cdw10 cdw11 cdw12 cdw13 cdw14
    cdw15 elapsedNs : Int) :
    timeoutEventLine tsNs ctrl qid tag opcode nsid flags cdw10 cdw11 cdw12 cdw13
      cdw14 cdw15
        elapsedNs
      = eventLine TimeoutEvents.fields [tsNs, ctrl, qid, tag, opcode, nsid,
        flags, cdw10, cdw11,
        cdw12, cdw13, cdw14, cdw15, elapsedNs] := by
  unfold timeoutEventLine eventLine TimeoutEvents.fields
  simp only [List.zipWith, List.flatten_cons, List.flatten_nil, List.append_nil]
  simp only [List.append_assoc]

/-- The field names are text without digits or signs. -/
theorem fields_plain : ∀ f ∈ TimeoutEvents.fields, f.Plain := by
  have hall : ∀ f ∈ TimeoutEvents.fields, ∃ c s, f.label = c :: s ∧
      (c = 'T' ∨ c = ' ') := by
    simp [TimeoutEvents.fields]
  intro f hf
  obtain ⟨c, s, hlabel, hc⟩ := hall f hf
  refine ⟨c, s, hlabel, ?_⟩
  rcases hc with rfl | rfl
  · exact ⟨by decide, by decide⟩
  · exact ⟨by decide, by decide⟩

/-- A printed line has no blanks at its ends. -/
theorem strip_line (c : TimedOut) : strip c.line = c.line := by
  rw [line, timeoutEventLine_eq]
  exact strip_eventLine rfl rfl (by decide)

/-- A line is plain ASCII without a line feed. -/
theorem ascii_line (c : TimedOut) :
    ∀ x ∈ c.line, x.toNat < 0x80 ∧ x ≠ '\n' := by
  rw [line, timeoutEventLine_eq]
  refine forall_mem_eventLine _ ⟨by decide, by decide⟩ ?_ ?_
  · intro x hx
    have := lt_of_isDigit hx
    refine ⟨by omega, ?_⟩
    intro hnl
    subst hnl
    exact absurd hx (by decide)
  · unfold TimeoutEvents.fields
    decide

/-- The numbers the reader can convert. -/
structure Readable (c : TimedOut) : Prop where
  ctrl : c.ctrl < 10 ^ maxStrDigits
  qid : c.qid < 10 ^ maxStrDigits
  tag : c.tag < 10 ^ maxStrDigits
  elapsedNs : c.elapsedNs < floatLimit

/-- A byte has few digits. -/
theorem natAbs_signExtend8 (x : UInt8) : (signExtend8 x).natAbs < 2 ^ 64 := by
  have := x.toNat_lt
  rw [signExtend8_eq]
  split <;> omega

/-- So has a word. -/
theorem natAbs_signExtend32 (x : UInt32) :
    (signExtend32 x).natAbs < 2 ^ 64 := by
  have := x.toNat_lt
  rw [signExtend32_eq]
  split <;> omega

/-- So has a word without a sign. -/
theorem natAbs_toNat (x : UInt32) : (x.toNat : Int).natAbs < 2 ^ 64 := by
  have := x.toNat_lt
  omega

variable [UnicodeDb]

/-- The line of a timeout is matched with its numbers. -/
theorem match_line (c : TimedOut) :
    match? TimeoutEvents.eventRe (strip c.line) =
      some (c.values.map ofInt) := by
  have hrun : run (eventPattern TimeoutEvents.fields)
      (eventLine TimeoutEvents.fields c.values)
      = [c.values.map ofInt] := by
    refine run_eventPattern ?_ fields_plain
    unfold TimeoutEvents.fields values
    simp
  rw [strip_line, line, timeoutEventLine_eq]
  exact congrArg List.head? hrun

/-- **What the reader makes of the line.** -/
theorem parseLine_line_eq_ok (now : ℚ) (c : TimedOut) {ev : Option NvmeEvent} :
    TimeoutEvents.parseLine now c.line = .ok ev ↔
      c.Readable ∧
        ev = some (TimeoutEvents.event now c.ctrl c.qid c.detail) := by
  have hdetail : TimeoutEvents.parseDetail c.line = (do
      let qidI ← pyInt (ofInt c.qid)
      let tagI ← pyInt (ofInt c.tag)
      let elapsedI ← pyInt (ofInt c.elapsedNs)
      let elapsed ← floatOfInt elapsedI
      let ctrlI ← pyInt (ofInt c.ctrl)
      return some (ctrlI, qidI,
        { c.detail with
          tag := tagI
          opcodeName := opcodeName (signExtend8 c.opcode) (decide (qidI = 0))
          elapsedUs := elapsed / 1000 })) := by
    unfold TimeoutEvents.parseDetail
    rw [match_line]
    simp only [values, List.map_cons, List.map_nil,
      pyInt_ofInt_word (natAbs_signExtend8 _),
      pyInt_ofInt_word (natAbs_signExtend32 _),
      pyInt_ofInt_word (natAbs_toNat _)]
    rfl
  unfold TimeoutEvents.parseLine
  rw [hdetail]
  simp only [Fallible.bind_eq_ok, pyInt_ofInt_eq_ok, floatOfInt_eq_ok, pure,
    Except.pure, Except.ok.injEq]
  constructor
  · intro ⟨found,
      ⟨qidI, ⟨hqid, hqidI⟩, tagI, ⟨htag, htagI⟩, elapsedI,
      ⟨_, helapsedI⟩, elapsed,
      ⟨helapsed, hus⟩, ctrlI, ⟨hctrl, hctrlI⟩, hfound⟩, hev⟩
    subst hqidI htagI helapsedI hus hctrlI hfound
    exact ⟨⟨hctrl, hqid, htag, helapsed⟩, hev.symm⟩
  · intro ⟨h, hev⟩
    exact ⟨_, ⟨_, ⟨h.qid, rfl⟩, _, ⟨h.tag, rfl⟩, _,
      ⟨h.elapsedNs.trans floatLimit_lt, rfl⟩, _,
      ⟨h.elapsedNs, rfl⟩, _, ⟨h.ctrl, rfl⟩, rfl⟩, hev.symm⟩

/-- The command arrives as it was: its fields are read back unsigned and the
event can be sent. -/
def RoundTrips (now : ℚ) (c : TimedOut) : Prop :=
  ∃ ev d, TimeoutEvents.parseLine now c.line = .ok (some ev) ∧
    ev.timeout = some d ∧
    d.opcode = c.opcode.toNat ∧ d.nsid = c.nsid.toNat ∧
      d.flags = c.flags.toNat ∧
    d.tag = c.tag ∧ d.cdw10 = c.cdw10.toNat ∧ d.cdw11 = c.cdw11.toNat ∧
    d.cdw12 = c.cdw12.toNat ∧ d.cdw13 = c.cdw13.toNat ∧
      d.cdw14 = c.cdw14.toNat ∧
    d.cdw15 = c.cdw15.toNat ∧ Succeeds (nvmeEventToPb ev)

end TimedOut

open TimedOut

/-- A byte is printed as it is exactly below 128. -/
theorem signExtend8_eq_toNat (x : UInt8) :
    signExtend8 x = x.toNat ↔ x.toNat < 128 := by
  rw [signExtend8_eq]
  split <;> omega

/-- A word is printed as it is exactly below 2^31. -/
theorem signExtend32_eq_toNat (x : UInt32) :
    signExtend32 x = x.toNat ↔ x.toNat < 2 ^ 31 := by
  rw [signExtend32_eq]
  split <;> omega

/-- Every field but the tag fits the message once the namespace is read back. -/
theorem inRange_detail (c : TimedOut) (hnsid : c.nsid.toNat < 2 ^ 31) :
    c.detail.InRange ↔ c.tag < 2 ^ 31 := by
  have hopcode := c.opcode.toNat_lt
  have hflags := c.flags.toNat_lt
  have h10 := c.cdw10.toNat_lt
  have h11 := c.cdw11.toNat_lt
  have h12 := c.cdw12.toNat_lt
  have h13 := c.cdw13.toNat_lt
  have h14 := c.cdw14.toNat_lt
  have h15 := c.cdw15.toNat_lt
  have ho : -(2 ^ 31) ≤ signExtend8 c.opcode ∧
      signExtend8 c.opcode < 2 ^ 31 := by
    rw [signExtend8_eq]
    split <;> omega
  have hf : -(2 ^ 31) ≤ signExtend8 c.flags ∧ signExtend8 c.flags < 2 ^ 31 := by
    rw [signExtend8_eq]
    split <;> omega
  have hn : signExtend32 c.nsid = c.nsid.toNat :=
    (signExtend32_eq_toNat _).mpr hnsid
  unfold TimeoutEventDetail.InRange
  simp only [detail, hn]
  constructor
  · intro ⟨⟨_, htag⟩, _⟩
    omega
  · intro htag
    refine ⟨by omega, ho, by omega,
      hf, by omega, by omega, by omega, by omega, by omega, by omega⟩

/-- **When a timeout arrives unchanged**: the 8-bit fields and the namespace
have their top bit clear, tag and queue fit 32 bits, and the controller number
and the elapsed time are within what Python converts. -/
theorem timeout_round_trip_iff [UnicodeDb] (now : ℚ) (c : TimedOut) :
    c.RoundTrips now ↔ c.opcode.toNat < 128 ∧ c.flags.toNat < 128 ∧
      c.nsid.toNat < 2 ^ 31 ∧
      c.tag < 2 ^ 31 ∧ c.qid < 2 ^ 31 ∧ c.ctrl < 10 ^ maxStrDigits ∧
        c.elapsedNs < floatLimit := by
  have hsend :=
    succeeds_nvmeEventToPb (e := TimeoutEvents.event now c.ctrl c.qid c.detail)
    (d := c.detail) rfl rfl
  constructor
  · intro ⟨ev, d, hparse, hd, hopcode, hnsid, hflags, _, _, _, _, _, _, _, hpb⟩
    obtain ⟨hread, hev⟩ := (parseLine_line_eq_ok now c).mp hparse
    obtain rfl := Option.some.inj hev
    obtain rfl : c.detail = d := Option.some.inj hd
    have hn : c.nsid.toNat < 2 ^ 31 := (signExtend32_eq_toNat _).mp hnsid
    obtain ⟨hqid, hrange⟩ := hsend.mp hpb
    refine ⟨(signExtend8_eq_toNat _).mp hopcode,
      (signExtend8_eq_toNat _).mp hflags, hn,
      (inRange_detail c hn).mp hrange, ?_, hread.ctrl, hread.elapsedNs⟩
    have : (c.qid : Int) < 2 ^ 31 := hqid.2
    omega
  · intro ⟨hopcode, hflags, hnsid, htag, hqid, hctrl, helapsed⟩
    have hread : c.Readable :=
      ⟨hctrl, lt_maxStrDigits_of_lt (by omega),
        lt_maxStrDigits_of_lt (by omega), helapsed⟩
    refine ⟨_, c.detail, (parseLine_line_eq_ok now c).mpr ⟨hread, rfl⟩, rfl,
      (signExtend8_eq_toNat _).mpr hopcode, (signExtend32_eq_toNat _).mpr hnsid,
      (signExtend8_eq_toNat _).mpr hflags, rfl, rfl, rfl, rfl, rfl, rfl, rfl,
      hsend.mpr ?_⟩
    have hq : -(2 ^ 31) ≤ (c.qid : Int) ∧ (c.qid : Int) < 2 ^ 31 := by omega
    exact ⟨hq, (inRange_detail c hnsid).mpr htag⟩

/-- A flush to all namespaces that timed out. -/
def broadcastFlush : TimedOut where
  tsNs := 1000
  ctrl := 0
  qid := 1
  tag := 5
  opcode := 0
  nsid := 0xffffffff
  flags := 0
  cdw10 := 0
  cdw11 := 0
  cdw12 := 0
  cdw13 := 0
  cdw14 := 0
  cdw15 := 0
  elapsedNs := 30000000000

/-- The namespace 0xffffffff is read back as -1. -/
theorem broadcastFlush_not_round_trip :
    ¬ @RoundTrips UnicodeDb.ascii 0 broadcastFlush := by
  intro ⟨ev, d, hparse, hd, _, hnsid, _⟩
  obtain ⟨-, hev⟩ :=
    (@parseLine_line_eq_ok UnicodeDb.ascii 0 broadcastFlush (some ev)).mp hparse
  obtain rfl := Option.some.inj hev
  obtain rfl : broadcastFlush.detail = d := Option.some.inj hd
  have hread : broadcastFlush.detail.nsid = -1 := by decide
  rw [hread] at hnsid
  exact absurd hnsid (by decide)

end Telemetryd
