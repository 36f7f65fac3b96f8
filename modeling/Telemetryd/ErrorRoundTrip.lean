import Telemetryd.Collector
import Telemetryd.ErrorEvents
import Telemetryd.TimeoutRoundTrip

/-!
# An error from the collector to the client

A request completed with an error is printed by the collector, read back by
the error reader and sent as a message.  The opcode and the namespace may be
printed sign-extended; the reader cuts them back to their width.  The status is
taken apart twice, once by the collector and once by the reader.  The two times
of the line are unsigned words, but they are printed with a signed conversion
and the reader takes no sign: a line with such a time is not read at all.
-/

namespace Telemetryd

open PyText Regex PyError

/-! ### The parts of a status -/

namespace CompleteRq

variable (a : CompleteRq)

/-- The code is the low byte of the status. -/
theorem toNat_sc : a.sc.toNat = a.status.toNat % 2 ^ 8 := by
  simp only [sc, UInt16.toNat_toUInt64, UInt16.toNat_and]
  exact Nat.and_two_pow_sub_one_eq_mod a.status.toNat 8

/-- The type is in the three bits above. -/
theorem toNat_sct : a.sct.toNat = a.status.toNat / 2 ^ 8 % 2 ^ 3 := by
  simp only [sct, UInt16.toNat_toUInt64, UInt16.toNat_and,
    UInt16.toNat_shiftRight]
  rw [Nat.shiftRight_eq_div_pow]
  exact Nat.and_two_pow_sub_one_eq_mod (a.status.toNat / 2 ^ 8) 3

/-- The retry delay is in the two bits above these. -/
theorem toNat_crd : a.crd.toNat = a.status.toNat / 2 ^ 11 % 2 ^ 2 := by
  simp only [crd, UInt16.toNat_toUInt64, UInt16.toNat_and,
    UInt16.toNat_shiftRight]
  rw [Nat.shiftRight_eq_div_pow]
  exact Nat.and_two_pow_sub_one_eq_mod (a.status.toNat / 2 ^ 11) 2

/-- The `more` bit is bit 13. -/
theorem toNat_more : a.more.toNat = a.status.toNat / 2 ^ 13 % 2 ^ 1 := by
  simp only [more, UInt16.toNat_toUInt64, UInt16.toNat_and,
    UInt16.toNat_shiftRight]
  rw [Nat.shiftRight_eq_div_pow]
  exact Nat.and_two_pow_sub_one_eq_mod (a.status.toNat / 2 ^ 13) 1

/-- The `do not retry` bit is bit 14. -/
theorem toNat_dnr : a.dnr.toNat = a.status.toNat / 2 ^ 14 % 2 ^ 1 := by
  simp only [dnr, UInt16.toNat_toUInt64, UInt16.toNat_and,
    UInt16.toNat_shiftRight]
  rw [Nat.shiftRight_eq_div_pow]
  exact Nat.and_two_pow_sub_one_eq_mod (a.status.toNat / 2 ^ 14) 1

/-- **The two decompositions agree**: what the collector counts and prints is
what `decode_status` makes of the status. -/
theorem decodeStatus_status :
    (decodeStatus a.status.toNat).sc = a.sc.toNat ∧
      (decodeStatus a.status.toNat).sct = a.sct.toNat ∧
      (decodeStatus a.status.toNat).crd = a.crd.toNat ∧
      (decodeStatus a.status.toNat).more = decide (a.more.toNat ≠ 0) ∧
      (decodeStatus a.status.toNat).dnr = decide (a.dnr.toNat ≠ 0) := by
  rw [toNat_sc, toNat_sct, toNat_crd, toNat_more, toNat_dnr]
  unfold decodeStatus
  refine ⟨by push_cast; rfl, by push_cast; rfl, by push_cast; rfl, ?_, ?_⟩
  · exact decide_eq_decide.mpr (by omega)
  · exact decide_eq_decide.mpr (by omega)

/-- A status of 15 bits is the sum of its parts. -/
theorem status_eq (h : a.status.toNat < 2 ^ 15) :
    a.status.toNat = a.sc.toNat + 2 ^ 8 * a.sct.toNat + 2 ^ 11 * a.crd.toNat
      + 2 ^ 13 * a.more.toNat + 2 ^ 14 * a.dnr.toNat := by
  rw [toNat_sc, toNat_sct, toNat_crd, toNat_more, toNat_dnr]
  omega

end CompleteRq

/-! ### The line -/

/-- What the collector keeps of a command from its submission. -/
structure Submitted where
  opcode : UInt8
  nsid : UInt32
  slba : UInt64
  /-- The number of logical blocks, less one. -/
  nlb : UInt16

/-- A request that was completed with an error.  Its submission may not have
been seen. -/
structure Failed where
  tsNs : UInt64
  ctrl : Nat
  qid : UInt16
  cid : UInt16
  status : UInt16
  retries : UInt8
  submitted : Option Submitted
  elapsedNs : UInt64
  ctrl_lt : ctrl < 2 ^ 31
  status_ne : status ≠ 0
  status_lt : status.toNat < 2 ^ 15

/-- Which of the fields that may be printed sign-extended are. -/
structure Extended where
  opcode : Bool
  nsid : Bool

namespace Failed

variable (c : Failed)

/-- The completion, as the probe gets it. -/
def completeRq : CompleteRq where
  nsecs := c.tsNs
  ctrl := Int64.ofNat c.ctrl
  qid := Int64.ofNat c.qid.toNat
  cid := Int64.ofNat c.cid.toNat
  status := c.status
  retries := c.retries

/-- The tag of a command, without its generation. -/
def tag : Nat := c.cid.toNat % 4096
/-- The opcode that was kept at its submission, 0 if none was. -/
def opcode : UInt8 := (c.submitted.map Submitted.opcode).getD 0
/-- The namespace that was kept, 0 if none was. -/
def nsid : UInt32 := (c.submitted.map Submitted.nsid).getD 0
/-- The first block that was kept, 0 if none was. -/
def slba : UInt64 := (c.submitted.map Submitted.slba).getD 0

/-- The number of logical blocks. -/
def nlb : Nat := ((c.submitted.map Submitted.nlb).getD 0).toNat + 1

/-- The opcode as it is printed, with what is extended above it. -/
def printedOpcode (e : Extended) : Int :=
  if e.opcode then TimedOut.signExtend8 c.opcode else c.opcode.toNat

/-- The namespace as it is printed. -/
def printedNsid (e : Extended) : Int :=
  if e.nsid then TimedOut.signExtend32 c.nsid else c.nsid.toNat

/-- The integers of the line, in order. -/
def values (e : Extended) : List Int :=
  let a := c.completeRq
  [c.tsNs.toInt64.toInt, c.ctrl, c.qid.toNat, c.cid.toNat, c.tag,
    c.printedOpcode e,
    c.printedNsid e, c.status.toNat, a.sct.toNat, a.sc.toNat, a.dnr.toNat,
    a.more.toNat,
    a.crd.toNat, c.slba.toNat, c.nlb, c.retries.toNat,
    if c.submitted.isSome then 1 else 0,
    c.elapsedNs.toInt64.toInt]

/-- The line of the request. -/
def line (e : Extended) : PyText :=
  let a := c.completeRq
  errorEventLine c.tsNs.toInt64.toInt c.ctrl c.qid.toNat c.cid.toNat c.tag
    (c.printedOpcode e)
    (c.printedNsid e) c.status.toNat a.sct.toNat a.sc.toNat a.dnr.toNat
      a.more.toNat a.crd.toNat
    c.slba.toNat c.nlb c.retries.toNat (if c.submitted.isSome then 1 else 0)
    c.elapsedNs.toInt64.toInt

/-- The detail that is read back. -/
def detail (e : Extended) : ErrorEventDetail :=
  ErrorEvents.detail c.qid.toNat c.cid.toNat c.tag (c.printedOpcode e)
    (c.printedNsid e)
    c.status.toNat c.slba.toNat c.nlb c.retries.toNat
      (if c.submitted.isSome then 1 else 0)
    c.elapsedNs.toInt64.toInt

/-- The printed line is a row of the fields the reader expects. -/
theorem line_eq (e : Extended) :
    c.line e = eventLine ErrorEvents.fields (c.values e) := by
  unfold line errorEventLine eventLine ErrorEvents.fields values
  simp only [List.zipWith, List.flatten_cons, List.flatten_nil, List.append_nil]
  simp only [List.append_assoc]

/-- A printed line has no blanks at its ends. -/
theorem strip_line_eq (e : Extended) : strip (c.line e) = c.line e := by
  rw [line_eq]
  exact strip_eventLine rfl rfl (by decide)

/-- The field names are text without digits or signs. -/
theorem plain_fields : ∀ f ∈ ErrorEvents.fields, f.Plain := by
  have hall : ∀ f ∈ ErrorEvents.fields, ∃ c s, f.label = c :: s ∧
      (c = 'E' ∨ c = ' ') := by
    simp [ErrorEvents.fields]
  intro f hf
  obtain ⟨c, s, hlabel, hc⟩ := hall f hf
  refine ⟨c, s, hlabel, ?_⟩
  rcases hc with rfl | rfl
  · exact ⟨by decide, by decide⟩
  · exact ⟨by decide, by decide⟩

/-- A word printed as signed: its value, or its value less 2^64. -/
theorem toInt_toInt64 (x : UInt64) :
    x.toInt64.toInt = if x.toNat < 2 ^ 63 then (x.toNat : Int)
      else (x.toNat : Int) - 2 ^ 64 := by
  have h : x.toInt64.toInt = x.toBitVec.toInt := rfl
  rw [h, BitVec.toInt_eq_toNat_cond]
  have hnat : x.toBitVec.toNat = x.toNat := rfl
  rw [hnat]
  split <;> split <;> omega

/-- It is not negative exactly if the top bit is clear. -/
theorem toInt_toInt64_nonneg (x : UInt64) :
    0 ≤ x.toInt64.toInt ↔ x.toNat < 2 ^ 63 := by
  have := x.toNat_lt
  rw [toInt_toInt64]
  split <;> omega

/-- Every number of the line is a word. -/
theorem natAbs_values (e : Extended) : ∀ v ∈ c.values e, v.natAbs < 2 ^ 64 := by
  have hword : ∀ n : Nat, n < 2 ^ 64 → (n : Int).natAbs < 2 ^ 64 :=
    fun n hn => by omega
  have htime : ∀ x : UInt64, x.toInt64.toInt.natAbs < 2 ^ 64 := fun x => by
    have := x.toNat_lt
    rw [toInt_toInt64]
    split <;> omega
  have hopcode : (c.printedOpcode e).natAbs < 2 ^ 64 := by
    have := c.opcode.toNat_lt
    unfold printedOpcode
    split
    · exact TimedOut.natAbs_signExtend8 _
    · omega
  have hnsid : (c.printedNsid e).natAbs < 2 ^ 64 := by
    have := c.nsid.toNat_lt
    unfold printedNsid
    split
    · exact TimedOut.natAbs_signExtend32 _
    · omega
  have hctrl := c.ctrl_lt
  have hqid := c.qid.toNat_lt
  have hcid := c.cid.toNat_lt
  have hstatus := c.status.toNat_lt
  have hretries := c.retries.toNat_lt
  have hnlb := ((c.submitted.map Submitted.nlb).getD 0).toNat_lt
  unfold values tag nlb
  simp only [List.forall_mem_cons, List.not_mem_nil, false_imp_iff,
    implies_true, and_true]
  refine ⟨htime _, hword _ (by omega), hword _ (by omega), hword _ (by omega),
    hword _ (by omega),
    hopcode, hnsid, hword _ (by omega), hword _ (UInt64.toNat_lt _),
    hword _ (UInt64.toNat_lt _),
    hword _ (UInt64.toNat_lt _), hword _ (UInt64.toNat_lt _),
    hword _ (UInt64.toNat_lt _),
    hword _ (UInt64.toNat_lt _), hword _ (by omega), hword _ (by omega),
    ?_, htime _⟩
  split <;> decide

variable [UnicodeDb]

/-- **When the line is matched**: the times have their top bit clear. -/
theorem match_line_eq (e : Extended) :
    match? ErrorEvents.eventRe (strip (c.line e))
      = if c.tsNs.toNat < 2 ^ 63 ∧ c.elapsedNs.toNat < 2 ^ 63
        then some ((c.values e).map ofInt)
        else none := by
  rw [strip_line_eq, line_eq]
  split
  · rename_i h
    have hrun : run (eventPattern ErrorEvents.fields)
        (eventLine ErrorEvents.fields (c.values e))
        = [(c.values e).map ofInt] := by
      refine run_eventPattern ?_ plain_fields
      have hts := (toInt_toInt64_nonneg c.tsNs).mpr h.1
      have helapsed := (toInt_toInt64_nonneg c.elapsedNs).mpr h.2
      unfold ErrorEvents.fields values
      simp [hts, helapsed]
    exact congrArg List.head? hrun
  · rename_i h
    have hrun : run (eventPattern ErrorEvents.fields)
        (eventLine ErrorEvents.fields (c.values e))
        = [] := by
      refine run_eventPattern_negative plain_fields ?_
      have hts := toInt_toInt64_nonneg c.tsNs
      have helapsed := toInt_toInt64_nonneg c.elapsedNs
      unfold ErrorEvents.fields values
      by_cases h1 : c.tsNs.toNat < 2 ^ 63
      · refine ⟨(⟨" elapsed_ns=".toList, false⟩, c.elapsedNs.toInt64.toInt),
          ?_, rfl, ?_⟩
        · simp
        · change c.elapsedNs.toInt64.toInt < 0
          omega
      · refine ⟨(⟨"ERROR_EVENT ts_ns=".toList, false⟩, c.tsNs.toInt64.toInt),
          ?_, rfl, ?_⟩
        · simp
        · change c.tsNs.toInt64.toInt < 0
          omega
    exact congrArg List.head? hrun

/-- **What the reader makes of the line.** -/
theorem parseLine_line (now : ℚ) (e : Extended) :
    ErrorEvents.parseLine now (c.line e)
      = .ok (if c.tsNs.toNat < 2 ^ 63 ∧ c.elapsedNs.toNat < 2 ^ 63 then
          some (ErrorEvents.event now c.ctrl c.qid.toNat (c.detail e))
        else none) := by
  have hint : ∀ v ∈ c.values e, pyInt (ofInt v) = .ok v :=
    fun v hv => pyInt_ofInt_word (c.natAbs_values e v hv)
  have hfloat : floatOfInt c.elapsedNs.toInt64.toInt =
      .ok (c.elapsedNs.toInt64.toInt : ℚ) := by
    refine floatOfInt_eq_ok.mpr ⟨lt_floatLimit_of_lt (c.natAbs_values e _ ?_),
      rfl⟩
    unfold values
    simp
  unfold values at hint
  simp only [List.forall_mem_cons, List.not_mem_nil, false_imp_iff,
    implies_true, and_true] at hint
  obtain ⟨-, hctrl, hqid, hcid, htag, hopcode, hnsid, hstatus, -, -, -, -, -,
    hslba, hnlb, hretries,
    hcached, helapsed⟩ := hint
  have hbind : ∀ {α β : Type} (x : α) (f : α → Except PyError β),
      (Except.ok x >>= f) = f x :=
    fun _ _ => rfl
  unfold ErrorEvents.parseLine ErrorEvents.parseDetail
  rw [match_line_eq]
  by_cases h : c.tsNs.toNat < 2 ^ 63 ∧ c.elapsedNs.toNat < 2 ^ 63
  · rw [if_pos h, if_pos h]
    simp only [values, List.map_cons, List.map_nil, hctrl, hqid, hcid, htag,
      hopcode, hnsid,
      hstatus, hslba, hnlb, hretries, hcached, helapsed, hbind, hfloat]
    rfl
  · rw [if_neg h, if_neg h]
    rfl

/-- The request arrives as it was: its fields are read back unsigned, the parts
of its status are those the collector printed, the place is shown for reads and
writes of an I/O queue whose submission was seen, and the event can be sent. -/
def RoundTrips (now : ℚ) (e : Extended) : Prop :=
  let a := c.completeRq
  ∃ ev d, ErrorEvents.parseLine now (c.line e) = .ok (some ev) ∧
    ev.error = some d ∧
    d.opcode = c.opcode.toNat ∧ d.nsid = c.nsid.toNat ∧ d.slba = c.slba.toNat ∧
      d.nlb = c.nlb ∧
    d.cid = c.cid.toNat ∧ d.tag = c.tag ∧ d.retries = c.retries.toNat ∧
    d.submitCached = c.submitted.isSome ∧
    (d.sct = a.sct.toNat ∧ d.sc = a.sc.toNat ∧ d.crd = a.crd.toNat ∧
      d.more = decide (a.more.toNat ≠ 0) ∧ d.dnr = decide (a.dnr.toNat ≠ 0)) ∧
    (c.status.toNat : Int) = d.sc + 2 ^ 8 * d.sct + 2 ^ 11 * d.crd + 2 ^ 13 *
      d.more.toNat
      + 2 ^ 14 * d.dnr.toNat ∧
    (d.lbaValid = true ↔
      c.submitted.isSome = true ∧ c.qid ≠ 0 ∧ (c.opcode = 1 ∨ c.opcode = 2)) ∧
    Succeeds (nvmeEventToPb ev)

end Failed

namespace Failed

variable (c : Failed)

/-- The opcode is read as it was submitted, whatever was extended. -/
theorem opcode_detail (e : Extended) :
    (c.detail e).opcode = c.opcode.toNat := by
  have hlt := c.opcode.toNat_lt
  change c.printedOpcode e % 256 = _
  unfold printedOpcode
  rw [TimedOut.signExtend8_eq]
  split
  · split <;> omega
  · omega

/-- So is the namespace. -/
theorem nsid_detail (e : Extended) : (c.detail e).nsid = c.nsid.toNat := by
  have hlt := c.nsid.toNat_lt
  change c.printedNsid e % 4294967296 = _
  unfold printedNsid
  rw [TimedOut.signExtend32_eq]
  split
  · split <;> omega
  · omega

/-- The flag tells whether the submission was kept. -/
theorem submitCached_detail (e : Extended) :
    (c.detail e).submitCached = c.submitted.isSome := by
  change decide ((if c.submitted.isSome then (1 : Int) else 0) ≠ 0) = _
  cases c.submitted.isSome with
  | false => rfl
  | true => rfl

/-- Bits printed as numbers and read as truth values. -/
theorem toNat_decide_ne_zero {n : Nat} (h : n < 2) :
    (decide (n ≠ 0)).toNat = n := by
  have : n = 0 ∨ n = 1 := by omega
  rcases this with rfl | rfl
  · rfl
  · rfl

/-- The parts of the status make up its word. -/
theorem status_detail (e : Extended) :
    (c.status.toNat : Int) = (c.detail e).sc + 2 ^ 8 * (c.detail e).sct
      + 2 ^ 11 * (c.detail e).crd + 2 ^ 13 * (c.detail e).more.toNat
      + 2 ^ 14 * (c.detail e).dnr.toNat := by
  obtain ⟨hsc, hsct, hcrd, hmore, hdnr⟩ := c.completeRq.decodeStatus_status
  have hm : c.completeRq.more.toNat < 2 := by
    rw [CompleteRq.toNat_more]
    omega
  have hd : c.completeRq.dnr.toNat < 2 := by
    rw [CompleteRq.toNat_dnr]
    omega
  have hstatus := c.completeRq.status_eq c.status_lt
  change _ = (decodeStatus c.completeRq.status.toNat).sc
    + 2 ^ 8 * (decodeStatus c.completeRq.status.toNat).sct
    + 2 ^ 11 * (decodeStatus c.completeRq.status.toNat).crd
    + 2 ^ 13 * (decodeStatus c.completeRq.status.toNat).more.toNat
    + 2 ^ 14 * (decodeStatus c.completeRq.status.toNat).dnr.toNat
  rw [hsc, hsct, hcrd, hmore, hdnr, toNat_decide_ne_zero hm,
    toNat_decide_ne_zero hd]
  change ((c.completeRq.status.toNat : Nat) : Int) = _
  exact_mod_cast hstatus

/-- The block range is valid of kept reads and writes on I/O queues. -/
theorem lbaValid_detail (e : Extended) :
    (c.detail e).lbaValid = true ↔
      c.submitted.isSome = true ∧ c.qid ≠ 0 ∧
        (c.opcode = 1 ∨ c.opcode = 2) := by
  have hvalid : (c.detail e).lbaValid = ((c.detail e).submitCached &&
      decide ((c.qid.toNat : Int) ≠ 0) &&
        decide ((c.detail e).opcode ∈ ErrorEvents.lbaOpcodes)) :=
    rfl
  have hqid : (c.qid.toNat : Int) ≠ 0 ↔ c.qid ≠ 0 := by
    rw [Ne, Ne, ← UInt16.toNat_inj]
    simp
  have hopcode : (c.opcode.toNat : Int) ∈ ErrorEvents.lbaOpcodes ↔
      c.opcode = 1 ∨ c.opcode = 2 := by
    rw [← UInt8.toNat_inj, ← UInt8.toNat_inj]
    change (c.opcode.toNat : Int) ∈ [1, 2] ↔ c.opcode.toNat = 1 ∨
      c.opcode.toNat = 2
    simp only [List.mem_cons, List.not_mem_nil, or_false]
    omega
  rw [hvalid, submitCached_detail, opcode_detail, Bool.and_eq_true,
    Bool.and_eq_true,
    decide_eq_true_iff, decide_eq_true_iff, hqid, hopcode, and_assoc]

/-- What is read of a printed line can be sent. -/
theorem inRange_detail (e : Extended) : (c.detail e).InRange := by
  have hopcode := c.opcode.toNat_lt
  have hnsid := c.nsid.toNat_lt
  have hslba := c.slba.toNat_lt
  have hcid := c.cid.toNat_lt
  have hstatus := c.status.toNat_lt
  have hretries := c.retries.toNat_lt
  have hnlb := ((c.submitted.map Submitted.nlb).getD 0).toNat_lt
  have htag : c.tag < 4096 := Nat.mod_lt _ (by decide)
  unfold ErrorEventDetail.InRange
  rw [opcode_detail, nsid_detail]
  simp only [detail, ErrorEvents.detail, decodeStatus, nlb]
  omega

end Failed

/-- **When an error arrives unchanged**: the times that are printed with a
signed conversion have their top bit clear. -/
theorem error_round_trip_iff [UnicodeDb] (now : ℚ) (e : Extended) (c : Failed) :
    c.RoundTrips now e ↔ c.tsNs.toNat < 2 ^ 63 ∧
      c.elapsedNs.toNat < 2 ^ 63 := by
  constructor
  · intro ⟨ev, d, hparse, _⟩
    rw [Failed.parseLine_line] at hparse
    by_contra h
    rw [if_neg h] at hparse
    exact absurd hparse (by simp)
  · intro h
    obtain ⟨hsc, hsct, hcrd, hmore, hdnr⟩ := c.completeRq.decodeStatus_status
    have hqid : -(2 ^ 31) ≤ (c.qid.toNat : Int) ∧
        (c.qid.toNat : Int) < 2 ^ 31 := by
      have := c.qid.toNat_lt
      omega
    refine ⟨ErrorEvents.event now c.ctrl c.qid.toNat (c.detail e),
      c.detail e, ?_, rfl,
      c.opcode_detail e, c.nsid_detail e, rfl, rfl, rfl, rfl, rfl,
      c.submitCached_detail e,
      ⟨hsct, hsc, hcrd, hmore, hdnr⟩, c.status_detail e, c.lbaValid_detail e,
      ?_⟩
    · rw [Failed.parseLine_line, if_pos h]
    · exact (succeeds_nvmeEventToPb_error rfl rfl).mpr
        ⟨hqid, c.inRange_detail e⟩

/-- A request whose completion was stamped just before its submission, by a
clock of another processor. -/
def stampedEarly : Failed where
  tsNs := 1000
  ctrl := 0
  qid := 1
  cid := 5
  status := 0x281
  retries := 0
  submitted := some ⟨2, 1, 2048, 7⟩
  elapsedNs := 1000 - 1003
  ctrl_lt := by decide
  status_ne := by decide
  status_lt := by decide

/-- Its line ends in `elapsed_ns=-3` and is not read. -/
theorem stampedEarly_not_round_trip :
    ¬ @Failed.RoundTrips stampedEarly UnicodeDb.ascii 0 ⟨true, true⟩ := by
  intro ⟨ev, d, hparse, _⟩
  rw [@Failed.parseLine_line _ UnicodeDb.ascii] at hparse
  have hlate :
      ¬ (stampedEarly.tsNs.toNat < 2 ^ 63 ∧
      stampedEarly.elapsedNs.toNat < 2 ^ 63) := by
    decide
  rw [if_neg hlate] at hparse
  exact absurd hparse (by simp)

end Telemetryd
