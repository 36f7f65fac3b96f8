import Telemetryd.RunEvents

/-!
# The events of the driver

From the driver to the list of events.  The driver knows which commands are
outstanding and what happened since the tick, and that says of every timeout and
of every error which event it is: the first fifty errors of a controller between
two ticks are events, and each carries the fields of its own command.  The
collector and the readers together follow it: what the log of a run shows, and
what a call returns, are the events of the driver.
-/

namespace Telemetryd

open PyText Utf8 Regex Counters PyError

/-! ### The events of the driver -/

/-- The commands that the driver has not completed, and the probes since the
last tick. -/
structure Driver where
  outstanding : List SetupCmd := []
  sinceTick : List Probe := []

instance SetupCmd.neZeroCdw : NeZero 6 := ⟨by decide⟩

/-- What is known of a command that times out, 0 for the fields of one whose
submission was not seen. -/
def NvmeTimeout.timedOut (a : NvmeTimeout) (c : Option SetupCmd) :
    TimedOut where
  tsNs := a.nsecs.toNat
  ctrl := a.ctrl.toInt.toNat
  qid := a.qid.toInt.toNat
  tag := a.tag.toInt.toNat
  opcode := (c.map SetupCmd.opcode).getD 0
  nsid := (c.map SetupCmd.nsid).getD 0
  flags := (c.map SetupCmd.flags).getD 0
  cdw10 := (c.map (SetupCmd.cdw · 0)).getD 0
  cdw11 := (c.map (SetupCmd.cdw · 1)).getD 0
  cdw12 := (c.map (SetupCmd.cdw · 2)).getD 0
  cdw13 := (c.map (SetupCmd.cdw · 3)).getD 0
  cdw14 := (c.map (SetupCmd.cdw · 4)).getD 0
  cdw15 := (c.map (SetupCmd.cdw · 5)).getD 0
  elapsedNs := (c.map fun c => a.nsecs.toNat - c.nsecs.toNat).getD 0

/-- What is known of a command that fails. -/
def CompleteRq.errorDetail (a : CompleteRq) : Option SetupCmd → ErrorEventDetail
  | some c =>
      ErrorEvents.detail a.qid.toInt a.cid.toInt (a.cid.toInt % 4096)
        c.opcode.toNat
      c.nsid.toNat a.status.toNat ((c.cdw 1).toNat * 2 ^ 32 +
        (c.cdw 0).toNat : Nat)
      ((c.cdw 2).toNat % 2 ^ 16 + 1 : Nat) a.retries.toNat 1
        (a.nsecs.toNat - c.nsecs.toNat : Nat)
  | none =>
      ErrorEvents.detail a.qid.toInt a.cid.toInt (a.cid.toInt % 4096) 0 0
        a.status.toNat 0 1
      a.retries.toNat 0 0

/-- The numbers of a completion are those of the driver's types, and the clock
is in the lower half of its range. -/
structure CompleteRq.Ranged (a : CompleteRq) : Prop where
  nsecs : a.nsecs.toNat < 2 ^ 63
  ctrl : 0 ≤ a.ctrl.toInt ∧ a.ctrl.toInt < 2 ^ 31
  qid : 0 ≤ a.qid.toInt ∧ a.qid.toInt < 2 ^ 16
  cid : 0 ≤ a.cid.toInt ∧ a.cid.toInt < 2 ^ 16
  status : a.status.toNat < 2 ^ 15

/-- The numbers of a timeout are in the ranges of the kernel's types. -/
structure NvmeTimeout.Ranged (a : NvmeTimeout) : Prop where
  nsecs : a.nsecs.toNat < 2 ^ 63
  ctrl : 0 ≤ a.ctrl.toInt
  qid : 0 ≤ a.qid.toInt
  tag : 0 ≤ a.tag.toInt

instance (a : CompleteRq) : Decidable a.Ranged :=
  decidable_of_iff (a.nsecs.toNat < 2 ^ 63 ∧
    (0 ≤ a.ctrl.toInt ∧ a.ctrl.toInt < 2 ^ 31) ∧
    (0 ≤ a.qid.toInt ∧ a.qid.toInt < 2 ^ 16) ∧
      (0 ≤ a.cid.toInt ∧ a.cid.toInt < 2 ^ 16) ∧
      a.status.toNat < 2 ^ 15)
    ⟨fun h => ⟨h.1, h.2.1, h.2.2.1, h.2.2.2.1, h.2.2.2.2⟩, fun h =>
      ⟨h.1, h.2, h.3, h.4, h.5⟩⟩

instance (a : NvmeTimeout) : Decidable a.Ranged :=
  decidable_of_iff (a.nsecs.toNat < 2 ^ 63 ∧ 0 ≤ a.ctrl.toInt ∧
    0 ≤ a.qid.toInt ∧ 0 ≤ a.tag.toInt)
    ⟨fun h => ⟨h.1, h.2.1, h.2.2.1, h.2.2.2⟩, fun h => ⟨h.1, h.2, h.3, h.4⟩⟩

namespace Driver

/-- The command that is outstanding under a tag. -/
def under (d : Driver) (req : Key3) : Option SetupCmd :=
  d.outstanding.find? fun c => decide (c.req = req)

/-- The event of a probe. -/
def event (d : Driver) : Probe → Option NvmeEvent
  | .nvmeTimeout a =>
      some (TimeoutEvents.event 0 a.ctrl.toInt a.qid.toInt
        (a.timedOut (d.under a.req)).detail)
  | .completeRq a =>
      if a.status ≠ 0 ∧ (failuresOn a.ctrl d.sinceTick).length < 50 then
        some (ErrorEvents.event 0 a.ctrl.toInt a.qid.toInt
          (a.errorDetail (d.under a.req)))
      else none
  | .setupCmd _ => none
  | .interval => none

/-- One probe, as the driver sees it. -/
def step (d : Driver) (p : Probe) : Driver where
  outstanding := Traced.outstandingAfter d.outstanding p
  sinceTick := match p with
    | .interval => []
    | p => d.sinceTick ++ [p]

/-- A tag is set up only while no command is outstanding under it, what
completes or times out under a tag of an outstanding command was submitted
before, and all numbers are in range. -/
def Ordinary (d : Driver) : Probe → Prop
  | .setupCmd a => a.nsecs ≠ 0 ∧ ∀ c ∈ d.outstanding, c.req ≠ a.req
  | .completeRq a => a.Ranged ∧
      ∀ c ∈ d.outstanding, c.req = a.req → a.Completes c ∧
        c.nsecs.toNat ≤ a.nsecs.toNat
  | .nvmeTimeout a => a.Ranged ∧
      ∀ c ∈ d.outstanding, c.req = a.req → c.nsecs.toNat ≤ a.nsecs.toNat
  | .interval => True

instance (d : Driver) : ∀ p, Decidable (d.Ordinary p)
  | .setupCmd a =>
      inferInstanceAs (Decidable (a.nsecs ≠ 0 ∧ ∀ c ∈ d.outstanding,
        c.req ≠ a.req))
  | .completeRq a => inferInstanceAs (Decidable (a.Ranged ∧
      ∀ c ∈ d.outstanding, c.req = a.req → a.Completes c ∧
        c.nsecs.toNat ≤ a.nsecs.toNat))
  | .nvmeTimeout a => inferInstanceAs (Decidable (a.Ranged ∧
      ∀ c ∈ d.outstanding, c.req = a.req → c.nsecs.toNat ≤ a.nsecs.toNat))
  | .interval => isTrue trivial

/-- The events of the probes, one after the other. -/
def events (d : Driver) : List Probe → List NvmeEvent
  | [] => []
  | p :: ps => (d.event p).toList ++ (d.step p).events ps

end Driver

/-! ### The lines of these events -/

/-- The time since the submission, as it is printed. -/
theorem toInt_elapsed {now start : UInt64} (hnow : now.toNat < 2 ^ 63)
    (h : start.toNat ≤ now.toNat) :
    (now - start).toNat = now.toNat - start.toNat ∧
      (now - start).toInt64.toInt = (now.toNat - start.toNat : Nat) := by
  have hsub : (now - start).toNat = now.toNat - start.toNat :=
    UInt64.toNat_sub_of_le _ _ (UInt64.le_iff_toNat_le.mpr h)
  refine ⟨hsub, ?_⟩
  rw [Failed.toInt_toInt64, hsub, if_pos (by omega)]

/-- The detail is that of the masked fields. -/
theorem detail_masked (qid cid tag status slba nlb retries cached : Int)
    (elapsed : ℚ) (opcode : UInt8)
    (nsid : UInt32) :
    ErrorEvents.detail qid cid tag (TimedOut.signExtend8 opcode)
      (TimedOut.signExtend32 nsid) status slba nlb retries cached elapsed
      = ErrorEvents.detail qid cid tag opcode.toNat nsid.toNat status slba nlb
        retries cached elapsed := by
  have hopcode : TimedOut.signExtend8 opcode % 256 = (opcode.toNat : Int) %
      256 := by
    rw [TimedOut.signExtend8_eq]
    split <;> omega
  have hnsid : TimedOut.signExtend32 nsid % 4294967296 =
      (nsid.toNat : Int) % 4294967296 := by
    rw [TimedOut.signExtend32_eq]
    split <;> omega
  unfold ErrorEvents.detail
  rw [hopcode, hnsid]

namespace CompleteRq

variable {a : CompleteRq} (h : a.Ranged) (hstatus : a.status ≠ 0)

/-- The completion as a request that failed. -/
def toFailed (submitted : Option Submitted) (elapsedNs : UInt64) : Failed where
  tsNs := a.nsecs
  ctrl := a.ctrl.toInt.toNat
  qid := UInt16.ofNat a.qid.toInt.toNat
  cid := UInt16.ofNat a.cid.toInt.toNat
  status := a.status
  retries := a.retries
  submitted := submitted
  elapsedNs := elapsedNs
  ctrl_lt := by
    have := h.ctrl
    omega
  status_ne := hstatus
  status_lt := h.status

/-- A number of 16 bits is one. -/
theorem toNat_ofNat16 {i : Int} (hi : 0 ≤ i ∧ i < 2 ^ 16) :
    ((UInt16.ofNat i.toNat).toNat : Int) = i := by
  have hlt : i.toNat < 2 ^ 16 := by omega
  have hnat : (UInt16.ofNat i.toNat).toNat = i.toNat := Nat.mod_eq_of_lt hlt
  rw [hnat]
  omega

include h in
/-- The numbers of the completion are printed as they are. -/
theorem printed_toFailed : (a.ctrl.toInt.toNat : Int) = a.ctrl.toInt ∧
    ((UInt16.ofNat a.qid.toInt.toNat).toNat : Int) = a.qid.toInt ∧
    ((UInt16.ofNat a.cid.toInt.toNat).toNat : Int) = a.cid.toInt ∧
    (((UInt16.ofNat a.cid.toInt.toNat).toNat % 4096 : Nat) : Int) =
      a.cid.toInt % 4096 := by
  have hcid := toNat_ofNat16 h.cid
  refine ⟨Int.toNat_of_nonneg h.ctrl.1, toNat_ofNat16 h.qid, hcid, ?_⟩
  rw [Int.natCast_mod, hcid]
  rfl

/-- Its line, when the fields are printed sign-extended. -/
theorem line_toFailed (submitted : Option Submitted) (elapsedNs : UInt64) :
    (toFailed h hstatus submitted elapsedNs).line ⟨true, true⟩
      = a.errorText
          (TimedOut.signExtend8 ((submitted.map Submitted.opcode).getD 0))
          (TimedOut.signExtend32 ((submitted.map Submitted.nsid).getD 0))
          ((submitted.map Submitted.slba).getD 0).toNat
          (((submitted.map Submitted.nlb).getD 0).toNat + 1 : Nat)
          (if submitted.isSome then 1 else 0) elapsedNs.toInt64.toInt := by
  obtain ⟨hctrl, hqid, hcid, htag⟩ := printed_toFailed h
  unfold Failed.line CompleteRq.errorText
  simp only [toFailed, Failed.tag, hctrl, hqid, hcid, htag]
  rfl

variable [UnicodeDb]

include h hstatus

/-- **The line of a failed command is read as its event.** -/
theorem parse_errorText {submitted : Option Submitted} {elapsedNs : UInt64}
    (helapsed : elapsedNs.toNat < 2 ^ 63) :
    (ReaderKind.parser .error).parse 0
      (a.errorText
          (TimedOut.signExtend8 ((submitted.map Submitted.opcode).getD 0))
          (TimedOut.signExtend32 ((submitted.map Submitted.nsid).getD 0))
          ((submitted.map Submitted.slba).getD 0).toNat
          (((submitted.map Submitted.nlb).getD 0).toNat + 1 : Nat)
          (if submitted.isSome then 1 else 0) elapsedNs.toInt64.toInt)
      = .ok (some (ErrorEvents.event 0 a.ctrl.toInt a.qid.toInt
          (ErrorEvents.detail a.qid.toInt a.cid.toInt (a.cid.toInt % 4096)
            ((submitted.map Submitted.opcode).getD 0).toNat
              ((submitted.map Submitted.nsid).getD 0).toNat
            a.status.toNat ((submitted.map Submitted.slba).getD 0).toNat
            (((submitted.map Submitted.nlb).getD 0).toNat +
              1 : Nat) a.retries.toNat
            (if submitted.isSome then 1 else 0) elapsedNs.toInt64.toInt))) := by
  obtain ⟨hctrl, hqid, hcid, htag⟩ := printed_toFailed h
  rw [← line_toFailed h hstatus]
  refine (Failed.parseLine_line _ 0 ⟨true, true⟩).trans ?_
  have hdetail : (toFailed h hstatus submitted elapsedNs).detail ⟨true, true⟩
      = ErrorEvents.detail a.qid.toInt a.cid.toInt (a.cid.toInt % 4096)
          ((submitted.map Submitted.opcode).getD 0).toNat
            ((submitted.map Submitted.nsid).getD 0).toNat
          a.status.toNat ((submitted.map Submitted.slba).getD 0).toNat
          (((submitted.map Submitted.nlb).getD 0).toNat +
            1 : Nat) a.retries.toNat
          (if submitted.isSome then 1 else 0) elapsedNs.toInt64.toInt := by
    rw [← detail_masked]
    unfold Failed.detail
    simp only [toFailed, Failed.tag, hqid, hcid, htag]
    rfl
  rw [if_pos ⟨h.nsecs, helapsed⟩, hdetail]
  simp only [toFailed, hctrl, hqid]

/-- The line of an error whose submission was seen is read as that error. -/
theorem parse_errorText_of_seen {c : SetupCmd}
    (hbefore : c.nsecs.toNat ≤ a.nsecs.toNat) :
    (ReaderKind.parser .error).parse 0 (c.errorText a)
      = .ok (some (ErrorEvents.event 0 a.ctrl.toInt a.qid.toInt
        (a.errorDetail (some c)))) := by
  have hlo := (c.cdw 0).toNat_lt
  have hhi := (c.cdw 1).toNat_lt
  have hnow := h.nsecs
  obtain ⟨hnat, helapsed⟩ := toInt_elapsed h.nsecs hbefore
  have hsize : UInt64.size = 2 ^ 64 := rfl
  have hslba : (UInt64.ofNat ((c.cdw 1).toNat * 2 ^ 32 + (c.cdw 0).toNat)).toNat
      = (c.cdw 1).toNat * 2 ^ 32 + (c.cdw 0).toNat :=
        UInt64.toNat_ofNat_of_lt' (by omega)
  have hnlb : (UInt16.ofNat ((c.cdw 2).toNat % 2 ^ 16)).toNat =
      (c.cdw 2).toNat % 2 ^ 16 :=
    UInt16.toNat_ofNat_of_lt' (Nat.mod_lt _ (by decide))
  let known : Submitted :=
    ⟨c.opcode, c.nsid,
    UInt64.ofNat ((c.cdw 1).toNat * 2 ^ 32 + (c.cdw 0).toNat),
    UInt16.ofNat ((c.cdw 2).toNat % 2 ^ 16)⟩
  have hfits : (a.nsecs - c.nsecs).toNat < 2 ^ 63 := by omega
  have hparse :
      (ReaderKind.parser .error).parse 0
      (a.errorText (TimedOut.signExtend8 c.opcode)
      (TimedOut.signExtend32 c.nsid) known.slba.toNat
        (known.nlb.toNat + 1 : Nat) 1
        (a.nsecs - c.nsecs).toInt64.toInt)
      = .ok (some (ErrorEvents.event 0 a.ctrl.toInt a.qid.toInt
          (ErrorEvents.detail a.qid.toInt a.cid.toInt
          (a.cid.toInt % 4096) c.opcode.toNat c.nsid.toNat a.status.toNat
            known.slba.toNat
          (known.nlb.toNat + 1 : Nat) a.retries.toNat 1
            (a.nsecs - c.nsecs).toInt64.toInt))) :=
    @parse_errorText a h hstatus _ (some known) (a.nsecs - c.nsecs) hfits
  rw [show known.slba.toNat = _ from hslba, show known.nlb.toNat = _ from hnlb]
    at hparse
  unfold SetupCmd.errorText errorDetail
  rw [hparse, helapsed, Int.cast_natCast]

/-- So is that of one whose submission was not. -/
theorem parse_errorText_of_unseen :
    (ReaderKind.parser .error).parse 0 (a.errorText 0 0 0 1 0 0)
    = .ok (some (ErrorEvents.event 0 a.ctrl.toInt a.qid.toInt
      (a.errorDetail none))) :=
  @parse_errorText a h hstatus _ none 0 (by decide)

end CompleteRq

namespace NvmeTimeout

variable {a : NvmeTimeout} (h : a.Ranged) (c : Option SetupCmd)

include h

/-- The line of a timeout can be read. -/
theorem readable_timedOut : (a.timedOut c).Readable := by
  have hword : ∀ x : Int64, x.toInt.toNat < 10 ^ maxStrDigits := by
    intro x
    have hlt := x.toInt_lt
    exact lt_maxStrDigits_of_lt (by omega)
  refine ⟨hword _, hword _, hword _, lt_floatLimit_of_lt ?_⟩
  have hnow := h.nsecs
  cases c with
  | none => exact Nat.two_pow_pos 64
  | some c =>
      change a.nsecs.toNat - c.nsecs.toNat < 2 ^ 64
      omega

/-- The numbers of the probe are printed as they are. -/
theorem printed_timedOut : a.nsecs.toInt64.toInt = ((a.timedOut c).tsNs : Int) ∧
    a.ctrl.toInt = ((a.timedOut c).ctrl : Int) ∧
      a.qid.toInt = ((a.timedOut c).qid : Int) ∧
    a.tag.toInt = ((a.timedOut c).tag : Int) := by
  refine ⟨?_, (Int.toNat_of_nonneg h.ctrl).symm,
    (Int.toNat_of_nonneg h.qid).symm,
    (Int.toNat_of_nonneg h.tag).symm⟩
  rw [Failed.toInt_toInt64, if_pos h.nsecs]
  rfl

/-- **The line of a timeout is read as its event.** -/
theorem parse_timedOut [UnicodeDb] :
    (ReaderKind.parser .timeout).parse 0 (a.timedOut c).line
    = .ok (some (TimeoutEvents.event 0 a.ctrl.toInt a.qid.toInt
      (a.timedOut c).detail)) := by
  obtain ⟨-, hctrl, hqid, -⟩ := printed_timedOut h c
  rw [hctrl, hqid]
  exact (TimedOut.parseLine_line_eq_ok 0 _).mpr ⟨readable_timedOut h c, rfl⟩

/-- The line of a timeout whose submission was seen. -/
theorem timeoutText_of_seen {c : SetupCmd}
    (hbefore : c.nsecs.toNat ≤ a.nsecs.toNat) :
    c.timeoutText a = (a.timedOut (some c)).line := by
  obtain ⟨-, helapsed⟩ := toInt_elapsed h.nsecs hbefore
  obtain ⟨hnow, hctrl, hqid, htag⟩ := printed_timedOut h (some c)
  unfold SetupCmd.timeoutText TimedOut.line
  rw [hnow, hctrl, hqid, htag, helapsed]
  rfl

/-- The line of one whose submission was not. -/
theorem timeoutLine_of_unseen {s : Collector} {out : List SetupCmd}
    (hcache : s.CacheExact out)
    (hno : ∀ c ∈ out, c.req ≠ a.req) :
    s.timeoutLine a = (a.timedOut none).line := by
  have hfree : ∀ c ∈ out, c.req ≠ (a.ctrl, a.qid, a.tag) := hno
  have hts : word s.toTs (a.ctrl, a.qid, a.tag) = 0 := by
    rw [word, hcache.toTs.get?_eq_none hfree, Option.getD_none]
  have hzero : (0 : UInt64) ≠ 0 ↔ False := by decide
  obtain ⟨hnow, hctrl, hqid, htag⟩ := printed_timedOut h none
  unfold Collector.timeoutLine TimedOut.line
  simp only [hts, hcache.toOpcode.get?_eq_none hfree,
    hcache.toNsid.get?_eq_none hfree,
    hcache.toFlags.get?_eq_none hfree, hcache.toCdw10.get?_eq_none hfree,
    hcache.toCdw11.get?_eq_none hfree, hcache.toCdw12.get?_eq_none hfree,
    hcache.toCdw13.get?_eq_none hfree, hcache.toCdw14.get?_eq_none hfree,
    hcache.toCdw15.get?_eq_none hfree, Option.getD_none, hzero, if_false]
  rw [hnow, hctrl, hqid, htag]
  rfl

end NvmeTimeout

/-! ### Lines and readers -/

section Readers

variable [UnicodeDb] {kind : ReaderKind} {line : PyText} {e : NvmeEvent}

/-- A line that is parsed as an event begins with its mark. -/
theorem mark_prefix_of_parse (h : kind.parser.parse 0 line = .ok (some e)) :
    kind.mark <+: strip line := by
  by_contra hno
  rw [parse_of_no_mark hno] at h
  exact absurd (Except.ok.inj h) (by simp)

/-- What one reader takes the other passes over. -/
theorem succeeds_of_parse (h : kind.parser.parse 0 line = .ok (some e))
    (other : ReaderKind) :
    Succeeds (other.parser.parse 0 line) := by
  by_cases hmark : other.mark <+: strip line
  · obtain ⟨r, hr⟩ := mark_prefix_of_parse h
    obtain ⟨r', hr'⟩ := hmark
    have heq := hr.trans hr'.symm
    cases kind <;> cases other
    · exact ⟨_, h⟩
    · exact absurd (List.cons.inj heq).1 (by decide)
    · exact absurd (List.cons.inj heq).1 (by decide)
    · exact ⟨_, h⟩
  · exact ⟨none, parse_of_no_mark hmark⟩

/-- A line that one reader parses is an event. -/
theorem acceptsEvent_of_parse (h : kind.parser.parse 0 line = .ok (some e))
    (hat : e.stamp 0 = e) :
    acceptsEvent line = some e := by
  have haccepts : kind.parser.accepts line = some e := by
    rw [LineParser.accepts, h]
    exact congrArg some hat
  cases kind with
  | timeout =>
      rw [acceptsEvent, haccepts]
      rfl
  | error =>
      cases htimeout : (ReaderKind.parser .timeout).accepts line with
      | some ev => exact absurd haccepts (not_timeout_and_error htimeout)
      | none =>
          rw [acceptsEvent, htimeout, haccepts]
          rfl

end Readers

/-! ### The collector follows the driver -/

namespace Driver

variable {d : Driver} {s : Collector} {p : Probe} {req : Key3}

/-- The command of a request, if it is outstanding. -/
theorem under_eq_some {c : SetupCmd} (hc : d.under req = some c) :
    c ∈ d.outstanding ∧ c.req = req := by
  have hfound : d.outstanding.find? (fun c => decide (c.req = req)) = some c :=
    hc
  exact ⟨List.mem_of_find?_eq_some
    hfound, by simpa using List.find?_some hfound⟩

/-- A request without a command. -/
theorem under_eq_none (hnone : d.under req = none) :
    ∀ c ∈ d.outstanding, c.req ≠ req := by
  intro c hc hreq
  exact List.find?_eq_none.mp hnone c hc (decide_eq_true hreq)

/-- An ordinary probe is one that a driver can make. -/
theorem Ordinary.admits (hp : d.Ordinary p) :
    (Traced.mk s d.outstanding).Admits p := by
  cases p with
  | setupCmd a => exact hp
  | completeRq a => exact fun c hc hreq => (hp.2 c hc hreq).1
  | nvmeTimeout a => trivial
  | interval => trivial

/-- The collector knows the commands that are outstanding, and how many of the
fifty lines of each controller are spent. -/
structure Follows (s : Collector) (d : Driver) : Prop where
  cache : s.CacheExact d.outstanding
  timed : ∀ c ∈ d.outstanding, c.nsecs ≠ 0
  spent : ∀ ctrl,
    s.linesSpent ctrl = min 50 (failuresOn ctrl d.sinceTick).length

/-- At first the collector follows the driver. -/
theorem follows_start : Follows {} {} where
  cache := ⟨caches_empty _, caches_empty _, caches_empty _, caches_empty _,
    caches_empty _,
    caches_empty _, caches_empty _, caches_empty _, caches_empty _,
    caches_empty _⟩
  timed := fun _ hc => absurd hc List.not_mem_nil
  spent := fun _ => rfl

/-- What is spent of the budget after a probe. -/
theorem spent_of_probe (o : PrintOrder) (hf : Follows s d) (hp : p ≠ .interval)
    (ctrl : Int64) :
    (s.step o p).1.linesSpent ctrl =
      min 50 (failuresOn ctrl (d.sinceTick ++ [p])).length := by
  have hfull : s.linesSpent ctrl ≤ 50 := by
    rw [hf.spent]
    exact Nat.min_le_left _ _
  have hsplit : (failuresOn ctrl (d.sinceTick ++ [p])).length
      = (failuresOn ctrl d.sinceTick).length +
        (failuresOn ctrl [p]).length := by
    unfold failuresOn failures
    rw [List.filterMap_append, List.filter_append, List.length_append]
  rw [(s.linesSpent_step o ctrl hfull hp).1, hf.spent, hsplit]
  omega

/-- **A probe is followed.** -/
theorem Follows.step (o : PrintOrder) (hf : Follows s d) (hp : d.Ordinary p) :
    Follows (s.step o p).1 (d.step p) where
  cache := Traced.cacheExact_step o (t := ⟨s, d.outstanding⟩) hf.cache hp.admits
  timed := by
    cases p with
    | setupCmd a =>
        intro c hc
        rcases List.mem_cons.mp hc with rfl | hc
        · exact hp.1
        · exact hf.timed c hc
    | completeRq a => exact fun c hc => hf.timed c (List.mem_of_mem_filter hc)
    | nvmeTimeout a => exact hf.timed
    | interval => exact hf.timed
  spent := by
    cases p with
    | setupCmd a => exact spent_of_probe o hf (by simp)
    | completeRq a => exact spent_of_probe o hf (by simp)
    | nvmeTimeout a => exact spent_of_probe o hf (by simp)
    | interval => exact fun ctrl => rfl

/-- A failure is printed exactly if it is among the first fifty since the
tick. -/
theorem Follows.printsError_iff (hf : Follows s d) (a : CompleteRq) :
    s.PrintsError a ↔ a.status ≠ 0 ∧
      (failuresOn a.ctrl d.sinceTick).length < 50 := by
  have hspent :
      (word s.errBudget a.ctrl).toNat =
      min 50 (failuresOn a.ctrl d.sinceTick).length :=
    hf.spent a.ctrl
  have hbudget : word s.errBudget a.ctrl < 50 ↔
      (failuresOn a.ctrl d.sinceTick).length < 50 := by
    have hfifty : (50 : UInt64).toNat = 50 := rfl
    rw [UInt64.lt_iff_toNat_lt, hspent, hfifty]
    omega
  exact and_congr_right fun _ => hbudget

variable [UnicodeDb]

/-- **What a probe prints is read as its event**, and what is no event is not
printed. -/
theorem Follows.parse (hf : Follows s d) (hp : d.Ordinary p) :
    (s.eventText p = none ∧ d.event p = none) ∨ ∃ t e, s.eventText p = some t ∧
      d.event p = some e ∧
      e.stamp 0 = e ∧ ∃ kind : ReaderKind, kind.parser.parse 0 t =
        .ok (some e) := by
  cases p with
  | setupCmd a => exact Or.inl ⟨rfl, rfl⟩
  | interval => exact Or.inl ⟨rfl, rfl⟩
  | nvmeTimeout a =>
      have hline : s.timeoutLine a = (a.timedOut (d.under a.req)).line := by
        cases hc : d.under a.req with
        | none =>
            exact NvmeTimeout.timeoutLine_of_unseen hp.1 hf.cache
              (under_eq_none hc)
        | some c =>
            obtain ⟨hmem, hreq⟩ := under_eq_some hc
            rw [hf.cache.timeoutLine_eq hf.timed hmem hreq]
            exact NvmeTimeout.timeoutText_of_seen hp.1 (hp.2 c hmem hreq)
      exact Or.inr ⟨_, _, congrArg some hline, rfl, rfl, .timeout,
        NvmeTimeout.parse_timedOut hp.1 _⟩
  | completeRq a =>
      have hprints := hf.printsError_iff a
      by_cases hshown : s.PrintsError a
      · have hline : (ReaderKind.parser .error).parse 0 (s.errorLine a)
            = .ok (some (ErrorEvents.event 0 a.ctrl.toInt a.qid.toInt
              (a.errorDetail (d.under a.req)))) := by
          cases hc : d.under a.req with
          | none =>
              have hfree := under_eq_none hc
              rw [hf.cache.errorLine_of_unseen (fun c hmem hreq =>
                (hp.2 c hmem hreq).1)
                fun c hmem hdone => hfree c hmem hdone.req_eq]
              exact CompleteRq.parse_errorText_of_unseen hp.1 hshown.1
          | some c =>
              obtain ⟨hmem, hreq⟩ := under_eq_some hc
              obtain ⟨hdone, hbefore⟩ := hp.2 c hmem hreq
              rw [hf.cache.errorLine_of_mem hf.timed hmem hdone]
              exact CompleteRq.parse_errorText_of_seen hp.1 hshown.1 hbefore
        exact Or.inr ⟨_, _, if_pos hshown, if_pos (hprints.mp hshown), rfl,
          .error, hline⟩
      · exact Or.inl ⟨if_neg hshown, if_neg (mt hprints.mpr hshown)⟩

/-- The texts of a run are its events, and both readers read them. -/
theorem eventTexts_of_follows (o : PrintOrder) {probes : List Probe}
    (hf : Follows s d)
    (hrun : Runs.Each Driver.step Driver.Ordinary d probes) :
    (s.eventTexts o probes).filterMap acceptsEvent = d.events probes ∧
      ∀ t ∈ s.eventTexts o probes, ∀ kind : ReaderKind,
        Succeeds (kind.parser.parse 0 t) := by
  induction probes generalizing s d with
  | nil => exact ⟨rfl, fun t ht => absurd ht List.not_mem_nil⟩
  | cons p probes ih =>
      obtain ⟨hp, hrest⟩ := hrun
      obtain ⟨hevents, hreads⟩ := ih (hf.step o hp) hrest
      rw [Collector.eventTexts, events, List.filterMap_append, hevents]
      rcases hf.parse hp with ⟨htext, hevent⟩ | ⟨t, e, htext, hevent, hat,
        kind, hparse⟩
      · rw [htext, hevent]
        exact ⟨rfl, hreads⟩
      · rw [htext, hevent]
        refine ⟨?_, ?_⟩
        · change [t].filterMap acceptsEvent ++ _ = [e] ++ _
          rw [List.filterMap_cons_some (acceptsEvent_of_parse hparse hat),
            List.filterMap_nil]
        · intro t' ht'
          rcases List.mem_cons.mp ht' with rfl | ht'
          · exact succeeds_of_parse hparse
          · exact hreads t' ht'

end Driver

/-! ### Every run -/

section Run

variable [UnicodeDb] (o : PrintOrder) {probes : List Probe}
  (h : Runs.Each Driver.step Driver.Ordinary {} probes)

include h

/-- **The log shows the driver's events.**  In every run whose tags are set up
while they are free, the events in the log are those of the driver, one after
the other. -/
theorem logEvents_of_driver :
    logEvents (logBytes (runOutput o probes)) = Driver.events {} probes := by
  rw [logEvents_runOutput]
  exact (Driver.eventTexts_of_follows o Driver.follows_start h).1

/-- Every line of such a log is read without an exception. -/
theorem succeeds_of_driver {l : PyText}
    (hl : l ∈ logLines (logBytes (runOutput o probes)))
    (kind : ReaderKind) : Succeeds (kind.parser.parse 0 l) := by
  rcases mem_logLines_runOutput o hl with hl | hno
  · exact (Driver.eventTexts_of_follows o Driver.follows_start h).2 l hl kind
  · exact ⟨none, parse_of_unmarked hno kind⟩

end Run

/-! ### What the calls return -/

section

variable (o : PrintOrder) (probes : List Probe)

/-- What a call returns of some events: the last of each kind, and of these the
device's. -/
def recentEvents (device : PyText) (events : List NvmeEvent) : List NvmeEvent :=
  shared (isKind .timeout) (onDevice device) maxEvents events ++
    shared (isKind .error) (onDevice device) maxEvents events

/-- A log without events has no recent ones. -/
theorem recentEvents_nil (device : PyText) : recentEvents device [] = [] := by
  simp [recentEvents, shared]

/-- The log holds no more than the collector has written. -/
def WrittenByRun (s : ServedLog) : WholeStep → Prop
  | .append bytes => s.content ++ bytes <+: logBytes (runOutput o probes)
  | .getEvents _ => True

/-- The last call returned, their times of observation apart, the recent ones of
a past of the driver: of no event that did not happen, and of all whose lines
were written when it was made. -/
def AnsweredByRun (s : ServedLog) : Prop :=
  ∀ device reply, s.answer = some (device, reply) →
    ∃ events past, reply = .ok events ∧
    (events.map (NvmeEvent.stamp 0)).Perm (recentEvents device past) ∧
    past <+: Driver.events {} probes ∧
    ∀ front, front <+: probes → logBytes (runOutput o front) <+: s.asked →
      Driver.events {} front <+: past

variable [UnicodeDb]

/-- The invariant of a run: the readers have read a part of the log, which is
one of the run. -/
structure RunServed (s : ServedLog) : Prop where
  written : s.content <+: logBytes (runOutput o probes)
  rings : ∃ read, read <+: s.content ∧
    RingOf .timeout s.service.sources.1 read ∧
    RingOf .error s.service.sources.2 read
  answers : AnsweredByRun o probes s

variable {probes} (h : Runs.Each Driver.step Driver.Ordinary {} probes)

include h

/-- The events of a log that is not yet whole. -/
theorem past_of_driver {asked : Bytes}
    (hasked : asked <+: logBytes (runOutput o probes)) :
    logEvents asked <+: Driver.events {} probes ∧
      ∀ front, front <+: probes → logBytes (runOutput o front) <+: asked →
        Driver.events {} front <+: logEvents asked := by
  have hmono : ∀ {a b : Bytes}, a <+: b → logEvents a <+: logEvents b :=
    fun hab => (logLines_mono hab).filterMap acceptsEvent
  constructor
  · rw [← logEvents_of_driver o h]
    exact hmono hasked
  · intro front hfront hwritten
    rw [← logEvents_of_driver o (h.of_prefix hfront)]
    exact hmono hwritten

/-- **A call.** -/
theorem runServed_getEvents (time : Nat → ℚ) {s : ServedLog}
    (hs : RunServed o probes s) (device : PyText) :
    RunServed o probes (s.stepWhole time (.getEvents device)) := by
  obtain ⟨hwritten, ⟨read, hgrown, htimeouts, herrors⟩, -⟩ := hs
  obtain ⟨hpast, hall⟩ := past_of_driver o h hwritten
  unfold ServedLog.stepWhole WholeStep.toStep ServedLog.step
  cases hfile : s.file with
  | none =>
      have hcontent : s.content = [] := by rw [ServedLog.content, hfile]; rfl
      have hout : s.service.getEvents time s.reads none none device =
          (.ok [], s.service, s.reads) :=
        if_pos rfl
      simp only [Option.map_none, hout]
      rw [hcontent] at hgrown hall hpast
      refine ⟨List.nil_prefix, ⟨read, hgrown, htimeouts, herrors⟩, ?_⟩
      intro asked reply hanswer
      obtain ⟨rfl, rfl⟩ := Prod.mk.inj (Option.some.inj hanswer)
      refine ⟨[], logEvents [], rfl, ?_, hpast, ?_⟩
      · have hnone : logEvents [] = [] := rfl
        rw [hnone, recentEvents_nil]
        exact List.Perm.nil
      · rw [hcontent]
        exact hall
  | some content =>
      have hcontent : s.content = content := by
        rw [ServedLog.content, hfile]; rfl
      simp only [Option.map_some, List.append_nil, hcontent]
      rw [hcontent] at hgrown hall hpast hwritten
      have hreads : ∀ kind : ReaderKind, ∀ l ∈ logLines content,
          Succeeds (kind.parser.parse 0 l) :=
        fun kind l hl =>
          succeeds_of_driver o h ((logLines_mono hwritten).subset hl) kind
      obtain ⟨events, reads, timeouts, errors, hcall, hT, hE, hperm⟩ :=
        getEvents_perm time device hgrown htimeouts herrors hreads
      rw [hcall]
      refine ⟨hwritten, ⟨content, List.prefix_rfl, hT, hE⟩, ?_⟩
      intro asked reply hanswer
      obtain ⟨rfl, rfl⟩ := Prod.mk.inj (Option.some.inj hanswer)
      exact ⟨events, logEvents content, rfl, hperm, hpast, hall⟩

/-- **From the driver to the list of events.**  However the collector's writing
and the calls take turns, and wherever a write is cut: every call returns the
last events of the driver, of each kind and for its device, and none is missing
whose line was written when it was made. -/
theorem answers_of_driver (time : Nat → ℚ) (steps : List WholeStep)
    (hwritten : Runs.Each (ServedLog.stepWhole time) (WrittenByRun o probes)
      { file := none } steps) :
    Runs.Always (ServedLog.stepWhole time) (AnsweredByRun o probes)
      { file := none } steps := by
  refine Runs.always_of_each (I := RunServed o probes) (fun _ hs => hs.answers)
    ?_ ?_ hwritten
  · intro s step hs hstep
    cases step with
    | append bytes =>
        obtain ⟨read, hgrown, htimeouts, herrors⟩ := hs.rings
        exact ⟨hstep, ⟨read, hgrown.trans (List.prefix_append _ _), htimeouts,
          herrors⟩, hs.answers⟩
    | getEvents device => exact runServed_getEvents o h time hs device
  · obtain ⟨hrings, -⟩ := retaining_start none
    exact ⟨List.nil_prefix, hrings, fun _ _ hanswer => absurd hanswer (by simp)⟩

end

section

attribute [local instance] UnicodeDb.ascii

/-- A run of which two errors and a timeout are events. -/
theorem answers_of_driver_tagReused :
    (Driver.events {} tagReused).map NvmeEvent.kind
        = ["error".toList, "error".toList, "timeout".toList] ∧
      Runs.Always (ServedLog.stepWhole fun n =>
        n) (AnsweredByRun .inserted tagReused) { file := none }
        [.append (logBytes (runOutput .inserted tagReused)),
          .getEvents "nvme0".toList] :=
  ⟨by decide +kernel, answers_of_driver .inserted (by decide +kernel) _ _
    ⟨List.prefix_rfl, trivial, trivial⟩⟩

end

end Telemetryd
