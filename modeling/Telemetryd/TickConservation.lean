import Telemetryd.AppendedRuns
import Telemetryd.ErrorCounting
import Telemetryd.TickBalance

/-!
# A tick conserves the I/O of its second

The last complete tick of a run is read through both parsers, in whatever state
the run's output ends.  What the process view and the queue view show of it are
two groupings of the commands of one ledger.  The queue view reads the whole log
and the process view its tail, so they agree when the tail reaches back to the
tick.
-/

namespace Telemetryd

open PyText Regex Utf8 Counters GroupedSums

/-! ### The tail of a log -/

/-- Lines of no tick, cut at the front. -/
theorem Between.drop {b : Bytes} (hstart : AtLineStart b)
    (hb : Between (decode b)) (k : Nat) :
    Between (decode (b.drop k)) := by
  have hpart : ∀ {t : PyText}, IsPlain t → t ≠ [] → t <:+: decode (b.drop k) →
      t <:+: decode b := by
    intro t hplain hne hi
    have hbytes := (infix_decode_iff hplain hne).mp hi
    exact (infix_decode_iff hplain hne).mpr
      (hbytes.trans (List.drop_suffix k b).isInfix)
  refine ⟨endsLine_decode (hstart.drop k), fun hat => ?_, fun hi => ?_⟩
  · have hi := hpart (by decide) (by decide)
      ((List.singleton_infix_iff _ _).mpr hat)
    exact hb.no_at ((List.singleton_infix_iff _ _).mp hi)
  · exact hb.no_marker (hpart (by decide) (by decide) hi)

section

variable [UnicodeDb] (o : PrintOrder)

omit [UnicodeDb] in
/-- What a run writes is lines of no tick, or there is a tick in it. -/
theorem bytes_runOutput (probes : List Probe) :
    Between (decode (logBytes (runOutput o probes))) ∨
    AfterTick (logBytes (runOutput o probes)) := by
  have hcons : logBytes (runOutput o probes)
      = (Entry.line (.plain attachedLine)).bytes ++
        logBytes (Collector.output o {} probes) := List.flatMap_cons
  have hstart : AtLineStart (Entry.line (.plain attachedLine)).bytes :=
    Or.inr ⟨_, rfl⟩
  rw [hcons]
  rcases bytes_output o {} probes with h | h
  · left
    have hfirst : decode (Entry.line (.plain attachedLine)).bytes =
      attachedLine ++ ['\n'] := by decide
    rw [decode_atLineStart hstart, hfirst]
    exact between_attached.append h
  · exact Or.inr (h.prepend hstart)

/-- **What stands before a tick** is passed over, wherever it is cut. -/
theorem skipped_unfinished_drop (probes : List Probe) (k : Nat) :
    Skipped (unfinished (decode ((logBytes (runOutput o probes)).drop k))) := by
  have hbetween : ∀ {b : Bytes} (j : Nat), AtLineStart b → Between (decode b) →
      Skipped (unfinished (decode (b.drop j))) := by
    intro b j hstart hb
    have hdrop := hb.drop hstart j
    rw [unfinished_of_no_marker hdrop.no_marker]
    exact hdrop.skipped
  rcases bytes_runOutput o probes with h | ⟨x, v, hx, hbytes, hstart, hv⟩
  · exact hbetween k (atLineStart_logBytes _) h
  · have hline : Between ('\n' :: decode v) :=
      (between_line (t := []) (by decide) (by decide)).append hv
    rw [hbytes]
    by_cases hk : k ≤ x.length
    · have hend : EndsLine (decode (x.drop k)) := endsLine_decode (hx.drop k)
      rw [List.drop_append_of_le_length hk, decode_afterTick (hx.drop k),
        unfinished_marker hend,
        unfinished_of_no_marker hline.no_marker]
      exact hline.skipped
    · -- The cut is within the last marker, or behind it.
      obtain ⟨j, hj⟩ : ∃ j, k - x.length = j + 1 := ⟨k - x.length - 1, by omega⟩
      have hmark :
          ascii tickMarker ++ newline :: v =
          45 :: ((ascii tickMarker).tail ++ [newline] ++ v) := by
        rw [List.append_assoc]
        rfl
      have htorn : AtLineStart ((ascii tickMarker).tail ++ [newline]) :=
        Or.inr ⟨_, rfl⟩
      rw [List.drop_append, List.drop_eq_nil_of_le (by omega), List.nil_append,
        hj, hmark, List.drop_succ_cons]
      refine hbetween j (htorn.append hstart) ?_
      rw [decode_atLineStart htorn]
      have htext : decode ((ascii tickMarker).tail ++ [newline]) =
        "--TICK---".toList ++ ['\n'] := by decide
      rw [htext]
      exact (show Between ("--TICK---".toList ++ ['\n']) from
        ⟨Or.inr ⟨_, rfl⟩, by decide, by decide⟩).append hv

/-- **The last complete tick**, wherever the log is cut before it. -/
theorem lastComplete_drop {probes : List Probe} {m : Maps}
    (hm : m.NamesHarmless) {rest : Bytes}
    (hrest : ¬ tickMarker <:+: decode rest) {k : Nat}
    (hk : k ≤ (logBytes (runOutput o probes)).length) :
    ∃ p, Skipped p ∧
      lastComplete
      (decode ((logBytes (runOutput o probes) ++
      (tickBytes o m ++ rest)).drop k))
      = some (p ++ linesText (tickLines o m)) := by
  refine ⟨_, skipped_unfinished_drop o probes k, ?_⟩
  have hstart := (atLineStart_logBytes (runOutput o probes)).drop k
  have htext :
      decode ((logBytes (runOutput o probes) ++ (tickBytes o m ++ rest)).drop k)
      = (decode ((logBytes (runOutput o probes)).drop k) ++
        linesText (tickLines o m)) ++ tickMarker
        ++ decode rest := by
    rw [List.drop_append_of_le_length hk, decode_atLineStart hstart, tickBytes,
      List.append_assoc,
      decode_lines (clean_tickLines o m), decode_ascii_append (by decide)]
    simp only [List.append_assoc]
  have hend := endsLine_decode hstart
  rw [htext, lastComplete_eq_unfinished (hend.append (endsLine_linesText _))
    hrest,
    unfinished_lines hend
      (linesText_no_marker (clean_tickLines o m) (harmless_tickLines o hm))]

/-! ### What a log shows of a tick -/

omit [UnicodeDb] in
theorem KilledRun.readAll_bytes {r : KilledRun} (hr : r.Harmless) :
    readAll (some (r.bytes o)) = decode (r.bytes o) := by
  rw [readAll_some]
  refine universalNewlines_of_no_cr fun hmem => ?_
  exact absurd (KilledRun.boundary_text o hr '\r' hmem (by decide)) (by decide)

omit [UnicodeDb] in
/-- The last complete tick of a run is the one after `before`, and `rest`
follows its marker. -/
structure KilledRun.LastTick (r : KilledRun) (before : List Probe)
    (rest : Bytes) : Prop where
  probes : ∃ after, r.probes = before ++ .interval :: after
  bytes : r.bytes o = logBytes (runOutput o before) ++
    (tickBytes o (Collector.run o {} before).maps ++ rest)
  rest : ¬ tickMarker <:+: decode rest

/-- All devices are asked for, or the controller is. -/
def AsksFor (device : Option PyText) (ctrl : Int64) : Prop :=
  device = none ∨ ∃ n : Nat, ctrl.toInt = n ∧ device = some (deviceName n)

/-- The two views of the log conserve the I/O of a ledger. -/
structure Conserved (log : Bytes) (l : Ledger) : Prop where
  parsed : ∃ procs parsed,
    parseTick ((lastComplete (readTail procTailBytes (some log))).getD []) =
      .ok procs ∧
      parseLastCompleteTick (readAll (some log)) = .ok parsed ∧
        ParsedBalance procs parsed l
  views : ∀ ctrl device, AsksFor device ctrl → ∃ rows queues aggregate,
    readProcessStats (some log) device = .ok rows ∧
      readLatestPerformance (some log) ctrl.toInt = .ok (queues, aggregate) ∧
        ViewsAgree (rowsOf (ctrlName ctrl.toInt) rows) aggregate

theorem AsksFor.wanted {device : Option PyText} {ctrl : Int64}
    (h : AsksFor device ctrl) :
    ∃ want, Telemetryd.wanted device = .ok (some want) ∧
      (want = none ∨ want = some ctrl.toInt) := by
  rcases h with rfl | ⟨n, hn, rfl⟩
  · exact ⟨none, rfl, Or.inl rfl⟩
  · have hlt := ctrl.toInt_lt
    have hread : pyInt (ofNat n) = .ok (n : Int) :=
      pyInt_ofInt_word (i := n) (by omega)
    refine ⟨some ctrl.toInt, ?_, Or.inr rfl⟩
    unfold Telemetryd.wanted
    rw [hn]
    simp only [match_deviceName, hread, bind, Except.bind, pure, Except.pure]

variable {r : KilledRun} (hr : r.Harmless) {before : List Probe} {rest : Bytes}
    (hlast : r.LastTick o before rest)

include hr hlast

/-- The last complete tick of a run is read as its maps, by both parsers. -/
theorem KilledRun.LastTick.parses {k : Nat}
    (hk : k ≤ (logBytes (runOutput o before)).length) :
    ∃ tick, lastComplete (decode ((r.bytes o).drop k)) = some tick ∧
      (∃ hists, parseSegment tick =
        .ok ⟨tickScalars o (Collector.run o {} before).maps, hists⟩) ∧
        parseTick tick
          = .ok (Procs.updateAll .empty
            (processChanges o (Collector.run o {} before).maps)) := by
  obtain ⟨after, hprobes⟩ := hlast.probes
  have hm := namesHarmless_before o hr hprobes
  obtain ⟨p, hp, htick⟩ := lastComplete_drop o hm hlast.rest hk
  rw [← hlast.bytes] at htick
  obtain ⟨hsegment, hprocs⟩ :=
    hp.parse_eq (linesText (tickLines o (Collector.run o {} before).maps))
  have hnone : ∀ l ∈ ([] : List PrintedLine), IsEventLine l :=
    fun l hl => absurd hl List.not_mem_nil
  obtain ⟨hists, hqueues⟩ :=
    parseSegment_tickLines o (Collector.run o {} before).maps
    (harmless_tickLines o hm) hnone
  rw [List.nil_append] at hqueues
  have hlines :=
    (tickOf_tickLines o (Collector.run o {} before).maps hnone).parseTick_eq hm
    (Or.inl rfl)
  rw [List.nil_append, List.nil_append] at hlines
  exact ⟨_, htick, ⟨hists, hsegment.trans hqueues⟩, hprocs.trans hlines⟩

/-- The queue view reads the whole log. -/
theorem KilledRun.LastTick.parseLastCompleteTick_eq :
    ∃ hists, parseLastCompleteTick (readAll (some (r.bytes o)))
      = .ok ⟨tickScalars o (Collector.run o {} before).maps, hists⟩ := by
  obtain ⟨tick, htick, ⟨hists, hsegment⟩, -⟩ :=
    hlast.parses o hr (Nat.zero_le _)
  rw [List.drop_zero] at htick
  refine ⟨hists, ?_⟩
  unfold parseLastCompleteTick
  rw [KilledRun.readAll_bytes o hr, htick]
  exact hsegment

/-- The process view reads the tail of the log. -/
theorem KilledRun.LastTick.parseTick_eq
    (hin : (tickBytes o (Collector.run o {} before).maps ++ rest).length ≤
      procTailBytes) :
    ∃ procs, parseTick
      ((lastComplete (readTail procTailBytes (some (r.bytes o)))).getD []) =
      .ok procs ∧
      Decoded (Collector.run o {} before).maps procs := by
  have hcut : ∃ k, k ≤ (logBytes (runOutput o before)).length ∧
      readTail procTailBytes (some (r.bytes o)) =
        decode ((r.bytes o).drop k) := by
    unfold readTail
    dsimp only
    split
    case isTrue =>
      refine ⟨_, ?_, rfl⟩
      rw [hlast.bytes, List.length_append]
      omega
    case isFalse => exact ⟨0, Nat.zero_le _, by rw [List.drop_zero]⟩
  obtain ⟨k, hk, htail⟩ := hcut
  obtain ⟨tick, htick, -, hparse⟩ := hlast.parses o hr hk
  refine ⟨_, ?_, decoded_updateAll o _⟩
  rw [htail, htick]
  exact hparse

/-- **A tick conserves the I/O of its second.**  In the two views of it each
process balances, each queue completes what it counts, and the processes of a
controller add up to its queues. -/
theorem tick_conserved (htimed : ∀ p ∈ r.probes, p.Timed)
    (hfits : (Ledger.after before).Fits)
    (hin : (tickBytes o (Collector.run o {} before).maps ++ rest).length ≤
      procTailBytes) :
    Conserved (r.bytes o) (Ledger.after before) := by
  obtain ⟨after, hprobes⟩ := hlast.probes
  have htallied :
      Tallied (Collector.run o {} before).maps (Ledger.after before) := by
    refine (Ledger.kept_run o fun p hp => htimed p ?_).tallied
    rw [hprobes]
    exact List.mem_append_left _ hp
  obtain ⟨hists, hqueues⟩ := hlast.parseLastCompleteTick_eq o hr
  obtain ⟨procs, hparse, hprocs⟩ := hlast.parseTick_eq o hr hin
  refine ⟨⟨procs, _, hparse, hqueues,
    htallied.parsedBalance hfits hprocs o hists⟩, fun ctrl device hasks => ?_⟩
  obtain ⟨want, hwanted, hwant⟩ := hasks.wanted
  have hsmall : ∀ raw ∈ procs.values, raw.Small := by
    intro raw hraw
    obtain ⟨c, p, hdecoded⟩ := hprocs.of_mem_values hraw
    exact hdecoded.small htallied hfits
  have hrows : readProcessStats (some (r.bytes o)) device =
      .ok (processRows procs want) := by
    unfold readProcessStats
    rw [hparse]
    simp only [bind, Except.bind, hwanted]
    exact processStats_eq_ok hsmall want
  exact ⟨_, _, _, hrows, readLatestPerformance_of_parsed o _ hqueues ctrl.toInt,
    htallied.viewsAgree hfits hprocs o hwant _⟩

end

/-! ### Whole runs -/

section

variable (o : PrintOrder)

/-- A run that is written whole. -/
def wholeRun (probes : List Probe) : KilledRun :=
  ⟨probes, (logBytes (runOutput o probes)).length⟩

theorem bytes_wholeRun (probes : List Probe) :
    (wholeRun o probes).bytes o = logBytes (runOutput o probes) :=
  List.take_length

/-- The output of a run, around one of its ticks. -/
theorem logBytes_runOutput_interval (before after : List Probe) :
    logBytes (runOutput o (before ++ .interval :: after)) =
      logBytes (runOutput o before) ++
      (tickBytes o (Collector.run o {} before).maps ++
        (newline :: logBytes
          (((Collector.run o {} before).step o .interval).1.output o
          after))) := by
  have hout : Collector.output o {} (before ++ .interval :: after)
      = Collector.output o {} before ++
        (((Collector.run o {} before).step o .interval).2 ++
        ((Collector.run o {} before).step o .interval).1.output o after) :=
    Collector.output_append o {} before (.interval :: after)
  rw [runOutput, hout, ← List.cons_append, logBytes_append, logBytes_append,
    logBytes_interval,
    List.append_assoc, List.singleton_append, runOutput]

/-- Before a tick is printed there are lines of no tick only. -/
theorem between_output (s : Collector) {probes : List Probe}
    (h : ∀ p ∈ probes, p ≠ .interval) :
    Between (decode (logBytes (s.output o probes))) := by
  induction probes generalizing s with
  | nil => exact between_nil
  | cons p probes ih =>
      have hcons : logBytes (s.output o (p :: probes))
          = logBytes (s.step o p).2 ++
            logBytes ((s.step o p).1.output o probes) := logBytes_append _ _
      have hstep : Between (decode (logBytes (s.step o p).2)) := by
        rw [decode_entries (clean_step o s p)]
        exact between_step o s (h p List.mem_cons_self)
      rw [hcons, decode_atLineStart (atLineStart_logBytes _)]
      exact hstep.append (ih _ fun q hq => h q (List.mem_cons_of_mem _ hq))

/-- The last tick of a run that is written whole. -/
theorem lastTick_wholeRun (before : List Probe) {after : List Probe}
    (h : ∀ p ∈ after, p ≠ .interval) :
    (wholeRun o (before ++ .interval :: after)).LastTick o before
      (newline :: logBytes
        (((Collector.run o {} before).step o .interval).1.output o after)) := by
  refine ⟨⟨after, rfl⟩, ?_, ?_⟩
  · rw [bytes_wholeRun, logBytes_runOutput_interval]
  · exact no_marker_newline (between_output o _ h).no_marker

end

section

attribute [local instance] UnicodeDb.ascii

/-- A read of the process 7, a write of another thread of it to another queue,
and a flush of the process 0. -/
def busySecond : List Probe :=
  [.setupCmd { flushOf7 with opcode := 2 },
    .setupCmd { flushOf7 with opcode := 1, tid := 8, qid := 2 },
    .setupCmd { flushOf7 with pid := 0, cid := 6 },
    .completeRq ⟨2000, 0, 1, 5, 0, 0⟩,
    .completeRq ⟨2000, 0, 1, 6, 0, 0⟩]

theorem tick_conserved_busySecond :
    Conserved ((wholeRun .inserted (busySecond ++ [.interval])).bytes .inserted)
      (Ledger.after busySecond) := by
  have hx : nameX.Harmless := ⟨by decide, by decide⟩
  have hall : ∀ p ∈ busySecond ++ [.interval], p.Harmless ∧ p.Timed := by
    intro p hp
    simp only [busySecond, List.cons_append, List.nil_append, List.mem_cons,
      List.not_mem_nil, or_false] at hp
    rcases hp with rfl | rfl | rfl | rfl | rfl | rfl
    · exact ⟨hx, by unfold Probe.Timed; decide⟩
    · exact ⟨hx, by unfold Probe.Timed; decide⟩
    · exact ⟨hx, by unfold Probe.Timed; decide⟩
    · exact ⟨trivial, trivial⟩
    · exact ⟨trivial, trivial⟩
    · exact ⟨trivial, trivial⟩
  exact tick_conserved .inserted (fun p hp => (hall p hp).1)
    (lastTick_wholeRun .inserted busySecond fun p hp =>
      absurd hp List.not_mem_nil) (fun p hp => (hall p hp).2)
    (Ledger.fits_of_few (by decide) (by decide)) (by decide +kernel)

/-! ### A tick out of reach -/

/-- A command of the controller `c` that failed. -/
def failedOn (c : Int64) : CompleteRq := { failedRead with ctrl := c }

theorem length_errorLine (s : Collector) (a : CompleteRq) :
    126 ≤ (s.errorLine a).length := by
  unfold Collector.errorLine errorEventLine
  simp only [List.length_append]
  have hlit : "ERROR_EVENT ts_ns=".toList.length = 18 ∧
      " ctrl=".toList.length = 6 ∧
      " qid=".toList.length = 5 ∧ " cid=".toList.length = 5 ∧
        " tag=".toList.length = 5 ∧
      " opcode=".toList.length = 8 ∧ " nsid=".toList.length = 6 ∧
        " status=".toList.length = 8 ∧
      " sct=".toList.length = 5 ∧ " sc=".toList.length = 4 ∧
        " dnr=".toList.length = 5 ∧
      " more=".toList.length = 6 ∧ " crd=".toList.length = 5 ∧
        " slba=".toList.length = 6 ∧
      " nlb=".toList.length = 5 ∧ " retries=".toList.length = 9 ∧
        " cached=".toList.length = 8 ∧
      " elapsed_ns=".toList.length = 12 := by decide
  omega

/-- **Errors within the budgets are printed**, each on a line of its own. -/
theorem length_errors (o : PrintOrder) (s : Collector)
    {errors : List CompleteRq}
    (hstatus : ∀ a ∈ errors, a.status ≠ 0)
    (hbudget : ∀ c,
      s.linesSpent c + (errors.filter (fun a => decide (a.ctrl = c))).length ≤
      50) :
    errors.length * 126 ≤
      (logBytes (s.output o (errors.map .completeRq))).length := by
  induction errors generalizing s with
  | nil => exact Nat.zero_le _
  | cons a errors ih =>
      have hcons : logBytes (s.output o ((a :: errors).map .completeRq))
          = logBytes (s.completeRq a).2 ++
            logBytes ((s.completeRq a).1.output o (errors.map .completeRq)) :=
        logBytes_append _ _
      have hone := hstatus a List.mem_cons_self
      have hfree : word s.errBudget a.ctrl < 50 := by
        have hlt := hbudget a.ctrl
        rw [List.filter_cons_of_pos (by simp), List.length_cons] at hlt
        unfold Collector.linesSpent at hlt
        exact UInt64.lt_iff_toNat_lt.mpr (show (word s.errBudget a.ctrl).toNat <
          50 by omega)
      have hline : 126 ≤ (logBytes (s.completeRq a).2).length := by
        rw [Collector.completeRq_eq, if_pos ⟨hone, hfree⟩]
        have hbytes : logBytes [Entry.line (.plain (s.errorLine a))] =
            ascii (s.errorLine a) ++ [newline] :=
          List.append_nil _
        have hlen := length_errorLine s a
        rw [hbytes, List.length_append, ascii, List.length_map]
        omega
      have hrest :=
        ih (s.completeRq a).1 (fun b hb =>
        hstatus b (List.mem_cons_of_mem _ hb)) fun c => by
        have hlt := hbudget c
        have hspent := (s.linesSpent_completeRq c (by omega) a).1
        have hfailed : (failuresOn c [.completeRq a]).length =
            if a.ctrl = c then 1 else 0 := by
          by_cases hc : a.ctrl = c
          · simp [failuresOn, failures, Probe.failure?, hone, hc]
          · simp [failuresOn, failures, Probe.failure?, hone, hc]
        rw [hfailed] at hspent
        rw [List.filter_cons] at hlt
        by_cases hc : a.ctrl = c
        · rw [if_pos hc] at hspent
          rw [if_pos (decide_eq_true hc), List.length_cons] at hlt
          omega
        · rw [if_neg hc] at hspent
          rw [if_neg (fun h => hc (of_decide_eq_true h))] at hlt
          omega
      rw [hcons, List.length_append, List.length_cons, Nat.add_mul]
      omega

/-- Fifty failures on each of some controllers. -/
def manyErrors (n : Nat) : List CompleteRq :=
  (List.range n).flatMap (fun i => List.replicate 50 (failedOn (Int64.ofNat i)))

theorem mem_manyErrors {n : Nat} {a : CompleteRq} (h : a ∈ manyErrors n) :
    ∃ c, a = failedOn c := by
  obtain ⟨i, -, ha⟩ := List.mem_flatMap.mp h
  exact ⟨_, List.eq_of_mem_replicate ha⟩

theorem length_manyErrors (n : Nat) : (manyErrors n).length = n * 50 := by
  unfold manyErrors
  rw [List.length_flatMap]
  simp

theorem nodup_ctrls {n : Nat} (hn : n ≤ 2 ^ 63) :
    ((List.range n).map Int64.ofNat).Nodup := by
  refine List.nodup_range.map_on fun i hi j hj h => ?_
  have hi := List.mem_range.mp hi
  have hj := List.mem_range.mp hj
  have hint := congrArg Int64.toInt h
  rw [Int64.toInt_ofNat_of_lt (by omega), Int64.toInt_ofNat_of_lt (by omega)]
    at hint
  exact Int.ofNat.inj hint

/-- No controller has more than its fifty failures. -/
theorem manyErrors_of_ctrl {n : Nat} (hn : n ≤ 2 ^ 63) (c : Int64) :
    ((manyErrors n).filter (fun a => decide (a.ctrl = c))).length ≤ 50 := by
  have hone : ∀ i : Nat, ((List.replicate 50 (failedOn (Int64.ofNat i))).filter
      (fun a => decide (a.ctrl = c))).length = if c = Int64.ofNat i then 50
        else 0 := by
    intro i
    have hctrl : (failedOn (Int64.ofNat i)).ctrl = c ↔ c = Int64.ofNat i :=
      eq_comm
    rw [List.filter_replicate]
    by_cases hc : c = Int64.ofNat i
    · have hon : decide ((failedOn (Int64.ofNat i)).ctrl = c) = true :=
        decide_eq_true (hctrl.mpr hc)
      rw [if_pos hc, if_pos hon, List.length_replicate]
    · have hoff : ¬ decide ((failedOn (Int64.ofNat i)).ctrl = c) = true :=
        fun h => hc (hctrl.mp (of_decide_eq_true h))
      rw [if_neg hc, if_neg hoff]
      rfl
  have hsum := sum_map_single (nodup_ctrls hn) c 50
  unfold manyErrors
  rw [List.filter_flatMap, List.length_flatMap]
  simp only [hone]
  rw [List.map_map] at hsum
  refine (Nat.le_of_eq hsum).trans ?_
  split <;> decide

/-- A read of the process 7. -/
def oneRead : List Probe := [.setupCmd { flushOf7 with opcode := 2 }]

/-- The read, a tick, and a second in which many commands fail. -/
def noisySecond (n : Nat) : List Probe :=
  oneRead ++ .interval :: (manyErrors n).map .completeRq

theorem no_interval_manyErrors {n : Nat} :
    ∀ p ∈ (manyErrors n).map Probe.completeRq, p ≠ .interval := by
  intro p hp
  obtain ⟨a, -, rfl⟩ := List.mem_map.mp hp
  simp

theorem harmless_noisySecond {n : Nat} :
    ∀ p ∈ noisySecond n, p.Harmless ∧ p.Timed := by
  intro p hp
  rcases List.mem_append.mp hp with hp | hp
  · rw [List.mem_singleton.mp hp]
    exact ⟨⟨by decide, by decide⟩, by unfold Probe.Timed; decide⟩
  · rcases List.mem_cons.mp hp with rfl | hp
    · exact ⟨trivial, trivial⟩
    · obtain ⟨a, -, rfl⟩ := List.mem_map.mp hp
      exact ⟨trivial, trivial⟩

/-- The failures fill the tail, so that it has no marker. -/
theorem readTail_noisySecond {n : Nat} (hn : n ≤ 2 ^ 63)
    (hfull : procTailBytes ≤ n * 50 * 126) :
    lastComplete
      (readTail procTailBytes
      (some (logBytes (runOutput .inserted (noisySecond n))))) = none := by
  set s := ((Collector.run .inserted {} oneRead).step .inserted .interval).1
    with hs
  have hlen : procTailBytes ≤
      (logBytes (s.output .inserted
      ((manyErrors n).map .completeRq))).length := by
    have hstatus : ∀ a ∈ manyErrors n, a.status ≠ 0 := by
      intro a ha
      obtain ⟨c, rfl⟩ := mem_manyErrors ha
      exact (by decide : (0x281 : UInt16) ≠ 0)
    have hbudget :
        ∀ c, s.linesSpent c +
        ((manyErrors n).filter (fun a => decide (a.ctrl = c))).length ≤ 50 := by
      intro c
      have hzero : s.linesSpent c = 0 := rfl
      rw [hzero, Nat.zero_add]
      exact manyErrors_of_ctrl hn c
    have herrors := length_errors .inserted s hstatus hbudget
    rw [length_manyErrors] at herrors
    omega
  have hlog : logBytes (runOutput .inserted (noisySecond n)) =
      (logBytes (runOutput .inserted oneRead) ++
      (tickBytes .inserted (Collector.run .inserted {} oneRead).maps ++
        [newline])) ++
        logBytes (s.output .inserted ((manyErrors n).map .completeRq)) := by
    unfold noisySecond
    rw [logBytes_runOutput_interval, ← hs]
    simp only [List.append_assoc, List.singleton_append]
  have hbetween := between_output .inserted s (no_interval_manyErrors (n := n))
  have hstart :=
    atLineStart_logBytes (s.output .inserted ((manyErrors n).map .completeRq))
  refine lastComplete_no_marker ?_
  rw [hlog]
  unfold readTail
  dsimp only
  rw [if_pos (by simp only [List.length_append, List.length_singleton]; omega),
    List.drop_append,
    List.drop_eq_nil_of_le (by simp only [List.length_append]; omega),
    List.nil_append]
  exact (hbetween.drop hstart _).no_marker

/-- **The tail does not reach back to the tick**: the queue view shows the read,
and the process view shows nothing. -/
theorem tail_hides_tick :
    ¬ ∀ (r : KilledRun) (before : List Probe) (rest : Bytes), r.Harmless →
    (∀ p ∈ r.probes, p.Timed) → r.LastTick .inserted before rest →
      (Ledger.after before).Fits →
      Conserved (r.bytes .inserted) (Ledger.after before) := by
  intro hall
  have hlast :=
    lastTick_wholeRun .inserted oneRead (no_interval_manyErrors (n := 340))
  have hr : (wholeRun .inserted (noisySecond 340)).Harmless :=
    fun p hp => (harmless_noisySecond p hp).1
  have hfits : (Ledger.after oneRead).Fits :=
    Ledger.fits_of_few (by decide) (by decide)
  obtain ⟨rows, queues, aggregate, hrows, hqueues, hagree⟩ :=
    (hall _ oneRead _ hr (fun p hp =>
      (harmless_noisySecond p hp).2) hlast hfits).views 0 none (Or.inl rfl)
  have hnone : rows = [] := by
    rw [readProcessStats_eq, bytes_wholeRun,
      readTail_noisySecond (by decide) (by decide)] at hrows
    exact (Except.ok.inj hrows).symm
  have htallied :
      Tallied (Collector.run .inserted {} oneRead).maps
      (Ledger.after oneRead) :=
    (Ledger.kept_run .inserted fun p hp =>
      (harmless_noisySecond (n := 340) p (List.mem_append_left _ hp)).2).tallied
  obtain ⟨hists, hparse⟩ := hlast.parseLastCompleteTick_eq .inserted hr
  have hread :=
    (htallied.aggregateRow_sums hfits .inserted 0 (fun k =>
    (hists.get? k).getD [])).1
  have haggregate :
      aggregate = aggregateRow .inserted
      (Collector.run .inserted {} oneRead).maps
      (0 : Int64).toInt (fun k => (hists.get? k).getD []) :=
    (Prod.mk.inj
      (Except.ok.inj
      (hqueues.symm.trans
      (readLatestPerformance_of_parsed .inserted _ hparse _)))).2
  have hsum := hagree.readIops
  have hcount : onCtrl (fun _ => 1) (Ledger.after oneRead).reads 0 = 1 := by
    decide
  rw [haggregate, hread, hnone, hcount] at hsum
  exact absurd hsum (by simp [rowsOf])

end

end Telemetryd
