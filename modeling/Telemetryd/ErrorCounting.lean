import Mathlib.Algebra.BigOperators.Ring.Finset
import Telemetryd.Counting
import Telemetryd.ErrorRoundTrip
import Telemetryd.ErrorTotals

/-!
# Errors are counted, lines are sampled

The collector prints at most fifty error lines of a controller between two
ticks, but it counts every error, by controller and status.  The counters are
never cleared: below 2^64 they only grow, add up to the number of errors of the
run, and are what `read_error_stats` reports for a log that ends with a tick.
-/

namespace Telemetryd

open PyText Regex Utf8 Counters GroupedSums

/-! ### The errors of a run -/

/-- The completion of a probe, if it is one with an error. -/
def Probe.failure? : Probe → Option CompleteRq
  | .completeRq a => if a.status ≠ 0 then some a else none
  | _ => none

/-- The completions with an error. -/
def failures (probes : List Probe) : List CompleteRq :=
  probes.filterMap Probe.failure?

/-- The completions with an error on a controller. -/
def failuresOn (ctrl : Int64) (probes : List Probe) : List CompleteRq :=
  (failures probes).filter (fun a => decide (a.ctrl = ctrl))

/-- The failures on a controller, probe by probe. -/
theorem failuresOn_cons (ctrl : Int64) (p : Probe) (probes : List Probe) :
    failuresOn ctrl (p :: probes) = failuresOn ctrl [p] ++
      failuresOn ctrl probes := by
  unfold failuresOn failures
  rw [← List.singleton_append, List.filterMap_append, List.filter_append]

/-! ### The lines that are printed -/

/-- The controller in a line, if the line is that of an error. -/
def errorCtrl (line : PyText) : Option PyText :=
  if "ERROR_EVENT ts_ns=".toList.isPrefixOf line then
    some ((((line.drop "ERROR_EVENT ts_ns=".toList.length).dropWhile
      (· ≠ ' ')).drop
      " ctrl=".toList.length).takeWhile (· ≠ ' '))
  else none

/-- The entry is an error line of a controller. -/
def Entry.reportsOn (ctrl : Int64) : Entry → Bool
  | .line l => errorCtrl l.text == some (ofInt ctrl.toInt)
  | .mark => false

/-- The error lines of a controller. -/
def errorLinesOn (ctrl : Int64) (entries : List Entry) : Nat :=
  entries.countP (Entry.reportsOn ctrl)

/-- A numeral has no blank. -/
theorem ofInt_ne_blank (i : Int) :
    ∀ c ∈ ofInt i, (decide (c ≠ ' ')) = true := by
  intro c hc
  rcases mem_ofInt hc with rfl | hdigit
  · decide
  · rw [decide_eq_true_eq]
    intro hblank
    rw [hblank] at hdigit
    exact absurd hdigit (by decide)

/-- The controller of an error is read from its line. -/
theorem errorCtrl_errorLine (s : Collector) (a : CompleteRq) :
    errorCtrl (s.errorLine a) = some (ofInt a.ctrl.toInt) := by
  obtain ⟨ts, rest, hline⟩ : ∃ (ts : Int) (rest : PyText),
      s.errorLine a = "ERROR_EVENT ts_ns=".toList ++
      (ofInt ts ++
        (" ctrl=".toList ++ (ofInt a.ctrl.toInt ++ (' ' :: rest)))) := by
    unfold Collector.errorLine errorEventLine
    simp only [List.append_assoc]
    exact ⟨_, _, rfl⟩
  have hblank : ∀ t : PyText, (" ctrl=".toList ++ t).dropWhile (· ≠ ' ') =
      " ctrl=".toList ++ t :=
    fun t => rfl
  unfold errorCtrl
  rw [if_pos (by rw [hline, List.isPrefixOf_iff_prefix]; exact List.prefix_append _ _), hline,
    List.drop_left, List.dropWhile_append_of_pos (ofInt_ne_blank ts), hblank,
    List.drop_left,
    List.takeWhile_append_of_pos (ofInt_ne_blank _),
    List.takeWhile_cons_of_neg (by decide),
    List.append_nil]

/-- The line of a timeout is none of an error. -/
theorem errorCtrl_timeoutLine (s : Collector) (a : NvmeTimeout) :
    errorCtrl (s.timeoutLine a) = none := by
  unfold errorCtrl Collector.timeoutLine timeoutEventLine
  simp only [List.append_assoc]
  rfl

/-- The line of an error reports on its controller. -/
theorem reportsOn_errorLine (s : Collector) (a : CompleteRq) (ctrl : Int64) :
    (Entry.line (.plain (s.errorLine a))).reportsOn ctrl =
      decide (a.ctrl = ctrl) := by
  change (errorCtrl (s.errorLine a) == some (ofInt ctrl.toInt)) = _
  rw [errorCtrl_errorLine, Bool.eq_iff_iff, beq_iff_eq, decide_eq_true_eq,
    Option.some.injEq]
  constructor
  · intro h
    exact Int64.toInt_inj.mp (ofInt_injective h)
  · intro h
    rw [h]

/-- The line of a timeout reports on none. -/
theorem reportsOn_timeoutLine (s : Collector) (a : NvmeTimeout) (ctrl : Int64) :
    (Entry.line (.plain (s.timeoutLine a))).reportsOn ctrl = false := by
  change (errorCtrl (s.timeoutLine a) == some (ofInt ctrl.toInt)) = false
  rw [errorCtrl_timeoutLine]
  rfl

namespace Collector

variable (o : PrintOrder) (s : Collector) (ctrl : Int64)

/-- The error lines of a controller since the tick. -/
def linesSpent : Nat := (word s.errBudget ctrl).toNat

/-- What a completion does to the budget. -/
theorem errBudget_completeRq (a : CompleteRq) :
    (s.completeRq a).1.errBudget = s.errBudgetAfter a := by
  rw [completeRq_eq]
  rfl

/-- **A completion spends a line** if it has an error and fewer than fifty are
spent. -/
theorem linesSpent_completeRq (h : s.linesSpent ctrl ≤ 50) (a : CompleteRq) :
    (s.completeRq a).1.linesSpent ctrl
        = min 50 (s.linesSpent ctrl +
          (failuresOn ctrl [.completeRq a]).length) ∧
      errorLinesOn ctrl (s.completeRq a).2 + s.linesSpent ctrl =
        (s.completeRq a).1.linesSpent ctrl := by
  have hspent : (s.completeRq a).1.linesSpent ctrl =
      (word (s.errBudgetAfter a) ctrl).toNat := by
    unfold linesSpent
    rw [errBudget_completeRq]
  have hlines : (s.completeRq a).2
      = if s.PrintsError a then [.line (.plain (s.errorLine a))] else [] := by
    rw [completeRq_eq]
  rw [hspent, hlines]
  unfold errBudgetAfter
  by_cases hprints : s.PrintsError a
  · have hstatus := hprints.1
    have hbudget : (word s.errBudget a.ctrl).toNat < 50 :=
      UInt64.lt_iff_toNat_lt.mp hprints.2
    have hcount : errorLinesOn ctrl [.line (.plain (s.errorLine a))] =
        if a.ctrl = ctrl then 1 else 0 := by
      unfold errorLinesOn
      rw [List.countP_singleton, reportsOn_errorLine]
      simp only [decide_eq_true_eq]
    have hfailed : (failuresOn ctrl [.completeRq a]).length =
        if a.ctrl = ctrl then 1 else 0 := by
      by_cases hctrl : a.ctrl = ctrl
      · simp [failuresOn, failures, Probe.failure?, hstatus, hctrl]
      · simp [failuresOn, failures, Probe.failure?, hstatus, hctrl]
    rw [if_pos hprints, if_pos hprints, word_insert, hcount, hfailed]
    by_cases hctrl : ctrl = a.ctrl
    · have hone : (word s.errBudget a.ctrl + 1).toNat =
          (word s.errBudget a.ctrl).toNat + 1 := by
        rw [UInt64.toNat_add]
        exact Nat.mod_eq_of_lt (by simp; omega)
      unfold linesSpent
      rw [if_pos hctrl, if_pos hctrl.symm, hone, hctrl]
      omega
    · unfold linesSpent at h ⊢
      rw [if_neg hctrl, if_neg (Ne.symm hctrl)]
      omega
  · have hnone : errorLinesOn ctrl [] = 0 := rfl
    rw [if_neg hprints, if_neg hprints, hnone]
    -- Either there is no error, or the lines of its controller are spent.
    by_cases hstatus : a.status = 0
    · have hfailed : (failuresOn ctrl [.completeRq a]).length = 0 := by
        simp [failuresOn, failures, Probe.failure?, hstatus]
      rw [hfailed]
      unfold linesSpent at h ⊢
      omega
    · have hfull : ¬ (word s.errBudget a.ctrl).toNat < 50 :=
        fun hlt => hprints ⟨hstatus, UInt64.lt_iff_toNat_lt.mpr hlt⟩
      by_cases hctrl : a.ctrl = ctrl
      · unfold linesSpent at h ⊢
        rw [hctrl] at hfull
        omega
      · have hfailed : (failuresOn ctrl [.completeRq a]).length = 0 := by
          simp [failuresOn, failures, Probe.failure?, hstatus, hctrl]
        rw [hfailed]
        unfold linesSpent at h ⊢
        omega

/-- **The lines of a probe** other than the tick. -/
theorem linesSpent_step (h : s.linesSpent ctrl ≤ 50) {p : Probe}
    (hp : p ≠ .interval) :
    (s.step o p).1.linesSpent ctrl =
      min 50 (s.linesSpent ctrl + (failuresOn ctrl [p]).length) ∧
      errorLinesOn ctrl (s.step o p).2 + s.linesSpent ctrl =
        (s.step o p).1.linesSpent ctrl := by
  cases p with
  | setupCmd a =>
      have hsame : (s.step o (.setupCmd a)).1.linesSpent ctrl =
        s.linesSpent ctrl := rfl
      rw [hsame]
      exact ⟨(Nat.min_eq_right h).symm, Nat.zero_add _⟩
  | completeRq a => exact s.linesSpent_completeRq ctrl h a
  | nvmeTimeout a =>
      have hsame : (s.step o (.nvmeTimeout a)).1.linesSpent ctrl =
        s.linesSpent ctrl := rfl
      have hlines : errorLinesOn ctrl (s.step o (.nvmeTimeout a)).2 = 0 := by
        change List.countP _ [Entry.line (.plain (s.timeoutLine a))] = 0
        rw [List.countP_singleton, reportsOn_timeoutLine]
        rfl
      rw [hsame, hlines]
      exact ⟨(Nat.min_eq_right h).symm, Nat.zero_add _⟩
  | interval => exact absurd rfl hp

/-- **The lines between two ticks.** -/
theorem linesSpent_run (h : s.linesSpent ctrl ≤ 50) {probes : List Probe}
    (hprobes : ∀ p ∈ probes, p ≠ .interval) :
    errorLinesOn ctrl (s.output o probes) + s.linesSpent ctrl
      = min 50 (s.linesSpent ctrl + (failuresOn ctrl probes).length) := by
  induction probes generalizing s with
  | nil =>
      have hnone : errorLinesOn ctrl (s.output o []) = 0 := rfl
      have hzero : (failuresOn ctrl []).length = 0 := rfl
      rw [hnone, hzero]
      omega
  | cons p probes ih =>
      obtain ⟨hspent, hlines⟩ :=
        s.linesSpent_step o ctrl h (hprobes p List.mem_cons_self)
      have hrest :=
        ih (s.step o p).1 (by rw [hspent]; exact Nat.min_le_left _ _)
        (fun q hq => hprobes q (List.mem_cons_of_mem _ hq))
      have hsplit : errorLinesOn ctrl (s.output o (p :: probes))
          = errorLinesOn ctrl (s.step o p).2 +
            errorLinesOn ctrl ((s.step o p).1.output o probes) :=
        List.countP_append
      rw [failuresOn_cons, List.length_append, hsplit]
      omega

end Collector

/-! ### The counters -/

/-- The counter of an error. -/
def CompleteRq.errKey (a : CompleteRq) : Key3 :=
  (a.ctrl, a.sct.toInt64, a.sc.toInt64)

/-- The map counts the errors of a list. -/
def CountsErrors (m : Counters Key3) (errors : List CompleteRq) : Prop :=
  Counts m errors CompleteRq.errKey (fun _ => 1)

namespace Collector

variable (o : PrintOrder) (s : Collector)

/-- What a completion does to the counters. -/
theorem errCount_completeRq (a : CompleteRq) :
    (s.completeRq a).1.maps.errCount = s.errCountAfter a := by
  rw [completeRq_eq]
  rfl

/-- **A probe counts its error.** -/
theorem countsErrors_step {errors : List CompleteRq}
    (h : CountsErrors s.maps.errCount errors) (p : Probe) :
    CountsErrors (s.step o p).1.maps.errCount (errors ++ failures [p]) := by
  cases p with
  | setupCmd a => exact (List.append_nil errors).symm ▸ h
  | completeRq a =>
      change CountsErrors (s.completeRq a).1.maps.errCount _
      rw [errCount_completeRq]
      unfold errCountAfter
      by_cases hstatus : a.status = 0
      · have hnone : failures [.completeRq a] = [] := by
          simp [failures, Probe.failure?, hstatus]
        rw [if_neg (not_not.mpr hstatus), hnone, List.append_nil]
        exact h
      · have hone : failures [.completeRq a] = [a] := by
          simp [failures, Probe.failure?, hstatus]
        rw [if_pos hstatus, hone]
        exact h.add a rfl
  | nvmeTimeout a => exact (List.append_nil errors).symm ▸ h
  | interval => exact (List.append_nil errors).symm ▸ h

/-- **A run counts its errors.** -/
theorem countsErrors_run {errors : List CompleteRq}
    (h : CountsErrors s.maps.errCount errors)
    (probes : List Probe) :
    CountsErrors (s.run o probes).maps.errCount
      (errors ++ failures probes) := by
  induction probes generalizing s errors with
  | nil => exact (List.append_nil errors).symm ▸ h
  | cons p probes ih =>
      have hrest := ih (s.step o p).1 (s.countsErrors_step o h p)
      have hcons : errors ++ failures (p :: probes) = errors ++ failures [p] ++
          failures probes := by
        unfold failures
        rw [← List.singleton_append, List.filterMap_append, List.append_assoc]
      rw [hcons]
      exact hrest

/-- A counter stays. -/
theorem keys_errCount_step (p : Probe) :
    ∀ k ∈ s.maps.errCount.keys, k ∈ (s.step o p).1.maps.errCount.keys := by
  intro k hk
  cases p with
  | setupCmd a => exact hk
  | completeRq a =>
      change k ∈ (s.completeRq a).1.maps.errCount.keys
      rw [errCount_completeRq]
      unfold errCountAfter
      split
      · exact OrderedDict.mem_keys_insert.mpr (Or.inr hk)
      · exact hk
  | nvmeTimeout a => exact hk
  | interval => exact hk

/-- A counter that is there stays. -/
theorem keys_errCount_run (probes : List Probe) :
    ∀ k ∈ s.maps.errCount.keys, k ∈ (s.run o probes).maps.errCount.keys := by
  induction probes generalizing s with
  | nil => exact fun k hk => hk
  | cons p probes ih =>
      exact fun k hk => ih (s.step o p).1 k (s.keys_errCount_step o p k hk)

end Collector

/-- **The counters of a run** count its failures. -/
theorem countsErrors (o : PrintOrder) (probes : List Probe) :
    CountsErrors (Collector.run o {} probes).maps.errCount (failures probes) :=
  Collector.countsErrors_run o {} (counts_empty _ _) probes

/-! ### What a log says about errors -/

/-- The key of a counter, as it is read. -/
def readKey (k : Key3) : ErrKey := (k.1.toInt, k.2.1.toInt, k.2.2.toInt)

section

variable [UnicodeDb]

/-- The entry, whole or without its front, speaks of no other counters. -/
def Entry.SpeaksOf (keys : List Key3) (e : Entry) : Prop :=
  ∀ i, ∀ x ∈ errEntries (decode (e.bytes.drop i)), ∃ k ∈ keys, x.1 = readKey k

/-- An entry that speaks of some counters speaks of some of more. -/
theorem Entry.SpeaksOf.mono {keys keys' : List Key3} {e : Entry}
    (h : e.SpeaksOf keys)
    (hsub : ∀ k ∈ keys, k ∈ keys') : e.SpeaksOf keys' := by
  intro i x hx
  obtain ⟨k, hk, heq⟩ := h i x hx
  exact ⟨k, hsub k hk, heq⟩

/-- **A log without its front** speaks of what its entries speak of. -/
theorem speaksOf_logBytes {keys : List Key3} {es : List Entry}
    (h : ∀ e ∈ es, e.SpeaksOf keys) (i : Nat) :
    ∀ x ∈ errEntries (decode ((logBytes es).drop i)), ∃ k ∈ keys,
      x.1 = readKey k := by
  induction es generalizing i with
  | nil =>
      intro x hx
      have hnil : (logBytes []).drop i = [] := List.drop_nil
      rw [hnil] at hx
      exact absurd hx (by simp [decode, decodeFrom, errEntries, splitlines])
  | cons e es ih =>
      intro x hx
      have hcons : logBytes (e :: es) = e.bytes ++ logBytes es :=
        List.flatMap_cons
      have hone : logBytes [e] = e.bytes := List.flatMap_singleton _ _
      have hstart : AtLineStart (e.bytes.drop i) :=
        AtLineStart.drop (hone ▸ atLineStart_logBytes [e]) i
      rw [hcons, List.drop_append, decode_atLineStart hstart,
        TickOfRuns.errEntries_atLineStart hstart] at hx
      rcases List.mem_append.mp hx with hx | hx
      · exact h e List.mem_cons_self i x hx
      · exact ih (fun e' he' => h e' (List.mem_cons_of_mem _ he')) _ x hx

omit [UnicodeDb] in
/-- A part of a text without error entries has none. -/
theorem noErr_drop_ascii {t : PyText} (ht : IsAscii t) (h : NoErr t) (i : Nat) :
    NoErr (decode ((ascii t).drop i)) :=
  h.of_infix (infix_ascii ht (List.drop_suffix _ _).isInfix)

omit [UnicodeDb] in
/-- **A line without a counter has none without its front**, also when its name
is torn. -/
theorem noErr_drop {l : PrintedLine} (hclean : l.Clean)
    (h : NoErr (l.text ++ ['\n'])) (i : Nat) :
    NoErr (decode ((l.bytes ++ [newline]).drop i)) := by
  cases l with
  | plain t =>
      have hbytes : (PrintedLine.plain t).bytes ++ [newline] =
          ascii (t ++ ['\n']) := by
        simp only [PrintedLine.bytes, ascii, List.map_append]
        rfl
      rw [hbytes]
      exact noErr_drop_ascii (hclean.isAscii.append (by decide)) h i
  | named front comm back =>
      have hback : IsAscii (']' :: back ++ ['\n']) :=
        (CleanText.cons (c := ']') (by decide) hclean.2).isAscii.append
          (by decide)
      have hbytes : (PrintedLine.named front comm back).bytes ++ [newline]
          = ascii (front ++ [' ']) ++
            (comm.bytes ++ ascii (']' :: back ++ ['\n'])) := by
        simp only [PrintedLine.bytes, ascii, List.map_append, List.append_assoc]
        rfl
      have htext : (PrintedLine.named front comm back).text ++ ['\n']
          = (front ++ [' '] ++ decode comm.bytes) ++
            (']' :: back ++ ['\n']) := by
        simp [PrintedLine.text]
      have hend : NoErr (']' :: back ++ ['\n']) :=
        h.of_infix (htext ▸ (List.suffix_append _ _).isInfix)
      rw [hbytes]
      by_cases hfront : i ≤ (ascii (front ++ [' '])).length
      · -- The name is whole, and what is left is the end of the line.
        have hread :
            decode (((ascii (front ++ [' '])).drop i) ++
            (comm.bytes ++ ascii (']' :: back ++ ['\n'])))
            = (front ++ [' ']).drop i ++
              (decode comm.bytes ++ (']' :: back ++ ['\n'])) := by
          have hpart : IsAscii ((front ++ [' ']).drop i) :=
            fun c hc => (hclean.1.isAscii.append (by decide)) c
              (List.mem_of_mem_drop hc)
          have hrest := decode_ascii_between hback (by simp) comm.bytes []
          rw [List.append_nil] at hrest
          have hmap : (ascii (front ++ [' '])).drop i =
            ascii ((front ++ [' ']).drop i) := List.map_drop.symm
          rw [hmap, decode_ascii_append hpart, hrest]
          simp [decode, decodeFrom]
        rw [List.drop_append_of_le_length hfront, hread]
        refine h.of_infix ?_
        rw [htext, List.append_assoc]
        exact (List.IsSuffix.isInfix ⟨(front ++ [' ']).take i, by
          rw [← List.append_assoc, List.take_append_drop]⟩)
      · rw [List.drop_append, List.drop_eq_nil_of_le (by omega),
          List.nil_append, List.drop_append]
        by_cases hname : i - (ascii (front ++ [' '])).length ≤ comm.bytes.length
        · -- The name is torn: it is too short for a counter.
          rw [Nat.sub_eq_zero_of_le hname, List.drop_zero]
          have hrest := decode_ascii_between hback (by simp)
            (comm.bytes.drop (i - (ascii (front ++ [' '])).length)) []
          rw [List.append_nil] at hrest
          rw [hrest]
          intro z hz hi
          rw [List.cons_append, List.append_assoc, List.cons_append] at hi
          rcases infix_append_cons hz.2.1 hi with hin | hin
          · have hlen := hin.length_le
            have hdecode :=
              length_decode_le
              (comm.bytes.drop (i - (ascii (front ++ [' '])).length))
            have hcomm := comm.length_le
            have hhead := hz.2.2
            rw [List.length_drop] at hdecode
            omega
          · refine hend z hz (hin.trans ?_)
            have hnil : decode [] = [] := rfl
            rw [hnil, List.append_nil]
            exact (List.suffix_cons _ _).isInfix
        · rw [List.drop_eq_nil_of_le (by omega), List.nil_append]
          exact noErr_drop_ascii hback hend _

/-- A line without error entries speaks of none. -/
theorem speaksOf_of_noErr {l : PrintedLine} (hclean : l.Clean)
    (h : NoErr (l.text ++ ['\n']))
    (keys : List Key3) : (Entry.line l).SpeaksOf keys := by
  intro i x hx
  have hnone := errEntries_of_noErr (noErr_drop hclean h i)
  have hx : x ∈ errEntries (decode ((l.bytes ++ [newline]).drop i)) := hx
  rw [hnone] at hx
  exact absurd hx List.not_mem_nil

/-- Nor does a line without an at sign. -/
theorem speaksOf_of_no_at {t : PyText} (hclean : CleanText t) (h : '@' ∉ t)
    (keys : List Key3) :
    (Entry.line (.plain t)).SpeaksOf keys := by
  have hline : '@' ∉ t ++ ['\n'] := at_notMem_append h (by decide)
  exact speaksOf_of_noErr (l := .plain t) hclean (noErr_of_no_at hline) keys

/-- Nor does the marker. -/
theorem speaksOf_mark (keys : List Key3) : Entry.mark.SpeaksOf keys := by
  intro i x hx
  have hnone := errEntries_of_noErr
    (noErr_drop_ascii (t := tickMarker ++ ['\n']) (by decide)
      (noErr_of_no_at (by decide)) i)
  have hx : x ∈ errEntries (decode ((ascii (tickMarker ++ ['\n'])).drop i)) :=
    hx
  rw [hnone] at hx
  exact absurd hx List.not_mem_nil

/-- **The line of a counter** speaks of it, and of nothing when it is torn. -/
theorem speaksOf_errCount {keys : List Key3} {k : Key3} (hk : k ∈ keys)
    (v : UInt64) :
    (Entry.line (.plain
      (mapLine "err_count".toList [k.1, k.2.1, k.2.2] v))).SpeaksOf keys := by
  have hclean : CleanText (mapLine "err_count".toList [k.1, k.2.1, k.2.2] v) :=
    cleanText_mapLine (by decide) _ _
  have hascii :
      IsAscii (mapLine "err_count".toList [k.1, k.2.1, k.2.2] v ++ ['\n']) :=
    hclean.isAscii.append (by decide)
  have hbytes :
      (Entry.line (.plain
      (mapLine "err_count".toList [k.1, k.2.1, k.2.2] v))).bytes
      = ascii (mapLine "err_count".toList [k.1, k.2.1, k.2.2] v ++ ['\n']) := by
    simp only [Entry.bytes, PrintedLine.bytes, ascii, List.map_append]
    rfl
  intro i x hx
  rw [hbytes] at hx
  cases i with
  | zero =>
      rw [List.drop_zero, decode_ascii hascii, errEntries_errCount,
        List.mem_singleton] at hx
      exact ⟨k, hk, congrArg Prod.fst hx⟩
  | succ i =>
      have htail :
          '@' ∉ (mapLine "err_count".toList [k.1, k.2.1, k.2.2] v ++
          ['\n']).drop 1 := by
        change '@' ∉ "err_count".toList ++ '[' :: keyText [k.1, k.2.1, k.2.2] ++
          "]: ".toList ++
          ofNat v.toNat ++ ['\n']
        simp only [List.mem_append, List.mem_cons, not_or]
        exact ⟨⟨⟨⟨by decide, by decide, at_notMem_keyText _⟩, by decide⟩,
          at_notMem_ofNat _⟩, by decide,
          List.not_mem_nil⟩
      have hdrop :
          (ascii (mapLine "err_count".toList [k.1, k.2.1, k.2.2] v ++
          ['\n'])).drop (i + 1)
          = (ascii ((mapLine "err_count".toList [k.1, k.2.1, k.2.2] v ++
            ['\n']).drop 1)).drop i := by
        have hmap : ∀ t : PyText, ascii (t.drop 1) = (ascii t).drop 1 :=
          fun t => List.map_drop
        rw [hmap, List.drop_drop, Nat.add_comm]
      have hpart :
          IsAscii ((mapLine "err_count".toList [k.1, k.2.1, k.2.2] v ++
          ['\n']).drop 1) :=
        fun c hc => hascii c (List.mem_of_mem_drop hc)
      rw [hdrop, errEntries_of_noErr
        (noErr_drop_ascii hpart (noErr_of_no_at htail) i)] at hx
      exact absurd hx List.not_mem_nil

variable (o : PrintOrder)

/-- The lines of a tick speak of its counters. -/
theorem speaksOf_tickLines (m : Maps) :
    ∀ l ∈ tickLines o m, (Entry.line l).SpeaksOf m.errCount.keys := by
  intro l hl
  have hclean := clean_tickLines o m l hl
  obtain ⟨front, back, heq, hfront, hback⟩ := tickLines_eq o m
  rw [heq] at hl
  rcases List.mem_append.mp hl with hl | hl
  · exact speaksOf_of_noErr hclean (hfront l hl) _
  · rcases List.mem_append.mp hl with hl | hl
    · obtain ⟨e, he, rfl⟩ := List.mem_map.mp hl
      have hmem : e ∈ m.errCount.items := (o.perm _ _ _).mem_iff.mp he
      exact speaksOf_errCount (List.mem_map.mpr ⟨e, hmem, rfl⟩) e.2
    · exact speaksOf_of_noErr hclean (hback l hl) _

namespace Collector

/-- A step writes of counters that are there. -/
theorem speaksOf_step (s : Collector) (p : Probe) :
    ∀ e ∈ (s.step o p).2, e.SpeaksOf s.maps.errCount.keys := by
  intro e he
  have hclean := clean_step o s p e he
  cases p with
  | setupCmd a => exact absurd he List.not_mem_nil
  | completeRq a =>
      rw [step, completeRq_eq] at he
      split_ifs at he
      · rw [List.mem_singleton.mp he] at hclean ⊢
        exact speaksOf_of_no_at hclean (s.at_notMem_errorLine a) _
      · exact absurd he List.not_mem_nil
  | nvmeTimeout a =>
      rw [List.mem_singleton.mp he] at hclean ⊢
      exact speaksOf_of_no_at hclean (s.at_notMem_timeoutLine a) _
  | interval =>
      rcases List.mem_append.mp he with he | he
      · obtain ⟨l, hl, rfl⟩ := List.mem_map.mp he
        exact speaksOf_tickLines o s.maps l hl
      · rw [List.mem_singleton.mp he]
        exact speaksOf_mark _

/-- So does a run. -/
theorem speaksOf_output (s : Collector) (probes : List Probe) :
    ∀ e ∈ s.output o probes,
      e.SpeaksOf (s.run o probes).maps.errCount.keys := by
  induction probes generalizing s with
  | nil => exact fun e he => absurd he List.not_mem_nil
  | cons p probes ih =>
      intro e he
      rcases List.mem_append.mp he with he | he
      · exact (speaksOf_step o s p e he).mono fun k hk =>
          (s.step o p).1.keys_errCount_run o probes k
            (s.keys_errCount_step o p k hk)
      · exact ih _ e he

end Collector

/-- What a run has printed speaks of the counters it has. -/
theorem speaksOf_runOutput (probes : List Probe) :
    ∀ e ∈ runOutput o probes,
      e.SpeaksOf (Collector.run o {} probes).maps.errCount.keys := by
  intro e he
  rcases List.mem_cons.mp he with rfl | he
  · exact speaksOf_of_no_at (show CleanText attachedLine by decide)
      (by decide) _
  · exact Collector.speaksOf_output o {} probes e he

end

/-! ### The totals that are read -/

/-- The last tick of a run. -/
def lastTick (probes : List Probe) : TickOfRuns where
  done := []
  before := probes
  after := []
  later := []

/-- The status of the completion is decoded to a type and a code. -/
def CompleteRq.DecodesTo (a : CompleteRq) (sct sc : Int) : Prop :=
  (decodeStatus a.status.toNat).sct = sct ∧
    (decodeStatus a.status.toNat).sc = sc

instance (a : CompleteRq) (sct sc : Int) : Decidable (a.DecodesTo sct sc) :=
  inferInstanceAs (Decidable (_ ∧ _))

/-- **The counter of an error is that of its decoded status.** -/
theorem CompleteRq.errKey_eq_iff (a : CompleteRq) (k : Key3) :
    a.errKey = k ↔ a.ctrl = k.1 ∧ a.DecodesTo k.2.1.toInt k.2.2.toInt := by
  obtain ⟨hsc, hsct, -⟩ := a.decodeStatus_status
  have hscInt : a.sc.toInt64.toInt = a.sc.toNat := by
    rw [Failed.toInt_toInt64, if_pos (by rw [toNat_sc]; omega)]
  have hsctInt : a.sct.toInt64.toInt = a.sct.toNat := by
    rw [Failed.toInt_toInt64, if_pos (by rw [toNat_sct]; omega)]
  unfold errKey DecodesTo
  rw [hsc, hsct, ← hscInt, ← hsctInt, Int64.toInt_inj, Int64.toInt_inj]
  constructor
  · intro h
    rw [← h]
    exact ⟨rfl, rfl, rfl⟩
  · intro ⟨hctrl, hsct, hsc⟩
    rw [hctrl, hsct, hsc]

/-- The counters of the run do not run over. -/
def CountersFit (probes : List Probe) : Prop :=
  ∀ k, ((failures probes).filter (fun a => decide (a.errKey = k))).length <
    2 ^ 64

section

variable [UnicodeDb] (o : PrintOrder) (probes : List Probe)

/-- Behind the last tick there is nothing. -/
theorem errEntries_behind_lastTick (n : Nat) :
    errEntries (decode ((lastTick probes).behind o n)) = [] := by
  have hrest : (newline :: logBytes ((lastTick probes).rest o)) = [newline] :=
    rfl
  unfold TickOfRuns.behind
  rw [hrest]
  cases n - (lastTick probes).tickEnd o with
  | zero => rfl
  | succ m =>
      rw [List.take_of_length_le (by simp)]
      exact errEntries_of_noErr (noErr_of_no_at (by decide))

/-- **Nothing disturbs the last tick of a run**: what was printed before speaks
of counters that the tick has. -/
theorem undisturbed_lastTick (n : Nat) (id : Int) :
    (lastTick probes).Undisturbed o n id := by
  constructor
  · intro k _ hnone
    rw [OrderedDict.get?_eq_none_iff] at hnone ⊢
    intro hk
    unfold errCounts at hk
    rw [OrderedDict.mem_keys_insertAll] at hk
    rcases hk with hk | hk
    · exact absurd hk List.not_mem_nil
    · obtain ⟨x, hx, rfl⟩ := List.mem_map.mp hk
      obtain ⟨k, hmem, heq⟩ :=
        speaksOf_logBytes (speaksOf_runOutput o probes) _ x hx
      obtain ⟨e, he, rfl⟩ := List.mem_map.mp hmem
      apply hnone
      rw [OrderedDict.keys, errDict_items, heq]
      refine List.mem_map.mpr ⟨(readKey e.1, (e.2.toNat : Int)), ?_, rfl⟩
      exact List.mem_map.mpr ⟨e, (o.perm _ _ _).mem_iff.mpr he, rfl⟩
  · intro k v _ hv
    unfold errCounts at hv
    rw [errEntries_behind_lastTick] at hv
    exact absurd hv (by simp [OrderedDict.insertAll])

end

/-! ### What a run promises about errors -/

section

variable (o : PrintOrder) (probes : List Probe)

/-- Between two ticks a controller gets a line for each of its errors, and fifty
at most. -/
def LinesSampled : Prop :=
  ∀ before between after,
    probes = before ++ .interval :: (between ++ .interval :: after) →
    (∀ p ∈ between, p ≠ .interval) → ∀ ctrl,
      errorLinesOn ctrl
        ((Collector.run o {} (before ++ [.interval])).output o between)
        = min 50 (failuresOn ctrl between).length

/-- No counter decreases. -/
def CountersGrow : Prop :=
  ∀ before after, probes = before ++ after → ∀ k,
    word (Collector.run o {} before).maps.errCount k ≤
      word (Collector.run o {} probes).maps.errCount k

/-- The counters of a controller add up to its errors since the run began. -/
def CountersTotal : Prop :=
  ∀ ctrl, (((Collector.run o {} probes).maps.errCount.items.filter
      (fun e => decide (e.1.1 = ctrl))).map (fun e => e.2.toNat)).sum =
        (failuresOn ctrl probes).length

/-- The statistics of a controller count its errors by decoded status. -/
structure StatsExact (stats : DeviceErrorStats) (errors : List CompleteRq) :
    Prop where
  total : stats.total = errors.length
  rows : ∀ row ∈ stats.counts,
    row.count = (errors.filter (fun a =>
      decide (a.DecodesTo row.sct row.sc))).length
  complete : ∀ a ∈ errors, ∃ row ∈ stats.counts, a.DecodesTo row.sct row.sc

/-- Read from a log that ends with a tick which the tail covers, the statistics
of a controller are exact. -/
def TotalsRead [UnicodeDb] : Prop :=
  ∀ (ctrl : Int64) (device n : Nat), ctrl.toInt = device →
    (lastTick probes).tickEnd o ≤ n →
    (lastTick probes).InTail o n →
      ∃ stats, readErrorStats (some ((lastTick probes).log o n))
        (deviceName device) = .ok stats ∧
        StatsExact stats (failuresOn ctrl probes)

/-- A controller gets a line for each of its errors, and fifty at most. -/
theorem linesSampled : LinesSampled o probes := by
  intro before between after _ hbetween ctrl
  have hfresh : (Collector.run o {} (before ++ [.interval])).linesSpent ctrl =
      0 := by
    unfold Collector.run
    rw [List.foldl_append]
    rfl
  have hlines :=
    Collector.linesSpent_run o (Collector.run o {} (before ++ [.interval])) ctrl
    (by omega) hbetween
  rw [hfresh] at hlines
  omega

variable {probes} (h : CountersFit probes)

include h

/-- A counter that fits is the number of its failures. -/
theorem toNat_errCount {m : Counters Key3}
    (hm : CountsErrors m (failures probes)) (k : Key3) :
    (word m k).toNat =
      ((failures probes).filter (fun a => decide (a.errKey = k))).length := by
  rw [hm.toNat_word (by rw [groupSum_one]; exact h k), groupSum_one]

/-- **The counters** never fall. -/
theorem countersGrow : CountersGrow o probes := by
  intro before after heq k
  have hsub : (failures before).Sublist (failures probes) := by
    rw [heq, failures, failures, List.filterMap_append]
    exact List.sublist_append_left _ _
  have hfit : CountersFit before :=
    fun k => lt_of_le_of_lt (hsub.filter _).length_le (h k)
  rw [UInt64.le_iff_toNat_le, toNat_errCount hfit (countsErrors o before),
    toNat_errCount h (countsErrors o probes)]
  exact (hsub.filter _).length_le

/-- **The counters of a controller** add up to its failures. -/
theorem countersTotal : CountersTotal o probes := by
  intro ctrl
  have hfit : ∀ k : Key3, decide (k.1 = ctrl) = true →
      groupSum CompleteRq.errKey (fun _ => 1) (failures probes) k < 2 ^ 64 :=
    fun k _ => by rw [groupSum_one]; exact h k
  have hsum :=
    (countsErrors o probes).sum_filter (fun k => decide (k.1 = ctrl)) hfit
  have hcount : ((failuresOn ctrl probes).map (fun _ => 1)).sum =
      (failuresOn ctrl probes).length := by
    simp
  exact hsum.trans hcount

omit h in
/-- The sum of the entries of a controller. -/
theorem sum_entriesOf (m : Maps) {ctrl : Int64} {id : Int}
    (hid : ctrl.toInt = id) :
    ((entriesOf id (errItems o m)).map Prod.snd).sum
      = (((m.errCount.items.filter (fun e => decide (e.1.1 = ctrl))).map
        (fun e => e.2.toNat)).sum : Nat) := by
  have hsame : (fun e : Key3 × UInt64 => decide (e.1.1.toInt = id)) = fun e =>
      decide (e.1.1 = ctrl) := by
    funext e
    rw [decide_eq_decide, ← hid]
    exact Int64.toInt_inj
  have hperm :=
    (o.perm m.tick "err_count".toList m.errCount.items).filter (fun e =>
    decide (e.1.1 = ctrl))
  unfold entriesOf errItems
  rw [List.filter_map, List.map_map, Nat.cast_list_sum, List.map_map]
  change (((o.order m.tick "err_count".toList m.errCount.items).filter (fun e =>
    decide (e.1.1.toInt = id))).map
    (fun e => (e.2.toNat : Int))).sum = _
  rw [hsame]
  exact (hperm.map _).sum_eq

/-- **The entries of a controller** are its counters. -/
theorem statsExact_of_reported {ctrl : Int64} {id : Int} (hid : ctrl.toInt = id)
    {stats : DeviceErrorStats}
    (hstats : ErrorsReported (errItems o (Collector.run o {} probes).maps)
      id stats) :
    StatsExact stats (failuresOn ctrl probes) := by
  set m := (Collector.run o {} probes).maps.errCount with hm
  have hcounts : CountsErrors m (failures probes) := countsErrors o probes
  have hctrl : ∀ k : Key3, k.1.toInt = id ↔ k.1 = ctrl := by
    intro k
    rw [← hid]
    exact Int64.toInt_inj
  have hentry :
      ∀ x, x ∈ entriesOf id (errItems o (Collector.run o {} probes).maps) ↔
      ∃ e ∈ m.items, e.1.1 = ctrl ∧ x = (readKey e.1, (e.2.toNat : Int)) := by
    intro x
    rw [mem_entriesOf]
    constructor
    · intro ⟨hx, hxid⟩
      obtain ⟨e, he, rfl⟩ := List.mem_map.mp hx
      exact ⟨e, (o.perm _ _ _).mem_iff.mp he, (hctrl e.1).mp hxid, rfl⟩
    · intro ⟨e, he, hectrl, hx⟩
      rw [hx]
      exact ⟨List.mem_map.mpr ⟨e, (o.perm _ _ _).mem_iff.mpr he, rfl⟩,
        (hctrl e.1).mpr hectrl⟩
  refine ⟨?_, fun row hrow => ?_, fun a ha => ?_⟩
  · have htotal := countersTotal o h ctrl
    rw [hstats.total, sum_entriesOf o _ hid, htotal]
  · obtain ⟨x, hx, rfl⟩ := List.mem_map.mp (hstats.counts.mem_iff.mp hrow)
    obtain ⟨e, he, hectrl, rfl⟩ := (hentry x).mp hx
    have hword : word m e.1 = e.2 := word_of_mem he
    have hsame : (failures probes).filter (fun a => decide (a.errKey = e.1))
        = (failuresOn ctrl probes).filter (fun a =>
          decide (a.DecodesTo e.1.2.1.toInt e.1.2.2.toInt)) := by
      unfold failuresOn
      rw [List.filter_filter]
      refine List.filter_congr fun a _ => ?_
      rw [Bool.eq_iff_iff, Bool.and_eq_true, decide_eq_true_eq,
        decide_eq_true_eq, decide_eq_true_eq,
        a.errKey_eq_iff, hectrl, and_comm]
    have hcount := toNat_errCount h hcounts e.1
    rw [hword, hsame] at hcount
    exact congrArg Int.ofNat hcount
  · obtain ⟨hmem, hactrl⟩ := List.mem_filter.mp ha
    have hkey : a.errKey ∈ m.keys := (hcounts.mem_keys _).mpr ⟨a, hmem, rfl⟩
    obtain ⟨e, he, hekey⟩ := List.mem_map.mp hkey
    obtain ⟨hectrl, hdecodes⟩ := (a.errKey_eq_iff e.1).mp hekey.symm
    have hentries :=
      (hentry _).mpr ⟨e, he, hectrl.symm.trans (of_decide_eq_true hactrl), rfl⟩
    exact ⟨_, hstats.counts.mem_iff.mpr (List.mem_map.mpr ⟨_, hentries, rfl⟩),
      hdecodes⟩

/-- **What is read** of the last complete tick is exact. -/
theorem totalsRead [UnicodeDb] : TotalsRead o probes := by
  intro ctrl device n hdevice hend hin
  have hlt : device < 2 ^ 63 := by
    have := ctrl.toInt_lt
    omega
  obtain ⟨stats, hread, hstats⟩ :=
    (TickOfRuns.reported_iff_undisturbed o (lastTick probes) hend hin hlt).mpr
    (undisturbed_lastTick o probes n device)
  exact ⟨stats, hread, statsExact_of_reported o h hdevice hstats⟩

omit h in
variable (probes) in
/-- **Errors are counted exactly although their lines are sampled.** The limit
on the lines needs nothing; the counters are exact until one of them runs over
64 bits. -/
theorem errors_counted_exactly [UnicodeDb] :
    LinesSampled o probes ∧ (CountersFit probes →
      CountersGrow o probes ∧ CountersTotal o probes ∧ TotalsRead o probes) :=
  ⟨linesSampled o probes, fun h =>
    ⟨countersGrow o h, countersTotal o h, totalsRead o h⟩⟩

end

section

attribute [local instance] UnicodeDb.ascii

/-- Two errors, a tick, and one more. -/
def threeErrors : List Probe :=
  [.completeRq failedRead, .completeRq failedRead, .interval,
    .completeRq failedRead]

theorem errors_counted_exactly_threeErrors : CountersFit threeErrors ∧
    LinesSampled .inserted threeErrors ∧ CountersGrow .inserted threeErrors ∧
      CountersTotal .inserted threeErrors ∧
        TotalsRead .inserted threeErrors := by
  have hfit : CountersFit threeErrors := by
    intro k
    have hle : ((failures threeErrors).filter (fun a =>
        decide (a.errKey = k))).length ≤ 3 :=
      List.length_filter_le _ _
    omega
  obtain ⟨hlines, hexact⟩ := errors_counted_exactly .inserted threeErrors
  exact ⟨hfit, hlines, hexact hfit⟩

/-- The failures of a run that repeats one. -/
theorem failures_replicate (n : Nat) :
    failures (List.replicate n (.completeRq failedRead)) =
      List.replicate n failedRead := by
  have hone : Probe.failure? (.completeRq failedRead) = some failedRead := rfl
  exact List.filterMap_replicate_of_some hone

/-- A counter that ran over to 0 says nothing about its errors. -/
theorem not_countersTotal {n : Nat} (hpos : 0 < n)
    (hover : UInt64.ofNat n = 0) :
    ¬ CountersTotal .inserted (List.replicate n (.completeRq failedRead)) := by
  intro htotal
  set m := (Collector.run .inserted {}
    (List.replicate n (.completeRq failedRead))).maps.errCount with hm
  have hcounts : CountsErrors m (List.replicate n failedRead) := by
    have := countsErrors .inserted (List.replicate n (.completeRq failedRead))
    rwa [failures_replicate] at this
  have hzero : ∀ e ∈ m.items, e.2.toNat = 0 := by
    intro e he
    have hword : word m e.1 = e.2 := word_of_mem he
    have hvalue := hcounts.word_eq e.1
    rw [hword, groupSum_one, List.filter_replicate] at hvalue
    rw [hvalue]
    split
    · rw [List.length_replicate, hover]
      rfl
    · rfl
  have hsum := htotal 0
  have hnone :
      ((m.items.filter (fun e => decide (e.1.1 = 0))).map (fun e =>
      e.2.toNat)).sum = 0 := by
    rw [List.sum_eq_zero_iff]
    intro x hx
    obtain ⟨e, he, rfl⟩ := List.mem_map.mp hx
    exact hzero e (List.mem_of_mem_filter he)
  have hall : (failuresOn 0
      (List.replicate n (.completeRq failedRead))).length = n := by
    unfold failuresOn
    rw [failures_replicate, List.filter_replicate_of_pos (by decide),
      List.length_replicate]
  rw [hnone, hall] at hsum
  omega

/-- After 2^64 errors of one status the counter is 0 again. -/
theorem errors_overrun :
    ¬ ∀ probes, LinesSampled .inserted probes ∧ CountersGrow .inserted probes ∧
    CountersTotal .inserted probes ∧ TotalsRead .inserted probes := by
  intro hall
  obtain ⟨-, -, htotal, -⟩ :=
    hall (List.replicate (2 ^ 64) (.completeRq failedRead))
  exact not_countersTotal (by decide) (by decide) htotal

end

end Telemetryd
