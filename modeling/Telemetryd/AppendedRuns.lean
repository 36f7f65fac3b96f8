import Mathlib.Data.List.TakeWhile
import Telemetryd.ErrorTotals
import Telemetryd.PerfRows
import Telemetryd.ProcTick
import Telemetryd.TailWindow

/-!
# Runs that are appended to one log

A collector that is killed leaves its output cut at any byte, and the next one
appends to it.  Both readers of ticks take what stands before the last marker,
back to the marker before it.  So the part of a tick that a killed collector
has left is read together with the first tick of the next one, unless nothing
of it is a whole line: a torn line is continued by the first line of the next
run, and the readers pass over the result.
-/

namespace Telemetryd

open PyText Regex Utf8

/-! ### Lines that the readers pass over -/

section

variable [UnicodeDb]

/-- Neither reader takes anything from the line. -/
structure Mute (line : PyText) : Prop where
  queues : Ignored line
  processes : ∀ procs : Procs, procs.parseLine line = .ok procs

/-- A line without an at sign is mute. -/
theorem mute_of_no_at {line : PyText} (h : '@' ∉ line) : Mute line := by
  have hstrip : '@' ∉ strip line :=
    fun hmem => h ((infix_of_strip line).subset hmem)
  have hfront : ∀ t, ¬ ('@' :: t) <+: strip line :=
    fun t hp => hstrip (hp.subset List.mem_cons_self)
  refine ⟨ignored_of_run fun rest => run_text_of_not_isPrefix (hfront []) _,
    fun procs => ?_⟩
  refine parseLine_of_not_isProcLine (fun hproc => ?_) procs
  rcases hproc with hp | hp
  · exact hfront _ hp
  · exact hfront _ hp

/-- The pattern matches blanks and digits only. -/
def Trailing (segs : Pattern) : Prop :=
  ∀ r caps, caps ∈ run segs r → ∀ c ∈ r, isSpace c = true ∨ isDecimal c = true

/-- The end of a text takes no more. -/
theorem trailing_eos : Trailing [skip .eos] := by
  intro r caps h c hc
  obtain ⟨x, r', caps', hx, -, -⟩ := mem_run_cons h
  rw [skip, runPieces_singleton, Piece.run] at hx
  split_ifs at hx with hend
  · rcases hend with rfl | rfl
    · exact absurd hc List.not_mem_nil
    · rw [List.mem_singleton.mp hc]
      exact Or.inl (by decide)
  · exact absurd hx List.not_mem_nil

/-- Nor do blanks and digits at the end. -/
theorem trailing_many {segs : Pattern} (h : Trailing segs) (b : Bool)
    (least : Nat) {p : Char → Bool}
    (hp : ∀ c, p c = true → isSpace c = true ∨ isDecimal c = true) :
    Trailing (⟨b, [.many least p]⟩ :: segs) := by
  intro r caps hcaps c hc
  obtain ⟨x, r', caps', rfl, hx, hrest⟩ := mem_run_many hcaps
  rcases List.mem_append.mp hc with hc | hc
  · exact hp c (hx c hc)
  · exact h r' caps' hrest c hc

/-- The end of a line takes no more. -/
theorem trailing_endOfLine : Trailing endOfLine :=
  trailing_many trailing_eos false 0 fun _ h => Or.inl h

/-- A line that ends with the letter `d` is no counter. -/
theorem match_of_ends (segs : Pattern) {ending : Pattern}
    (hend : Trailing ending) {t : PyText}
    (ht : t.getLast? = some 'd') :
    match? (segs ++ text [']', ':'] :: ending) t = none := by
  cases hm : match? (segs ++ text [']', ':'] :: ending) t with
  | none => rfl
  | some caps =>
      obtain ⟨x, r, caps', rfl, hr⟩ :=
        suffix_of_mem_run (List.mem_of_mem_head? hm)
      obtain ⟨r', rfl, hr'⟩ := mem_run_text hr
      rw [List.getLast?_append_of_ne_nil _ (by simp)] at ht
      rcases List.eq_nil_or_concat r' with rfl | ⟨q, c, rfl⟩
      · exact absurd ht (by decide)
      · rw [List.concat_eq_append, ← List.append_assoc,
          List.getLast?_concat] at ht
        have hc : c = 'd' := Option.some.inj ht
        have hclass := hend _ _ hr' c (by simp)
        rw [hc, isDecimal_ascii (by decide)] at hclass
        exact absurd hclass (by decide)

/-- **A line that the first line of a run ends** is passed over, whatever is in
front of it. -/
theorem mute_attached (t : PyText) : Mute (t ++ attachedLine) := by
  have hlast : (strip (t ++ attachedLine)).getLast? = some 'd' := by
    have hline : t ++ attachedLine = (t ++ "nvme_perf.bt attache".toList) ++
        ['d'] := by
      rw [List.append_assoc]
      rfl
    rw [hline]
    exact getLast?_strip (by decide) _
  have hvalue : Trailing [skip (.many 0 isSpace), numGroup, skip .eos] :=
    trailing_many (trailing_many trailing_eos true 1 fun _ h =>
      Or.inr h) false 0 fun _ h => Or.inl h
  have hscalar : Trailing (skip (.many 0 isSpace) :: numGroup :: endOfLine) :=
    trailing_many (trailing_many trailing_endOfLine true 1 fun _ h =>
      Or.inr h) false 0
      fun _ h => Or.inl h
  have hops : match? procOpsRe (strip (t ++ attachedLine)) = none :=
    match_of_ends (text "@proc_ops[".toList ::
      keyThen (keyThen [group [.many 0 isDot]])) hvalue hlast
  have hthreads : match? thrOpsRe (strip (t ++ attachedLine)) = none :=
    match_of_ends (text "@thr_ops[".toList ::
      keyThen (keyThen (keyThen [group [.many 0 isDot]])))
      hvalue hlast
  have htwo : match? twoKeyRe (strip (t ++ attachedLine)) = none :=
    match_of_ends (text ['@'] ::
      group [.oneOf ["proc_bytes".toList, "proc_rd".toList, "proc_wr".toList,
      "proc_lat_sum".toList, "proc_lat_cnt".toList, "proc_seq".toList,
      "proc_rand".toList]] ::
        text ['['] :: keyThen [intGroup]) hvalue hlast
  have hthree : match? threeKeyRe (strip (t ++ attachedLine)) = none :=
    match_of_ends (text ['@'] ::
      group [.oneOf ["proc_bs".toList, "proc_q".toList]] ::
      text ['['] :: keyThen (keyThen [intGroup])) hvalue hlast
  refine ⟨⟨?_, ?_⟩, fun procs => ?_⟩
  · exact match_of_ends [text ['@'], group [.many 1 isWord], text ['['],
      intGroup, text [','],
      skip (.many 0 isSpace), intGroup] hscalar hlast
  · exact match_of_ends [text ['@'], group [.many 1 isWord], text ['['],
      intGroup, text [','],
      skip (.many 0 isSpace), intGroup] trailing_endOfLine hlast
  · unfold Procs.parseLine
    simp only [hops, hthreads, htwo, hthree, ite_self]

/-- The text is whole lines that the readers pass over. -/
structure Skipped (p : PyText) : Prop where
  endsLine : EndsLine p
  mute : ∀ l ∈ splitlines p, Mute l

/-- Two skipped texts in a row are skipped. -/
theorem Skipped.append {p q : PyText} (hp : Skipped p) (hq : Skipped q) :
    Skipped (p ++ q) := by
  refine ⟨hp.endsLine.append hq.endsLine, fun l hl => ?_⟩
  rw [splitlines_endsLine hp.endsLine] at hl
  rcases List.mem_append.mp hl with hl | hl
  · exact hp.mute l hl
  · exact hq.mute l hl

/-- Whole lines without an at sign are skipped. -/
theorem skipped_of_no_at {p : PyText} (hend : EndsLine p) (h : '@' ∉ p) :
    Skipped p :=
  ⟨hend, fun _ hl => mute_of_no_at fun hmem =>
    h ((infix_of_mem_splitlines hl).subset hmem)⟩

/-- A torn line, continued by the first line of a run. -/
theorem skipped_attached {t : PyText} (h : ∀ c ∈ t, isLineBoundary c = false) :
    Skipped (t ++ attachedLine ++ ['\n']) := by
  have hline : ∀ c ∈ t ++ attachedLine, isLineBoundary c = false := by
    intro c hc
    rcases List.mem_append.mp hc with hc | hc
    · exact h c hc
    · exact CleanText.not_isLineBoundary (show CleanText attachedLine by decide)
        c hc
  refine ⟨Or.inr ⟨_, rfl⟩, fun l hl => ?_⟩
  rw [splitlines_line hline] at hl
  rcases List.mem_cons.mp hl with rfl | hl
  · exact mute_attached t
  · exact absurd hl List.not_mem_nil

/-- **The readers start where the skipped lines end.** -/
theorem Skipped.parse_eq {p : PyText} (h : Skipped p) (t : PyText) :
    parseSegment (p ++ t) = parseSegment t ∧
      parseTick (p ++ t) = parseTick t := by
  unfold parseSegment parseTick
  rw [splitlines_endsLine h.endsLine]
  refine ⟨parseFrom_ignoredAll (fun l hl => (h.mute l hl).queues) _ _, ?_⟩
  have hfold : ∀ (ls : List PyText) (procs : Procs), (∀ l ∈ ls, Mute l) →
      (ls ++ splitlines t).foldlM Procs.parseLine procs =
        (splitlines t).foldlM Procs.parseLine procs := by
    intro ls
    induction ls with
    | nil => exact fun procs _ => rfl
    | cons l ls ih =>
        intro procs hls
        rw [List.cons_append, List.foldlM_cons,
          (hls l List.mem_cons_self).processes]
        exact ih procs fun x hx => hls x (List.mem_cons_of_mem _ hx)
  exact hfold _ _ h.mute

end

/-! ### The names in a run -/

/-- The name of the process that submits is no part of the format. -/
def Probe.Harmless : Probe → Prop
  | .setupCmd a => a.comm.Harmless
  | _ => True

namespace Collector

variable (o : PrintOrder)

/-- A probe with a harmless name leaves the names harmless. -/
theorem namesHarmless_step {s : Collector} (h : s.maps.NamesHarmless)
    {p : Probe} (hp : p.Harmless) :
    (s.step o p).1.maps.NamesHarmless := by
  cases p with
  | setupCmd a =>
      refine ⟨fun k hk => ?_, fun k hk => ?_⟩
      · rcases OrderedDict.mem_keys_insert.mp hk with rfl | hk
        · exact hp
        · exact h.1 k hk
      · rcases OrderedDict.mem_keys_insert.mp hk with rfl | hk
        · exact hp
        · exact h.2 k hk
  | completeRq a =>
      have hops : (s.latencyMaps a).procOps = s.maps.procOps := by
        unfold latencyMaps
        split <;> rfl
      have hthreads : (s.latencyMaps a).thrOps = s.maps.thrOps := by
        unfold latencyMaps
        split <;> rfl
      have hmaps : (s.step o (.completeRq a)).1.maps
          = { s.latencyMaps a with errCount := s.errCountAfter a } := by
        rw [step, completeRq_eq]
        rfl
      rw [hmaps]
      exact ⟨hops ▸ h.1, hthreads ▸ h.2⟩
  | nvmeTimeout a => exact h
  | interval =>
      exact ⟨fun k hk => absurd hk List.not_mem_nil, fun k hk =>
        absurd hk List.not_mem_nil⟩

/-- So do the probes of a run. -/
theorem namesHarmless_run {s : Collector} (h : s.maps.NamesHarmless)
    {probes : List Probe}
    (hprobes : ∀ p ∈ probes, p.Harmless) :
    (s.run o probes).maps.NamesHarmless := by
  induction probes generalizing s with
  | nil => exact h
  | cons p probes ih =>
      exact ih (namesHarmless_step o h (hprobes p List.mem_cons_self))
        (fun q hq => hprobes q (List.mem_cons_of_mem _ hq))

end Collector

/-- A tick prints the names that the maps have. -/
theorem harmless_tickLines (o : PrintOrder) {m : Maps} (h : m.NamesHarmless) :
    ∀ l ∈ tickLines o m, ∀ n ∈ l.name?, n.Harmless := by
  have hnone : ∀ l ∈ ([] : List PrintedLine), IsEventLine l :=
    fun l hl => absurd hl List.not_mem_nil
  have htick := (tickOf_tickLines o m hnone).harmless h
  rwa [List.nil_append] at htick

/-! ### What is printed between two ticks -/

/-- Whole lines that are no part of a tick. -/
structure Between (v : PyText) : Prop where
  endsLine : EndsLine v
  no_at : '@' ∉ v
  no_marker : ¬ tickMarker <:+: v

/-- Nothing may stand between two ticks. -/
theorem between_nil : Between [] := ⟨Or.inl rfl, List.not_mem_nil, by decide⟩

/-- A clean line without an at sign may. -/
theorem between_line {t : PyText} (hclean : CleanText t) (hat : '@' ∉ t) :
    Between (t ++ ['\n']) := by
  refine ⟨Or.inr ⟨t, rfl⟩, at_notMem_append hat (by decide), fun hi => ?_⟩
  rcases infix_append_cons newline_notMem_tickMarker hi with hi | hi
  · exact hclean.no_marker hi
  · exact absurd (List.infix_nil.mp hi) tickMarker_ne_nil

/-- A marker does not arise where two texts meet at a line end. -/
theorem no_marker_append {x y : PyText} (hx : EndsLine x)
    (hnot : ¬ tickMarker <:+: x)
    (hy : ¬ tickMarker <:+: y) : ¬ tickMarker <:+: x ++ y := by
  intro hi
  rcases hx with rfl | ⟨s, rfl⟩
  · exact hy hi
  · rw [List.append_assoc, List.singleton_append] at hi
    rcases infix_append_cons newline_notMem_tickMarker hi with hi | hi
    · exact hnot (hi.trans (List.prefix_append _ _).isInfix)
    · exact hy hi

/-- Two such texts in a row. -/
theorem Between.append {v w : PyText} (hv : Between v) (hw : Between w) :
    Between (v ++ w) :=
  ⟨hv.endsLine.append hw.endsLine, at_notMem_append hv.no_at hw.no_at,
    no_marker_append hv.endsLine hv.no_marker hw.no_marker⟩

/-- What stands between two ticks is skipped. -/
theorem Between.skipped [UnicodeDb] {v : PyText} (h : Between v) : Skipped v :=
  skipped_of_no_at h.endsLine h.no_at

/-- The greeting may stand between two ticks. -/
theorem between_attached : Between (attachedLine ++ ['\n']) :=
  between_line (by decide) (by decide)

/-- What was written is at the end of a tick, or behind it with lines of no
tick. -/
def AfterTick (b : Bytes) : Prop :=
  ∃ x v, AtLineStart x ∧ b = x ++ (ascii tickMarker ++ newline :: v) ∧
    AtLineStart v ∧ Between (decode v)

/-- More may be written after a tick. -/
theorem AfterTick.append {b w : Bytes} (hb : AfterTick b)
    (hstart : AtLineStart w) (hw : Between (decode w)) :
    AfterTick (b ++ w) := by
  obtain ⟨x, v, hx, rfl, hv, hbetween⟩ := hb
  refine ⟨x, v ++ w, hx, by simp, hv.append hstart, ?_⟩
  rw [decode_atLineStart hv]
  exact hbetween.append hw

/-- What is before a tick does not matter. -/
theorem AfterTick.prepend {x b : Bytes} (hx : AtLineStart x)
    (hb : AfterTick b) : AfterTick (x ++ b) := by
  obtain ⟨y, v, hy, rfl, hv⟩ := hb
  exact ⟨x ++ y, v, hx.append hy, (List.append_assoc _ _ _).symm, hv⟩

/-- The text of what was written, around its last marker. -/
theorem decode_afterTick {x : Bytes} (hx : AtLineStart x) (v : Bytes) :
    decode (x ++ (ascii tickMarker ++ newline :: v)) = decode x ++ tickMarker ++
      '\n' :: decode v := by
  have hline : decode (newline :: v) = '\n' :: decode v :=
    decode_ascii_cut toNat_newline [] v
  rw [decode_atLineStart hx, decode_ascii_append (by decide), hline,
    List.append_assoc]

section

variable (o : PrintOrder)

/-- What a probe prints, if it is no tick. -/
theorem between_step (s : Collector) {p : Probe} (hp : p ≠ .interval) :
    Between (logText (s.step o p).2) := by
  cases p with
  | setupCmd a => exact between_nil
  | completeRq a =>
      rw [Collector.step, Collector.completeRq_eq]
      split_ifs
      · have hline : logText [Entry.line (.plain (s.errorLine a))] =
            s.errorLine a ++ ['\n'] := by
          simp [logText, Entry.text, PrintedLine.text]
        rw [hline]
        exact between_line
          (cleanText_errorEventLine _ _ _ _ _ _ _ _ _ _ _ _ _ _ _ _ _ _)
          (s.at_notMem_errorLine a)
      · exact between_nil
  | nvmeTimeout a =>
      have hline : logText (s.step o (.nvmeTimeout a)).2 =
          s.timeoutLine a ++ ['\n'] := by
        simp [logText, Collector.step, Entry.text, PrintedLine.text]
      rw [hline]
      exact between_line
        (cleanText_timeoutEventLine _ _ _ _ _ _ _ _ _ _ _ _ _ _)
        (s.at_notMem_timeoutLine a)
  | interval => exact absurd rfl hp

/-- The text of two logs in a row. -/
theorem logText_append (es es' : List Entry) :
    logText (es ++ es') = logText es ++ logText es' :=
  List.flatMap_append

/-- A log is decoded entry by entry. -/
theorem decode_entries {es : List Entry} (h : ∀ e ∈ es, e.Clean) :
    decode (logBytes es) = logText es := by
  have hdecode := decode_logBytes h []
  have hnil : decode [] = [] := rfl
  rwa [List.append_nil, hnil, List.append_nil] at hdecode

/-- What a tick writes. -/
theorem logBytes_interval (s : Collector) :
    logBytes (s.step o .interval).2 = tickBytes o s.maps ++ [newline] := by
  have hstep : (s.step o .interval).2 = (tickLines o s.maps).map Entry.line ++
    [.mark] := rfl
  have hmark : logBytes [Entry.mark] = ascii tickMarker ++ [newline] := rfl
  rw [hstep, logBytes_append, hmark, tickBytes, List.append_assoc]

/-- **What some probes write** is lines of no tick, or there is a tick in it. -/
theorem bytes_output (s : Collector) (probes : List Probe) :
    Between (decode (logBytes (s.output o probes))) ∨
      AfterTick (logBytes (s.output o probes)) := by
  induction probes generalizing s with
  | nil => exact Or.inl between_nil
  | cons p probes ih =>
      have hcons : logBytes (s.output o (p :: probes))
          = logBytes (s.step o p).2 ++
            logBytes ((s.step o p).1.output o probes) := logBytes_append _ _
      rw [hcons]
      by_cases hp : p = .interval
      · right
        have hhere : AfterTick (logBytes (s.step o p).2) := by
          rw [hp, logBytes_interval, tickBytes, List.append_assoc]
          exact ⟨_, [], atLineStart_logBytes _, rfl, Or.inl rfl, between_nil⟩
        rcases ih (s.step o p).1 with h | h
        · exact hhere.append (atLineStart_logBytes _) h
        · exact h.prepend (atLineStart_logBytes _)
      · have hstep : Between (decode (logBytes (s.step o p).2)) := by
          rw [decode_entries (clean_step o s p)]
          exact between_step o s hp
        rcases ih (s.step o p).1 with h | h
        · left
          rw [decode_atLineStart (atLineStart_logBytes _)]
          exact hstep.append h
        · exact Or.inr (h.prepend (atLineStart_logBytes _))

/-! ### A run that is cut -/

/-- Lines are decoded on their own, whatever comes after them. -/
theorem decode_lines {ls : List PrintedLine} (hclean : ∀ l ∈ ls, l.Clean)
    (rest : Bytes) :
    decode (logBytes (ls.map Entry.line) ++ rest) =
      linesText ls ++ decode rest := by
  have hentries : ∀ e ∈ ls.map Entry.line, e.Clean := by
    intro e he
    obtain ⟨l, hl, rfl⟩ := List.mem_map.mp he
    exact hclean l hl
  have hlines := logText_lines ls []
  rw [List.append_nil] at hlines
  rw [decode_logBytes hentries, hlines]
  simp [logText]

/-- Lines of harmless names hold no marker, cut or not. -/
theorem no_marker_take_lines {ls : List PrintedLine}
    (hclean : ∀ l ∈ ls, l.Clean)
    (hnames : ∀ l ∈ ls, ∀ c ∈ l.name?, c.Harmless) (n : Nat) :
    ¬ tickMarker <:+: decode ((logBytes (ls.map Entry.line)).take n) := by
  intro hi
  have hbytes := (infix_decode_iff (by decide) (by decide)).mp hi
  have hwhole : tickMarker <:+: decode (logBytes (ls.map Entry.line)) :=
    (infix_decode_iff (by decide) (by decide)).mpr
      (hbytes.trans (List.take_prefix _ _).isInfix)
  have hlines := decode_lines hclean []
  have hnil : decode [] = [] := rfl
  rw [List.append_nil, hnil, List.append_nil] at hlines
  rw [hlines] at hwhole
  exact linesText_no_marker hclean hnames hwhole

/-- A tick that is cut before the end of its marker holds no marker. -/
theorem no_marker_take_tick {m : Maps} (hm : m.NamesHarmless) {n : Nat}
    (hn : n < (tickBytes o m).length) :
    ¬ tickMarker <:+: decode ((tickBytes o m).take n) := by
  have hclean := clean_tickLines o m
  have hnames := harmless_tickLines o hm
  unfold tickBytes at hn ⊢
  rw [List.take_append]
  by_cases hlines : n ≤ (logBytes ((tickLines o m).map Entry.line)).length
  · rw [Nat.sub_eq_zero_of_le hlines, List.take_zero, List.append_nil]
    exact no_marker_take_lines hclean hnames n
  · have hnone :=
      no_marker_take_lines hclean hnames
      (logBytes ((tickLines o m).map Entry.line)).length
    have hdecode := decode_lines hclean []
    have hnil : decode [] = [] := rfl
    rw [List.append_nil, hnil, List.append_nil] at hdecode
    rw [List.take_length, hdecode] at hnone
    rw [List.take_of_length_le (by omega), decode_lines hclean]
    refine no_marker_append (endsLine_linesText _) hnone fun hi => ?_
    have hlen := hi.length_le.trans (length_decode_le _)
    have hmark : (ascii tickMarker).length = 10 := by decide
    have htick : tickMarker.length = 10 := by decide
    rw [List.length_take, htick] at hlen
    rw [List.length_append, hmark] at hn
    omega

/-- The last complete tick of a cut output: what was printed before it, and
what follows it. -/
def LastComplete (s : Collector) (probes : List Probe) (b : Bytes) : Prop :=
  ∃ before after rest, probes = before ++ .interval :: after ∧
    b = logBytes (s.output o before) ++
      (tickBytes o (s.run o before).maps ++ rest) ∧
    ¬ tickMarker <:+: decode rest

/-- Between two ticks there is no marker, cut or not. -/
theorem no_marker_take_step (s : Collector) {p : Probe} (hp : p ≠ .interval)
    (n : Nat) :
    ¬ tickMarker <:+: decode ((logBytes (s.step o p).2).take n) := by
  intro hi
  have hbytes := (infix_decode_iff (by decide) (by decide)).mp hi
  have hwhole : tickMarker <:+: decode (logBytes (s.step o p).2) :=
    (infix_decode_iff (by decide) (by decide)).mpr
      (hbytes.trans (List.take_prefix _ _).isInfix)
  rw [decode_entries (clean_step o s p)] at hwhole
  exact (between_step o s hp).no_marker hwhole

/-- A line end before a text makes no marker. -/
theorem no_marker_newline {b : Bytes} (h : ¬ tickMarker <:+: decode b) :
    ¬ tickMarker <:+: decode ([newline] ++ b) := by
  have hline : decode ([newline] ++ b) = ['\n'] ++ decode b :=
    decode_ascii_cut toNat_newline [] b
  rw [hline]
  exact no_marker_append (Or.inr ⟨[], rfl⟩) (by decide) h

/-- A tick with no marker after it is the last complete one. -/
theorem lastComplete_here (s : Collector) (probes : List Probe) {rest : Bytes}
    (h : ¬ tickMarker <:+: decode rest) :
    LastComplete o s (.interval :: probes) (tickBytes o s.maps ++ rest) := by
  have hbefore : logBytes (s.output o []) = [] := rfl
  have hrun : s.run o [] = s := rfl
  exact ⟨[], probes, rest, rfl, by rw [hbefore, hrun, List.nil_append], h⟩

/-- The last complete tick of the rest of a run is that of the run. -/
theorem LastComplete.cons {s : Collector} {p : Probe} {probes : List Probe}
    {b : Bytes}
    (h : LastComplete o (s.step o p).1 probes b) :
    LastComplete o s (p :: probes) (logBytes (s.step o p).2 ++ b) := by
  obtain ⟨before, after, rest, rfl, rfl, hrest⟩ := h
  have hout : logBytes (s.output o (p :: before))
      = logBytes (s.step o p).2 ++ logBytes ((s.step o p).1.output o before) :=
        logBytes_append _ _
  have hrun : s.run o (p :: before) = (s.step o p).1.run o before := rfl
  exact ⟨p :: before, after, rest, rfl, by rw [hout, hrun, List.append_assoc],
    hrest⟩

/-- **The last complete tick of an output that is cut at a byte.** -/
theorem cut_output {s : Collector} (hs : s.maps.NamesHarmless)
    {probes : List Probe}
    (hprobes : ∀ p ∈ probes, p.Harmless) (n : Nat) :
    ¬ tickMarker <:+: decode ((logBytes (s.output o probes)).take n) ∨
      LastComplete o s probes ((logBytes (s.output o probes)).take n) := by
  induction probes generalizing s n with
  | nil =>
      left
      have hnil : (logBytes (s.output o [])).take n = [] := List.take_nil
      rw [hnil]
      decide
  | cons p probes ih =>
      have hsplit : logBytes (s.output o (p :: probes))
          = logBytes (s.step o p).2 ++
            logBytes ((s.step o p).1.output o probes) := logBytes_append _ _
      have hnext :=
        ih (Collector.namesHarmless_step o hs (hprobes p List.mem_cons_self))
        (fun q hq => hprobes q (List.mem_cons_of_mem _ hq))
      rw [hsplit, List.take_append]
      by_cases hn : n ≤ (logBytes (s.step o p).2).length
      · -- The cut is in what this probe printed.
        rw [Nat.sub_eq_zero_of_le hn, List.take_zero, List.append_nil]
        by_cases hp : p = .interval
        · subst hp
          rw [logBytes_interval]
          by_cases htick : n < (tickBytes o s.maps).length
          · left
            rw [List.take_append_of_le_length (by omega)]
            exact no_marker_take_tick o hs htick
          · right
            rw [List.take_append, List.take_of_length_le (by omega)]
            refine lastComplete_here o s probes fun hi => ?_
            have hlen := hi.length_le.trans (length_decode_le _)
            have hmark : tickMarker.length = 10 := by decide
            rw [List.length_take, hmark, List.length_singleton] at hlen
            omega
        · exact Or.inl (no_marker_take_step o s hp n)
      · rw [List.take_of_length_le (by omega)]
        rcases hnext (n - (logBytes (s.step o p).2).length) with hnone | hlast
        · by_cases hp : p = .interval
          · subst hp
            right
            rw [logBytes_interval, List.append_assoc]
            refine lastComplete_here o s probes ?_
            rw [logBytes_interval] at hnone
            exact no_marker_newline hnone
          · left
            have hstep := between_step o s hp
            rw [decode_logBytes (clean_step o s p)]
            exact no_marker_append hstep.endsLine hstep.no_marker hnone
        · exact Or.inr (hlast.cons o)

end

/-! ### Killed runs -/

/-- The lines of a text that have their line feed. -/
def finishedLines (t : PyText) : PyText :=
  (t.reverse.dropWhile (· ≠ '\n')).reverse

/-- What is cut off a text has no line end. -/
theorem finishedLines_split (t : PyText) :
    ∃ u, t = finishedLines t ++ u ∧ '\n' ∉ u ∧ EndsLine (finishedLines t) := by
  refine ⟨(t.reverse.takeWhile (· ≠ '\n')).reverse, ?_, ?_, ?_⟩
  · unfold finishedLines
    rw [← List.reverse_append, List.takeWhile_append_dropWhile,
      List.reverse_reverse]
  · intro hmem
    have hall := List.mem_takeWhile_imp (List.mem_reverse.mp hmem)
    exact absurd hall (by decide)
  · unfold finishedLines
    cases hd : t.reverse.dropWhile (· ≠ '\n') with
    | nil => exact Or.inl rfl
    | cons c r =>
        have hc : c = '\n' := by
          have hhead :=
            List.head?_dropWhile_not (fun c : Char =>
            decide (c ≠ '\n')) t.reverse
          rw [hd] at hhead
          simpa using hhead
        exact Or.inr ⟨r.reverse, by rw [List.reverse_cons, hc]⟩

/-- Finished lines stay finished. -/
theorem finishedLines_append (a t : PyText) :
    finishedLines (a ++ '\n' :: t) = a ++ '\n' :: finishedLines t := by
  unfold finishedLines
  have hrev : (a ++ '\n' :: t).reverse = t.reverse ++ '\n' :: a.reverse := by
    simp
  rw [hrev, List.dropWhile_append]
  by_cases h : (t.reverse.dropWhile (· ≠ '\n')).isEmpty
  · rw [if_pos h, List.isEmpty_iff.mp h, List.dropWhile_cons_of_neg (by decide)]
    simp
  · rw [if_neg h]
    simp

/-- **What a killed run leaves** is passed over together with the first line of
the next run, if none of its whole lines is one of a tick. -/
theorem skipped_of_finished [UnicodeDb] {t z : PyText}
    (hat : '@' ∉ finishedLines t)
    (ht : ∀ c ∈ t, c ≠ '\n' → isLineBoundary c = false)
    (hz : ∀ c ∈ z, isLineBoundary c = false) :
    Skipped (t ++ z ++ attachedLine ++ ['\n']) := by
  obtain ⟨u, hsplit, hu, hend⟩ := finishedLines_split t
  have hline : ∀ c ∈ u ++ z, isLineBoundary c = false := by
    intro c hc
    rcases List.mem_append.mp hc with hc | hc
    · refine ht c ?_ fun heq => hu (heq ▸ hc)
      rw [hsplit]
      exact List.mem_append_right _ hc
    · exact hz c hc
  have hskip := (skipped_of_no_at hend hat).append (skipped_attached hline)
  have heq : t ++ z ++ attachedLine ++ ['\n']
      = finishedLines t ++ (u ++ z ++ attachedLine ++ ['\n']) := by
    conv_lhs => rw [hsplit]
    simp only [List.append_assoc]
  rw [heq]
  exact hskip

/-- A run of the collector, and the byte at which its output ends. -/
structure KilledRun where
  probes : List Probe
  cut : Nat

namespace KilledRun

variable (o : PrintOrder) (r : KilledRun)

/-- What the run has written. -/
def bytes : Bytes := (logBytes (runOutput o r.probes)).take r.cut

/-- The names of the processes are no part of the format. -/
def Harmless : Prop := ∀ p ∈ r.probes, p.Harmless

/-- Behind the last marker of the run no whole line is one of a tick. -/
def EndsBetweenTicks : Prop :=
  '@' ∉ finishedLines (unfinished (decode (r.bytes o)))

/-- The log of a run is its greeting and its output. -/
theorem logBytes_runOutput (probes : List Probe) : logBytes (runOutput o probes)
    = ascii attachedLine ++
      (newline :: logBytes (Collector.output o {} probes)) := by
  have hcons : logBytes (runOutput o probes)
      = (Entry.line (.plain attachedLine)).bytes ++
        logBytes (Collector.output o {} probes) :=
    List.flatMap_cons
  rw [hcons]
  exact List.append_assoc _ [newline] _

/-- How the text of a run starts. -/
theorem text_start : (∃ k, decode (r.bytes o) = attachedLine.take k) ∨
    ∃ t, decode (r.bytes o) = attachedLine ++ '\n' :: t := by
  have hascii : IsAscii attachedLine := by decide
  unfold bytes
  rw [logBytes_runOutput, List.take_append]
  cases hk : r.cut - (ascii attachedLine).length with
  | zero =>
      left
      refine ⟨r.cut, ?_⟩
      have hmap : (ascii attachedLine).take r.cut =
        ascii (attachedLine.take r.cut) := List.map_take.symm
      rw [List.take_zero, List.append_nil, hmap]
      exact decode_ascii fun c hc => hascii c (List.mem_of_mem_take hc)
  | succ k =>
      right
      rw [List.take_of_length_le (by omega), List.take_succ_cons,
        decode_ascii_append hascii]
      exact ⟨_, congrArg (attachedLine ++ ·)
        (decode_ascii_cut toNat_newline [] _)⟩

/-- At first there are no names. -/
theorem namesHarmless_start : (({} : Collector).maps).NamesHarmless :=
  ⟨fun _ hk => absurd hk List.not_mem_nil, fun _ hk =>
    absurd hk List.not_mem_nil⟩

/-- A step prints the names that the maps have. -/
theorem harmless_step {s : Collector} (hs : s.maps.NamesHarmless) (p : Probe)
    {l : PrintedLine}
    (hl : .line l ∈ (s.step o p).2) : ∀ n ∈ l.name?, n.Harmless := by
  have hplain : ∀ {t : PyText}, l = .plain t → ∀ n ∈ l.name?, n.Harmless := by
    intro t heq n hn
    rw [heq] at hn
    exact absurd hn (by simp [PrintedLine.name?])
  cases p with
  | setupCmd a => exact absurd hl List.not_mem_nil
  | completeRq a =>
      rw [Collector.step, Collector.completeRq_eq] at hl
      split_ifs at hl
      · exact hplain (Entry.line.inj (List.mem_singleton.mp hl))
      · exact absurd hl List.not_mem_nil
  | nvmeTimeout a => exact hplain (Entry.line.inj (List.mem_singleton.mp hl))
  | interval =>
      rcases List.mem_append.mp hl with hl | hl
      · obtain ⟨l', hl', heq⟩ := List.mem_map.mp hl
        rw [← Entry.line.inj heq]
        exact harmless_tickLines o hs l' hl'
      · exact absurd (List.mem_singleton.mp hl) (by simp)

/-- The lines of a run have no other line boundary than their line feed. -/
theorem boundary_logText {s : Collector} (hs : s.maps.NamesHarmless)
    {probes : List Probe}
    (hprobes : ∀ p ∈ probes, p.Harmless) :
    ∀ c ∈ logText (s.output o probes), c ≠ '\n' → isLineBoundary c = false := by
  induction probes generalizing s with
  | nil => exact fun c hc => absurd hc List.not_mem_nil
  | cons p probes ih =>
      intro c hc hne
      have hcons : logText (s.output o (p :: probes))
          = logText (s.step o p).2 ++
            logText ((s.step o p).1.output o probes) := logText_append _ _
      rw [hcons] at hc
      rcases List.mem_append.mp hc with hc | hc
      · obtain ⟨e, he, hc⟩ := List.mem_flatMap.mp hc
        have hclean := clean_step o s p e he
        cases e with
        | mark =>
            rcases List.mem_append.mp hc with hc | hc
            · have hmark : ∀ x ∈ tickMarker, isLineBoundary x = false := by
                decide
              exact hmark c hc
            · exact absurd (List.mem_singleton.mp hc) hne
        | line l =>
            rcases List.mem_append.mp hc with hc | hc
            · exact line_not_isLineBoundary hclean (harmless_step o hs p he) c
                hc
            · exact absurd (List.mem_singleton.mp hc) hne
      · exact ih (Collector.namesHarmless_step o hs
          (hprobes p List.mem_cons_self))
          (fun q hq => hprobes q (List.mem_cons_of_mem _ hq)) c hc hne

variable {r} (hr : r.Harmless)

include hr

/-- The only line boundaries of a log are its line feeds. -/
theorem boundary_text :
    ∀ c ∈ decode (r.bytes o), c ≠ '\n' → isLineBoundary c = false := by
  intro c hc hne
  have hfirst : ∀ x ∈ attachedLine, isLineBoundary x = false := by decide
  rcases mem_decode_take hc with hc | rfl
  · rw [decode_entries (clean_runOutput o r.probes)] at hc
    have hcons : logText (runOutput o r.probes)
        = attachedLine ++ ['\n'] ++ logText (Collector.output o {} r.probes) :=
          List.flatMap_cons
    rw [hcons] at hc
    rcases List.mem_append.mp hc with hc | hc
    · rcases List.mem_append.mp hc with hc | hc
      · exact hfirst c hc
      · exact absurd (List.mem_singleton.mp hc) hne
    · exact boundary_logText o namesHarmless_start hr c hc hne
  · decide

/-- **The last complete tick of a run that was cut.** -/
theorem cut_run : ¬ tickMarker <:+: decode (r.bytes o) ∨
    ∃ before after rest, r.probes = before ++ .interval :: after ∧
      r.bytes o = logBytes (runOutput o before) ++
        (tickBytes o (Collector.run o {} before).maps ++ rest) ∧
          ¬ tickMarker <:+: decode rest := by
  have hascii : IsAscii attachedLine := by decide
  unfold bytes
  rw [logBytes_runOutput, List.take_append]
  cases hk : r.cut - (ascii attachedLine).length with
  | zero =>
      left
      rw [List.take_zero, List.append_nil]
      intro hi
      have hbytes := (infix_decode_iff (by decide) (by decide)).mp hi
      exact absurd (hbytes.trans (List.take_prefix _ _).isInfix) (by decide)
  | succ k =>
      rw [List.take_of_length_le (by omega), List.take_succ_cons]
      rcases cut_output o namesHarmless_start hr k with hnone | ⟨before, after,
        rest, heq, hcut, hrest⟩
      · left
        rw [decode_ascii_append hascii]
        have hline :
            decode (newline ::
            (logBytes (Collector.output o {} r.probes)).take k)
            = '\n' :: decode
              ((logBytes (Collector.output o {} r.probes)).take k) :=
          decode_ascii_cut toNat_newline [] _
        have hassoc :
            attachedLine ++ '\n' ::
            decode ((logBytes (Collector.output o {} r.probes)).take k)
            = (attachedLine ++ ['\n']) ++
              decode ((logBytes (Collector.output o {} r.probes)).take k) := by
          simp
        rw [hline, hassoc]
        exact no_marker_append between_attached.endsLine
          between_attached.no_marker hnone
      · right
        refine ⟨before, after, rest, heq, ?_, hrest⟩
        rw [hcut, logBytes_runOutput]
        simp only [List.append_assoc, List.cons_append]

omit hr in
/-- The text of a run, around its last complete tick. -/
theorem text_cut {before : List Probe} {rest : Bytes}
    (h : r.bytes o = logBytes (runOutput o before) ++
      (tickBytes o (Collector.run o {} before).maps ++ rest)) :
    decode (r.bytes o) = logText (runOutput o before) ++
      linesText (tickLines o (Collector.run o {} before).maps) ++ tickMarker ++
        decode rest := by
  rw [h, decode_logBytes (clean_runOutput o before), tickBytes,
    List.append_assoc,
    decode_lines (clean_tickLines o _), decode_ascii_append (by decide)]
  simp only [List.append_assoc]

omit hr in
/-- What a run writes starts with a letter. -/
theorem bytes_start : r.bytes o = [] ∨ ∃ t, r.bytes o = 110 :: t := by
  unfold bytes
  rw [logBytes_runOutput]
  cases r.cut with
  | zero => exact Or.inl List.take_zero
  | succ k => exact Or.inr ⟨_, List.take_succ_cons⟩

omit hr in
/-- A run is decoded on its own. -/
theorem decode_append (a : Bytes) :
    decode (a ++ r.bytes o) = decode a ++ decode (r.bytes o) := by
  rcases bytes_start o (r := r) with h | ⟨t, h⟩
  · have hnil : decode [] = [] := rfl
    rw [h, List.append_nil, hnil, List.append_nil]
  · have hfirst := decode_ascii_cut (c := 110) (by decide) [] t
    rw [List.nil_append] at hfirst
    rw [h, decode_ascii_cut (by decide), hfirst]
    rfl

omit hr in
/-- A log begins with its greeting, as far as that was written. -/
theorem text_first :
    decode (r.bytes o) = [] ∨ ∃ t, decode (r.bytes o) = 'n' :: t := by
  rcases bytes_start o (r := r) with h | ⟨t, h⟩
  · exact Or.inl (by rw [h]; rfl)
  · right
    rw [h]
    exact ⟨_, decode_ascii_cut (c := 110) (by decide) [] t⟩

omit hr in
/-- A run without a complete tick adds to what was unfinished. -/
theorem unfinished_text (x : PyText)
    (h : ¬ tickMarker <:+: decode (r.bytes o)) :
    unfinished (x ++ decode (r.bytes o)) =
      unfinished x ++ decode (r.bytes o) := by
  rcases text_first o (r := r) with hnil | ⟨t, ht⟩
  · rw [hnil, List.append_nil, List.append_nil]
  · rw [ht] at h ⊢
    exact unfinished_append (by decide) fun hi =>
      h (hi.trans (List.suffix_cons _ _).isInfix)

end KilledRun

/-! ### The log of some runs -/

/-- The text leaves nothing for the readers once a run starts behind it. -/
def Calm [UnicodeDb] (x : PyText) : Prop :=
  ∀ z, (∀ c ∈ z, isLineBoundary c = false) →
    Skipped (unfinished x ++ z ++ attachedLine ++ ['\n'])

section

variable [UnicodeDb] (o : PrintOrder)

/-- The start of a log is calm. -/
theorem calm_nil : Calm [] := fun _ hz => skipped_attached hz

omit [UnicodeDb] in
/-- A whole run ends with a line end. -/
theorem endsLine_runOutput (x : PyText) (probes : List Probe) :
    EndsLine (x ++ logText (runOutput o probes)) := by
  have hcons : logText (runOutput o probes)
      = attachedLine ++ ['\n'] ++ logText (Collector.output o {} probes) :=
        List.flatMap_cons
  rw [hcons, ← List.append_assoc, ← List.append_assoc]
  exact EndsLine.append (Or.inr ⟨_, rfl⟩) (endsLine_logText _)

/-- **A run that was killed between two ticks** leaves nothing for the
readers. -/
theorem Calm.append {x : PyText} (hx : Calm x) {r : KilledRun} (hr : r.Harmless)
    (hend : r.EndsBetweenTicks o) : Calm (x ++ decode (r.bytes o)) := by
  intro z hz
  have hbound := KilledRun.boundary_text o hr
  unfold KilledRun.EndsBetweenTicks at hend
  rcases KilledRun.cut_run o hr with hnone | ⟨before, after, rest, -,
    hcut, hrest⟩
  · rw [KilledRun.unfinished_text o x hnone]
    rw [unfinished_of_no_marker hnone] at hend
    rcases r.text_start o with ⟨k, hk⟩ | ⟨t, ht⟩
    · -- The run was killed in its first line.
      have hline : ∀ c ∈ attachedLine.take k ++ z,
          isLineBoundary c = false := by
        intro c hc
        rcases List.mem_append.mp hc with hc | hc
        · have hfirst : ∀ x ∈ attachedLine, isLineBoundary x = false := by
            decide
          exact hfirst c (List.mem_of_mem_take hc)
        · exact hz c hc
      rw [hk, List.append_assoc (unfinished x)]
      exact hx _ hline
    · rw [ht, finishedLines_append] at hend
      rw [ht] at hbound
      have hfirst : Skipped (unfinished x ++ [] ++ attachedLine ++ ['\n']) :=
        hx [] fun c hc => absurd hc List.not_mem_nil
      have hrest : Skipped (t ++ z ++ attachedLine ++ ['\n']) := by
        refine skipped_of_finished (fun hmem => hend ?_) (fun c hc =>
          hbound c ?_) hz
        · exact List.mem_append_right _ (List.mem_cons_of_mem _ hmem)
        · exact List.mem_append_right _ (List.mem_cons_of_mem _ hc)
      have heq : unfinished x ++ decode (r.bytes o) ++ z ++
          attachedLine ++ ['\n']
          = (unfinished x ++ [] ++ attachedLine ++ ['\n']) ++
            (t ++ z ++ attachedLine ++ ['\n']) := by
        rw [ht]
        simp
      rw [heq]
      exact hfirst.append hrest
  · have htext := KilledRun.text_cut o hcut
    have hall : ∀ y, unfinished (y ++ decode (r.bytes o)) = decode rest := by
      intro y
      have hstart := (endsLine_runOutput o y before).append
        (endsLine_linesText (tickLines o (Collector.run o {} before).maps))
      have hassoc :
          y ++ decode (r.bytes o) = (y ++ logText (runOutput o before) ++
          linesText (tickLines o (Collector.run o {} before).maps)) ++
            tickMarker ++ decode rest := by
        rw [htext]
        simp only [List.append_assoc]
      rw [hassoc, unfinished_marker hstart, unfinished_of_no_marker hrest]
    have hown : unfinished (decode (r.bytes o)) = decode rest := hall []
    rw [hown] at hend
    rw [hall]
    refine skipped_of_finished hend (fun c hc => hbound c ?_) hz
    rw [htext]
    exact List.mem_append_right _ hc

/-- The log of some runs, one after the other. -/
def appendedLog (runs : List KilledRun) : Bytes :=
  runs.flatMap (KilledRun.bytes o)

omit [UnicodeDb] in
/-- The log of the runs so far and of one more. -/
theorem appendedLog_concat (runs : List KilledRun) (r : KilledRun) :
    decode (appendedLog o (runs ++ [r])) = decode (appendedLog o runs) ++
      decode (r.bytes o) := by
  unfold appendedLog
  rw [List.flatMap_append, List.flatMap_singleton, KilledRun.decode_append]

/-- **Runs that were killed between two ticks** leave nothing for the
readers. -/
theorem calm_appendedLog {runs : List KilledRun}
    (hnames : ∀ r ∈ runs, r.Harmless)
    (hends : ∀ r ∈ runs, r.EndsBetweenTicks o) :
    Calm (decode (appendedLog o runs)) := by
  induction runs using List.reverseRecOn with
  | nil => exact calm_nil
  | append_singleton runs r ih =>
      rw [appendedLog_concat]
      have hlast : r ∈ runs ++ [r] := List.mem_append_right _ List.mem_cons_self
      exact (ih (fun q hq => hnames q (List.mem_append_left _ hq))
        (fun q hq => hends q (List.mem_append_left _ hq))).append o
          (hnames r hlast) (hends r hlast)

/-- A tick of a run that is whole in what the run has written. -/
structure WrittenTick (runs : List KilledRun) (m : Maps) : Prop where
  printed : ∃ r ∈ runs, ∃ before after,
    r.probes = before ++ .interval :: after ∧
    logBytes (runOutput o before) ++ tickBytes o m <+: r.bytes o ∧
      m = (Collector.run o {} before).maps

omit [UnicodeDb] in
/-- A tick of some runs is one of more runs. -/
theorem WrittenTick.mono {runs runs' : List KilledRun} {m : Maps}
    (h : WrittenTick o runs m)
    (hsub : ∀ r ∈ runs, r ∈ runs') : WrittenTick o runs' m := by
  obtain ⟨r, hr, hrest⟩ := h.printed
  exact ⟨r, hsub r hr, hrest⟩

omit [UnicodeDb] in
/-- A text without a marker completes no tick. -/
theorem lastComplete_append_text {x y : PyText} {c : Char} (hc : c ∉ tickMarker)
    (hy : ¬ tickMarker <:+: y) :
    lastComplete (x ++ c :: y) = lastComplete x := by
  obtain ⟨ps, p, hx, hboth⟩ :=
    splitOn_across tickMarker_ne_nil hc x (splitOn_eq_singleton hy)
  unfold lastComplete
  rw [hx, hboth, List.reverse_append, List.reverse_append]
  cases ps.reverse with
  | nil => rfl
  | cons q qs => rfl

omit [UnicodeDb] in
/-- The names of a tick of a harmless run are harmless. -/
theorem namesHarmless_before {r : KilledRun} (hr : r.Harmless)
    {before after : List Probe}
    (h : r.probes = before ++ .interval :: after) :
    (Collector.run o {} before).maps.NamesHarmless := by
  refine Collector.namesHarmless_run o KilledRun.namesHarmless_start fun p hp =>
    hr p ?_
  rw [h]
  exact List.mem_append_left _ hp

omit [UnicodeDb] in
/-- Lines without a marker are added to what is unfinished. -/
theorem unfinished_lines {x t : PyText} (hx : EndsLine x)
    (ht : ¬ tickMarker <:+: t) :
    unfinished (x ++ t) = unfinished x ++ t := by
  rcases hx with rfl | ⟨s, rfl⟩
  · exact unfinished_of_no_marker ht
  · have hempty : ¬ tickMarker <:+: ([] : PyText) := by decide
    rw [List.append_assoc, List.singleton_append,
      unfinished_append newline_notMem_tickMarker ht,
      unfinished_append newline_notMem_tickMarker hempty, List.append_assoc,
      List.singleton_append]

/-- **What stands before a tick** in its part of the log is passed over. -/
theorem Calm.skips {x : PyText} (hx : Calm x) (before : List Probe) :
    Skipped (unfinished (x ++ logText (runOutput o before))) := by
  have hcons : logText (runOutput o before)
      = attachedLine ++ ['\n'] ++ logText (Collector.output o {} before) :=
        List.flatMap_cons
  rw [hcons]
  have hdecode := decode_entries (clean_output o {} before)
  rcases bytes_output o {} before with hbetween | ⟨w, v, hw, hbytes, -, hv⟩
  · have hline :
        attachedLine ++ ['\n'] ++ logText (Collector.output o {} before)
        = 'n' :: ("vme_perf.bt attached\n".toList ++
          logText (Collector.output o {} before)) := rfl
    rw [hdecode] at hbetween
    have hnone := (between_attached.append hbetween).no_marker
    rw [hline] at hnone ⊢
    rw [unfinished_append (by decide) fun hi =>
      hnone (hi.trans (List.suffix_cons _ _).isInfix), ← hline,
      ← List.append_assoc, ← List.append_assoc]
    have hfirst := hx [] fun c hc => absurd hc List.not_mem_nil
    rw [List.append_nil] at hfirst
    exact hfirst.append hbetween.skipped
  · have hstart : EndsLine (x ++ (attachedLine ++ ['\n']) ++ decode w) :=
      EndsLine.append (Or.inr ⟨x ++ attachedLine, by rw [List.append_assoc]⟩)
        (endsLine_decode hw)
    have htext : logText (Collector.output o {} before) =
        decode w ++ tickMarker ++ '\n' :: decode v := by
      rw [← hdecode, hbytes, decode_afterTick hw]
    have hassoc :
        x ++ (attachedLine ++ ['\n'] ++
        (decode w ++ tickMarker ++ '\n' :: decode v))
        = (x ++ (attachedLine ++ ['\n']) ++ decode w) ++ tickMarker ++
          (['\n'] ++ decode v) := by simp
    have hnewline : Between ['\n'] :=
      between_line (t := []) (by decide) (by decide)
    rw [htext, hassoc, unfinished_marker hstart,
      unfinished_of_no_marker (hnewline.append hv).no_marker]
    exact (hnewline.append hv).skipped

/-- **The last complete tick of a log** is one of one run, behind lines that the
readers pass over. -/
theorem lastComplete_appendedLog {runs : List KilledRun}
    (hnames : ∀ r ∈ runs, r.Harmless)
    (hends : ∀ r ∈ runs.dropLast, r.EndsBetweenTicks o) :
    lastComplete (decode (appendedLog o runs)) = none ∨
      ∃ m, WrittenTick o runs m ∧ ∃ p, Skipped p ∧
        lastComplete (decode (appendedLog o runs)) =
          some (p ++ linesText (tickLines o m)) := by
  induction runs using List.reverseRecOn with
  | nil =>
      have hnil : appendedLog o [] = [] := rfl
      rw [hnil]
      exact Or.inl (by decide)
  | append_singleton runs r ih =>
      have hlast : r ∈ runs ++ [r] := List.mem_append_right _ List.mem_cons_self
      have hearlier : ∀ q ∈ runs, q.Harmless :=
        fun q hq => hnames q (List.mem_append_left _ hq)
      rw [List.dropLast_concat] at hends
      rw [appendedLog_concat]
      rcases KilledRun.cut_run o (hnames r hlast) with hnone | ⟨before, after,
        rest, hprobes, hcut, hrest⟩
      · -- Nothing is complete in the last run, so the tick is one of an earlier run.
        have hsame :
            lastComplete (decode (appendedLog o runs) ++ decode (r.bytes o))
            = lastComplete (decode (appendedLog o runs)) := by
          rcases KilledRun.text_first o (r := r) with hnil | ⟨t, ht⟩
          · rw [hnil, List.append_nil]
          · rw [ht] at hnone ⊢
            exact lastComplete_append_text (by decide)
              fun hi => hnone (hi.trans (List.suffix_cons _ _).isInfix)
        rw [hsame]
        rcases ih hearlier (fun q hq => hends q (List.dropLast_subset _ hq))
          with h | ⟨m, hm, hpart⟩
        · exact Or.inl h
        · exact Or.inr ⟨m, hm.mono o fun q hq => List.mem_append_left _ hq,
            hpart⟩
      · right
        have hcalm := calm_appendedLog o hearlier hends
        have hwritten :
            WrittenTick o (runs ++ [r]) (Collector.run o {} before).maps := by
          refine ⟨r, hlast, before, after, hprobes, ⟨rest, ?_⟩, rfl⟩
          rw [hcut, List.append_assoc]
        refine ⟨_, hwritten, _, hcalm.skips o before, ?_⟩
        have htick := namesHarmless_before o (hnames r hlast) hprobes
        have hstart := endsLine_runOutput o (decode (appendedLog o runs)) before
        have hassoc : decode (appendedLog o runs) ++ decode (r.bytes o)
            = (decode (appendedLog o runs) ++ logText (runOutput o before) ++
              linesText (tickLines o (Collector.run o {} before).maps)) ++
                tickMarker ++ decode rest := by
          rw [KilledRun.text_cut o hcut]
          simp only [List.append_assoc]
        rw [hassoc, lastComplete_eq_unfinished
          (hstart.append (endsLine_linesText _)) hrest,
          unfinished_lines hstart
            (linesText_no_marker (clean_tickLines o _)
            (harmless_tickLines o htick))]

/-! ### What is read -/

/-- `read_process_stats`, from the tick on. -/
def processStatsOf (tick : PyText) (device : Option PyText) :
    Except PyError (List ProcessIoStat) := do
  let procs ← parseTick tick
  match ← wanted device with
  | none => return []
  | some want => processStats procs want

/-- `read_latest_performance`, from the tick on. -/
def performanceOf (tick : PyText) (instanceId : Int) :
    Except PyError (List QueuePerf × Option QueuePerf) := do
  let parsed ← parseSegment tick
  let entries := deviceCounters parsed instanceId
  let buckets := fun (key : Int × Int) => (parsed.hists.get? key).getD []
  let queues ← entries.mapM (fun e => buildQueuePerf e.1.2 e.2 (buckets e.1))
  if queues = [] then return ([], none)
  else
    let aggregate ← buildQueuePerf (-1) (sumCounters (entries.map Prod.snd))
      (mergeBuckets (entries.map (fun e => buckets e.1)))
    return (queues, some aggregate)

/-- The processes that are shown are those of the last complete tick in the
tail. -/
theorem readProcessStats_eq (log : Bytes) (device : Option PyText) :
    readProcessStats (some log) device
    = processStatsOf ((lastComplete (readTail procTailBytes (some log))).getD
      []) device := rfl

/-- The performance that is shown is that of the last complete tick. -/
theorem readLatestPerformance_some (log : Bytes) (c : Int) :
    readLatestPerformance (some log) c
    = performanceOf ((lastComplete (readAll (some log))).getD []) c := by
  have hparse : parseLastCompleteTick (readAll (some log))
      = parseSegment ((lastComplete (readAll (some log))).getD []) := by
    unfold parseLastCompleteTick
    cases lastComplete (readAll (some log)) with
    | none => rfl
    | some part => rfl
  unfold readLatestPerformance performanceOf
  rw [if_neg (by simp), hparse]

/-- The log is read as if it held the tick alone: its queues always, and its
processes if the tail that is read reaches back to the tick. -/
structure ReadsTick (log : Bytes) (tick : PyText) : Prop where
  performance : ∀ c, readLatestPerformance (some log) c = performanceOf tick c
  processes : InTail procTailBytes log →
    ∀ device, readProcessStats (some log) device = processStatsOf tick device

/-- What is read is one complete tick of one run, and nothing if there is no
complete tick. -/
def ReadsOneTick (runs : List KilledRun) : Prop :=
  (∃ m, WrittenTick o runs m ∧
    ReadsTick (appendedLog o runs) (linesText (tickLines o m))) ∨
    (∀ m, ¬ WrittenTick o runs m) ∧ ReadsTick (appendedLog o runs) []

/-- Behind lines that are passed over the tick is read alone. -/
theorem Skipped.reads_eq {p : PyText} (h : Skipped p) (t : PyText) :
    (∀ c, performanceOf (p ++ t) c = performanceOf t c) ∧
      ∀ device, processStatsOf (p ++ t) device = processStatsOf t device := by
  obtain ⟨hsegment, htick⟩ := h.parse_eq t
  refine ⟨fun c => ?_, fun device => ?_⟩
  · unfold performanceOf
    rw [hsegment]
  · unfold processStatsOf
    rw [htick]

omit [UnicodeDb] in
/-- The only line boundaries of an appended log are its line feeds. -/
theorem boundary_appendedLog {runs : List KilledRun}
    (hnames : ∀ r ∈ runs, r.Harmless) :
    ∀ c ∈ decode (appendedLog o runs), c ≠ '\n' → isLineBoundary c = false := by
  induction runs using List.reverseRecOn with
  | nil => exact fun c hc => absurd hc List.not_mem_nil
  | append_singleton runs r ih =>
      intro c hc
      rw [appendedLog_concat] at hc
      rcases List.mem_append.mp hc with hc | hc
      · exact ih (fun q hq => hnames q (List.mem_append_left _ hq)) c hc
      · exact KilledRun.boundary_text o
          (hnames r (List.mem_append_right _ List.mem_cons_self)) c hc

omit [UnicodeDb] in
/-- So an appended log is read as it is. -/
theorem readAll_appendedLog {runs : List KilledRun}
    (hnames : ∀ r ∈ runs, r.Harmless) :
    readAll (some (appendedLog o runs)) = decode (appendedLog o runs) := by
  rw [readAll_some]
  refine universalNewlines_of_no_cr fun hmem => ?_
  exact absurd (boundary_appendedLog o hnames '\r' hmem (by decide)) (by decide)

omit [UnicodeDb] in
/-- A tick that was written completes a part of the log. -/
theorem WrittenTick.complete {runs : List KilledRun} {m : Maps}
    (h : WrittenTick o runs m) :
    lastComplete (decode (appendedLog o runs)) ≠ none := by
  obtain ⟨r, hr, before, after, -, hfront, -⟩ := h.printed
  have hin : ascii tickMarker <:+: appendedLog o runs := by
    have hrun : r.bytes o <:+: appendedLog o runs := by
      obtain ⟨pre, post, rfl⟩ := List.append_of_mem hr
      unfold appendedLog
      rw [List.flatMap_append, List.flatMap_cons]
      exact ⟨_, _, List.append_assoc _ _ _⟩
    have htick :
        ascii tickMarker <:+ logBytes (runOutput o before) ++
        tickBytes o m := by
      unfold tickBytes
      exact (List.suffix_append _ _).trans (List.suffix_append _ _)
    exact htick.isInfix.trans (hfront.isInfix.trans hrun)
  have hmark : tickMarker <:+: decode (appendedLog o runs) :=
    (infix_decode_iff (by decide) (by decide)).mpr hin
  unfold lastComplete
  cases hparts : (splitOn tickMarker (decode (appendedLog o runs))).reverse with
  | nil =>
      exact absurd (List.reverse_eq_nil_iff.mp hparts) (splitGo_ne_nil _ _ _)
  | cons last parts =>
      cases parts with
      | nil =>
          exact absurd (List.reverse_eq_cons_iff.mp hparts)
            (splitOn_ne_singleton tickMarker_ne_nil hmark last)
      | cons part parts => simp

/-- **A tick is no mixture of two runs** if no run was killed within a tick,
once a line of it was written. -/
theorem reads_one_tick {runs : List KilledRun} (hnames : ∀ r ∈ runs, r.Harmless)
    (hends : ∀ r ∈ runs.dropLast, r.EndsBetweenTicks o) :
    ReadsOneTick o runs := by
  have hall := readAll_appendedLog o hnames
  rcases lastComplete_appendedLog o hnames hends
    with hnone | ⟨m, hm, p, hp, hpart⟩
  · right
    refine ⟨fun m hm => hm.complete o hnone, fun c => ?_, fun hin device => ?_⟩
    · rw [readLatestPerformance_some, hall, hnone]
      rfl
    · rw [readProcessStats_eq, lastComplete_readTail hin, hnone]
      rfl
  · left
    obtain ⟨hperformance, hprocesses⟩ := hp.reads_eq (linesText (tickLines o m))
    refine ⟨m, hm, fun c => ?_, fun hin device => ?_⟩
    · rw [readLatestPerformance_some, hall, hpart]
      exact hperformance c
    · rw [readProcessStats_eq, lastComplete_readTail hin, hpart]
      exact hprocesses device

end

section

attribute [local instance] UnicodeDb.ascii

/-- The name `x`. -/
def nameX : Comm := ⟨[120], by decide, by decide⟩

/-- A flush submitted by the process 7. -/
def flushOf7 : SetupCmd where
  nsecs := 1
  ctrl := 0
  qid := 1
  cid := 5
  opcode := 0
  flags := 0
  nsid := 1
  cdw10 := fun _ => 0
  pid := 7
  tid := 7
  comm := nameX

/-- The flush, and a second passes. -/
def oneFlush : List Probe := [.setupCmd flushOf7, .interval]

/-- A flush submitted by the process 8. -/
def flushOf8 : SetupCmd := { flushOf7 with pid := 8 }

/-- The flush, and a second passes. -/
def otherFlush : List Probe := [.setupCmd flushOf8, .interval]

/-- The bytes of the first line of a run. -/
def firstLine : Nat := (ascii attachedLine).length + 1

/-- The first run is killed some bytes into its tick. -/
def tornRuns (k : Nat) : List KilledRun :=
  [⟨oneFlush, firstLine + k⟩, ⟨otherFlush, 1000⟩]

/-- The names of the sample are harmless. -/
theorem harmless_flushes : ∀ p ∈ oneFlush ++ otherFlush, p.Harmless := by
  have hx : nameX.Harmless := ⟨by decide, by decide⟩
  intro p hp
  simp only [oneFlush, otherFlush, List.cons_append, List.nil_append,
    List.mem_cons, List.not_mem_nil,
    or_false] at hp
  rcases hp with rfl | rfl | rfl | rfl
  · exact hx
  · trivial
  · exact hx
  · trivial

/-- So are those of its runs. -/
theorem harmless_tornRuns (k : Nat) : ∀ r ∈ tornRuns k, r.Harmless := by
  intro r hr p hp
  rcases List.mem_cons.mp hr with rfl | hr
  · exact harmless_flushes p (List.mem_append_left _ hp)
  · rw [List.mem_singleton.mp hr] at hp
    exact harmless_flushes p (List.mem_append_right _ hp)

theorem reads_one_tick_tornLine : ReadsOneTick .inserted (tornRuns 14) ∧
    InTail procTailBytes (appendedLog .inserted (tornRuns 14)) := by
  refine ⟨reads_one_tick .inserted (harmless_tornRuns 14) (fun r hr => ?_),
    Or.inl (by decide +kernel)⟩
  have hfirst : r = ⟨oneFlush, firstLine + 14⟩ := List.mem_singleton.mp hr
  rw [hfirst]
  unfold KilledRun.EndsBetweenTicks
  decide +kernel

/-- The torn line is that of a process, which the next run's tick does not
show. -/
theorem counts_tornTick :
    (readProcessStats (some (appendedLog .inserted (tornRuns 22)))
      none).toOption.map List.length = some 2 ∧
      (processStatsOf (linesText (tickLines .inserted
        (Collector.run .inserted {} [.setupCmd flushOf7]).maps))
          none).toOption.map List.length = some 1 ∧
      (processStatsOf
        (linesText (tickLines .inserted (Collector.run .inserted {}
        [.setupCmd flushOf8]).maps)) none).toOption.map List.length = some 1 ∧
      (processStatsOf [] none).toOption.map List.length = some 0 := by
  decide +kernel

/-- The sample has one tick, after its flush. -/
theorem before_of_pair {a : SetupCmd} {before after : List Probe}
    (h : [.setupCmd a, .interval] = before ++ .interval :: after) :
    before = [.setupCmd a] := by
  rcases before with _ | ⟨p, _ | ⟨q, before⟩⟩
  · exact absurd (List.cons.inj h).1 (by simp)
  · rw [(List.cons.inj h).1]
  · obtain ⟨-, hrest⟩ := List.cons.inj h
    obtain ⟨-, hnil⟩ := List.cons.inj hrest
    exact absurd hnil.symm (by simp)

/-- The processes of both runs are read from one tick. -/
theorem two_runs_mixed : ¬ ∀ runs : List KilledRun, (∀ r ∈ runs, r.Harmless) →
    InTail procTailBytes (appendedLog .inserted runs) →
      ReadsOneTick .inserted runs := by
  intro hall
  have hin : InTail procTailBytes (appendedLog .inserted (tornRuns 22)) :=
    Or.inl (by decide +kernel)
  obtain ⟨hlog, hseven, height, hnone⟩ := counts_tornTick
  rcases hall (tornRuns 22) (harmless_tornRuns 22) hin
    with ⟨m, hm, hreads⟩ | ⟨-, hreads⟩
  · have hcount := hreads.processes hin none
    obtain ⟨r, hr, before, after, hprobes, -, rfl⟩ := hm.printed
    rw [hcount] at hlog
    rcases List.mem_cons.mp hr with rfl | hr
    · rw [before_of_pair hprobes, hseven] at hlog
      exact absurd hlog (by decide)
    · rw [List.mem_singleton.mp hr] at hprobes
      rw [before_of_pair hprobes, height] at hlog
      exact absurd hlog (by decide)
  · rw [hreads.processes hin none, hnone] at hlog
    exact absurd hlog (by decide)

end

end Telemetryd
