import Telemetryd.CollectorSteps
import Telemetryd.ErrorLines

/-!
# The totals of the last tick

`read_error_stats` parses all of the tail of the log and lets later lines
overwrite earlier ones.  So it reports the counters of the last complete tick
if nothing else of the controller is left over: no key before the tick that the
tick does not have any more, and no line behind it that says something new.
-/

namespace Telemetryd

open PyText Regex Utf8

/-! ### Every part of a log can be read -/

/-- A line has no line feed in it. -/
theorem notMem_of_mem_splitlines {l t : PyText} (h : l ∈ splitlines t) :
    '\n' ∉ l := by
  induction t generalizing l with
  | nil => exact absurd h List.not_mem_nil
  | cons c t ih =>
      rw [splitlines] at h
      split_ifs at h with hcr hboundary
      · exact ih h
      · rcases List.mem_cons.mp h with rfl | h
        · exact List.not_mem_nil
        · exact ih h
      · cases hlines : splitlines t with
        | nil =>
            rw [hlines] at h
            rw [List.mem_singleton.mp h]
            intro hmem
            rw [← List.mem_singleton.mp hmem] at hboundary
            exact hboundary isLineBoundary_newline
        | cons first rest =>
            rw [hlines] at h
            rcases List.mem_cons.mp h with rfl | h
            · intro hmem
              rcases List.mem_cons.mp hmem with heq | hmem
              · rw [← heq] at hboundary
                exact hboundary isLineBoundary_newline
              · exact ih (hlines ▸ List.mem_cons_self) hmem
            · exact ih (hlines ▸ List.mem_cons_of_mem _ h)

/-- A text without a line feed comes from bytes without one. -/
theorem infix_decode_line (b : Bytes) {l : PyText} (hl : '\n' ∉ l)
    (h : l <:+: decode b) :
    ∃ c, c <:+: b ∧ newline ∉ c ∧ l <:+: decode c := by
  by_cases hmem : newline ∈ b
  · obtain ⟨c, d, rfl, hc⟩ := List.eq_append_cons_of_mem hmem
    rw [decode_ascii_cut toNat_newline] at h
    rcases infix_append_cons hl h with h | h
    · exact ⟨c, (List.prefix_append _ _).isInfix, hc, h⟩
    · have hlt : d.length < (c ++ newline :: d).length := by simp; omega
      obtain ⟨e, he, hno, hle⟩ := infix_decode_line d hl h
      exact ⟨e, he.trans
        ((List.suffix_cons _ _).trans (List.suffix_append _ _)).isInfix,
        hno, hle⟩
  · exact ⟨b, List.infix_rfl, hmem, h⟩
termination_by b.length

section

variable [UnicodeDb]

/-- Every part of the text can be read. -/
def Docile (t : PyText) : Prop := ∀ l, l <:+: t → Readable l

/-- A short line is docile. -/
theorem docile_of_length {t : PyText} (h : t.length ≤ maxStrDigits) :
    Docile t := by
  intro l hl groups hgroups g hg
  have hmem := List.mem_of_mem_head? hgroups
  have hstrip := (infix_of_strip l).length_le
  have hline := hl.length_le
  have hgroup := length_le_of_mem_run hmem g hg
  omega

/-- So is a line without an error entry. -/
theorem docile_of_noErr {t : PyText} (h : NoErr t) : Docile t := by
  intro l hl groups hgroups
  obtain ⟨z, hz, hi⟩ := errHead_of_match hgroups
  exact absurd (hi.trans ((infix_of_strip l).trans hl)) (h z hz)

/-- The lines of an entry can be read, also when it is cut. -/
def Entry.Docile (e : Entry) : Prop :=
  ∃ body, e.bytes = body ++ [newline] ∧ ∀ c, c <:+: body → newline ∉ c →
    Telemetryd.Docile (decode c)

/-- The parts of a line of a log are docile if its entries are. -/
theorem docile_logBytes {es : List Entry} (h : ∀ e ∈ es, e.Docile) {c : Bytes}
    (hc : c <:+: logBytes es) (hno : newline ∉ c) : Docile (decode c) := by
  induction es with
  | nil =>
      rw [List.infix_nil.mp hc]
      intro l hl
      rw [List.infix_nil.mp hl]
      exact docile_of_length (by decide) [] List.infix_rfl
  | cons e es ih =>
      obtain ⟨body, hbytes, hbody⟩ := h e List.mem_cons_self
      have hsplit : logBytes (e :: es) = body ++ newline :: logBytes es := by
        rw [logBytes, List.flatMap_cons, hbytes, List.append_assoc]
        rfl
      rw [hsplit] at hc
      rcases infix_append_cons hno hc with hc | hc
      · exact hbody c hc hno
      · exact ih (fun e' he' => h e' (List.mem_cons_of_mem _ he')) hc

/-- **Any part of a log can be read.** -/
theorem readable_of_infix {es : List Entry} (h : ∀ e ∈ es, e.Docile) {b : Bytes}
    (hb : b <:+: logBytes es) : ∀ l ∈ splitlines (decode b), Readable l := by
  intro l hl
  obtain ⟨c, hc, hno, hline⟩ :=
    infix_decode_line b (notMem_of_mem_splitlines hl)
    (infix_of_mem_splitlines hl)
  exact docile_logBytes h (hc.trans hb) hno l hline

/-! ### What the collector prints can be read -/

omit [UnicodeDb] in
/-- A part of ASCII bytes is a part of the text. -/
theorem infix_ascii {t : PyText} (ht : IsAscii t) {c : Bytes}
    (h : c <:+: ascii t) : decode c <:+: t := by
  obtain ⟨x, y, hxy⟩ := h
  obtain ⟨front, back, rfl, hfront, hback⟩ := List.map_eq_append_iff.mp hxy.symm
  obtain ⟨first, middle, rfl, hfirst, hmiddle⟩ :=
    List.map_eq_append_iff.mp hfront
  have hascii : IsAscii middle :=
    fun d hd => ht d (List.mem_append_left _ (List.mem_append_right _ hd))
  have hdecode : decode c = middle := by
    rw [← hmiddle]
    exact decode_ascii hascii
  rw [hdecode]
  exact ⟨first, back, rfl⟩

/-- A docile line is a docile entry. -/
theorem docile_plain {t : PyText} (ht : IsAscii t) (h : Docile t) :
    (Entry.line (.plain t)).Docile :=
  ⟨ascii t, rfl, fun _ hc _ l hl => h l (hl.trans (infix_ascii ht hc))⟩

/-- A short line with a name is a docile entry. -/
theorem docile_named {front back : PyText} {comm : Comm}
    (h : (PrintedLine.named front comm back).bytes.length ≤ maxStrDigits) :
    (Entry.line (.named front comm back)).Docile := by
  refine ⟨_, rfl, fun c hc _ => docile_of_length ?_⟩
  exact (length_decode_le c).trans (hc.length_le.trans h)

/-- The marker is a docile entry. -/
theorem docile_mark : Entry.mark.Docile :=
  ⟨ascii tickMarker, rfl, fun _ hc _ l hl =>
    docile_of_noErr (noErr_of_no_at (by decide)) l
      (hl.trans (infix_ascii (by decide) hc))⟩

end

/-- A key is printed in 20 characters. -/
theorem length_ofInt_key (k : Int64) : (ofInt k.toInt).length ≤ 20 := by
  have hsmall : k.toInt.natAbs < 10 ^ 19 := by
    have h1 := k.le_toInt
    have h2 := k.toInt_lt
    omega
  have hlen := (length_ofNat_le_iff (by decide)).mpr hsmall
  have hsign : ∀ i : Int, (ofInt i).length ≤ (ofNat i.natAbs).length + 1 := by
    intro i
    cases i with
    | ofNat n => exact Nat.le_succ _
    | negSucc n => exact le_rfl
  exact (hsign _).trans (by omega)

/-- The keys of an entry are short. -/
theorem length_keyText_le (ks : List Int64) :
    (keyText ks).length ≤ 22 * ks.length := by
  induction ks with
  | nil => simp [keyText]
  | cons k ks ih =>
      have hkey := length_ofInt_key k
      cases ks with
      | nil => simpa [keyText] using hkey.trans (by omega)
      | cons k' ks =>
          have hlit : ", ".toList.length = 2 := rfl
          simp only [keyText, List.length_append, List.length_cons,
            hlit] at ih ⊢
          omega

/-- Two texts without an at sign. -/
theorem at_notMem_append {s t : PyText} (hs : '@' ∉ s) (ht : '@' ∉ t) :
    '@' ∉ s ++ t := by
  rw [List.mem_append, not_or]
  exact ⟨hs, ht⟩

/-- The line of an error has no at sign. -/
theorem Collector.at_notMem_errorLine (s : Collector) (a : CompleteRq) :
    '@' ∉ s.errorLine a := by
  unfold errorLine errorEventLine
  repeat' apply at_notMem_append
  all_goals first
    | exact at_notMem_ofInt _
    | decide

/-- The line of a timeout has no at sign. -/
theorem Collector.at_notMem_timeoutLine (s : Collector) (a : NvmeTimeout) :
    '@' ∉ s.timeoutLine a := by
  unfold timeoutLine timeoutEventLine
  repeat' apply at_notMem_append
  all_goals first
    | exact at_notMem_ofInt _
    | decide

/-- A word is printed in 20 characters. -/
theorem length_word_le (v : UInt64) : (ofNat v.toNat).length ≤ 20 :=
  (length_ofNat_le_iff (by decide)).mpr (v.toNat_lt.trans (by decide))

section

variable [UnicodeDb] (o : PrintOrder) {tick : Nat}

/-- The line of an error counter is docile. -/
theorem docile_errCount (a b c : Int64) (v : UInt64) :
    Docile (mapLine "err_count".toList [a, b, c] v) := by
  have hkeys := length_keyText_le [a, b, c]
  have hword := length_word_le v
  have hname : "err_count".toList.length = 9 := rfl
  have hlit : "]: ".toList.length = 3 := rfl
  have hmax : maxStrDigits = 4300 := rfl
  refine docile_of_length ?_
  simp only [mapLine, List.length_append, List.length_cons, List.length_nil,
    hname, hlit] at hkeys ⊢
  omega

/-- So is a line with a name, which is short. -/
theorem docile_commLine {name : PyText} (hname : name.length ≤ 100)
    {ks : List Int64}
    (hks : ks.length ≤ 3) (comm : Comm) (v : UInt64) :
    (Entry.line (commLine name ks comm v)).Docile := by
  have hkeys := length_keyText_le ks
  have hword := length_word_le v
  have hcomm := comm.length_le
  have hlit : ": ".toList.length = 2 := rfl
  have hmax : maxStrDigits = 4300 := rfl
  refine docile_named ?_
  simp only [PrintedLine.bytes, ascii, List.length_append, List.length_map,
    List.length_cons,
    List.length_nil, hlit]
  omega

/-- A clean line without an error entry is docile. -/
theorem docile_of_noErr_line {t : PyText} (ht : CleanText t)
    (h : NoErr (t ++ ['\n'])) :
    (Entry.line (.plain t)).Docile :=
  docile_plain ht.isAscii
    (docile_of_noErr (h.of_infix (List.prefix_append _ _).isInfix))

/-- The lines of a map with two keys are docile. -/
theorem docile_print2 {name : PyText} (hclean : CleanText name)
    (h : OtherMap name) (d : Counters Key2) :
    ∀ l ∈ print2 o tick name d, (Entry.line l).Docile := by
  intro l hl
  obtain ⟨e, -, rfl⟩ := List.mem_map.mp hl
  exact docile_of_noErr_line (cleanText_mapLine hclean _ _)
    (noErr_mapLine h _ _)

/-- So are those of another map with three. -/
theorem docile_print3 {name : PyText} (hclean : CleanText name)
    (h : OtherMap name) (d : Counters Key3) :
    ∀ l ∈ print3 o tick name d, (Entry.line l).Docile := by
  intro l hl
  obtain ⟨e, -, rfl⟩ := List.mem_map.mp hl
  exact docile_of_noErr_line (cleanText_mapLine hclean _ _)
    (noErr_mapLine h _ _)

/-- So are those of a histogram. -/
theorem docile_printHist {name : PyText} (hclean : CleanText name)
    (h : OtherMap name)
    (d : OrderedDict Key2 Hist) :
    ∀ l ∈ printHist o tick name d, (Entry.line l).Docile := by
  intro l hl
  obtain ⟨e, -, hl⟩ := List.mem_flatMap.mp hl
  obtain ⟨t, ht, rfl⟩ := List.mem_map.mp hl
  exact docile_of_noErr_line (cleanText_histLines hclean _ _ t ht)
    (noErr_histLines h _ _ t ht)

/-- The lines of a tick can be read. -/
theorem docile_tickLines (m : Maps) :
    ∀ l ∈ tickLines o m, (Entry.line l).Docile := by
  have hother : ∀ {c : Char} {x : PyText}, c ≠ 'e' ∧ '@' ∉ c :: x →
      OtherMap (c :: x) :=
    fun h => ⟨_, _, rfl, h⟩
  unfold tickLines
  simp only [List.forall_mem_append]
  refine ⟨⟨⟨⟨⟨⟨⟨⟨⟨⟨⟨⟨⟨⟨⟨⟨⟨⟨?_, ?_⟩, ?_⟩, ?_⟩, ?_⟩, ?_⟩, ?_⟩, ?_⟩, ?_⟩, ?_⟩, ?_⟩,
    ?_⟩, ?_⟩, ?_⟩,
    ?_⟩, ?_⟩, ?_⟩, ?_⟩, ?_⟩
  case refine_7 => exact docile_printHist o (by decide) (hother (by decide)) _
  case refine_8 =>
    intro l hl
    obtain ⟨e, -, rfl⟩ := List.mem_map.mp hl
    exact docile_plain (cleanText_mapLine (by decide) _ _).isAscii
      (docile_errCount _ _ _ _)
  case refine_9 =>
    intro l hl
    obtain ⟨e, -, rfl⟩ := List.mem_map.mp hl
    exact docile_commLine (by decide) (by simp) _ _
  case refine_19 =>
    intro l hl
    obtain ⟨e, -, rfl⟩ := List.mem_map.mp hl
    exact docile_commLine (by decide) (by simp) _ _
  all_goals first
    | exact docile_print2 o (by decide) (hother (by decide)) _
    | exact docile_print3 o (by decide) (hother (by decide)) _

/-- So is a clean line without an at sign. -/
theorem docile_of_no_at {t : PyText} (hclean : CleanText t) (h : '@' ∉ t) :
    (Entry.line (.plain t)).Docile :=
  docile_plain hclean.isAscii (docile_of_noErr (noErr_of_no_at h))

/-- So is the line of an error. -/
theorem docile_errorLine (s : Collector) (a : CompleteRq) :
    (Entry.line (.plain (s.errorLine a))).Docile :=
  docile_of_no_at (cleanText_errorEventLine _ _ _ _ _ _ _ _ _ _ _ _ _ _ _ _ _ _)
    (s.at_notMem_errorLine a)

/-- So is the line of a timeout. -/
theorem docile_timeoutLine (s : Collector) (a : NvmeTimeout) :
    (Entry.line (.plain (s.timeoutLine a))).Docile :=
  docile_of_no_at (cleanText_timeoutEventLine _ _ _ _ _ _ _ _ _ _ _ _ _ _)
    (s.at_notMem_timeoutLine a)

/-- What a step writes is docile. -/
theorem docile_step (s : Collector) (p : Probe) :
    ∀ e ∈ (s.step o p).2, e.Docile := by
  intro e he
  cases p with
  | setupCmd a => exact absurd he List.not_mem_nil
  | completeRq a =>
      rw [Collector.step, Collector.completeRq_eq] at he
      split_ifs at he
      · rw [List.mem_singleton.mp he]
        exact docile_errorLine s a
      · exact absurd he List.not_mem_nil
  | nvmeTimeout a =>
      rw [List.mem_singleton.mp he]
      exact docile_timeoutLine s a
  | interval =>
      rcases List.mem_append.mp he with he | he
      · obtain ⟨l, hl, rfl⟩ := List.mem_map.mp he
        exact docile_tickLines o s.maps l hl
      · rw [List.mem_singleton.mp he]
        exact docile_mark

/-- What a run writes is docile. -/
theorem docile_output (probes : List Probe) (s : Collector) :
    ∀ e ∈ s.output o probes, e.Docile := by
  induction probes generalizing s with
  | nil => exact fun e he => absurd he List.not_mem_nil
  | cons p probes ih =>
      intro e he
      rcases List.mem_append.mp he with he | he
      · exact docile_step o s p e he
      · exact ih _ e he

/-- **What a run prints can be read.** -/
theorem docile_runOutput (probes : List Probe) :
    ∀ e ∈ runOutput o probes, e.Docile := by
  intro e he
  rcases List.mem_cons.mp he with rfl | he
  · exact docile_of_no_at (show CleanText attachedLine by decide) (by decide)
  · exact docile_output o probes {} e he

end

/-! ### A tick in the log of some runs -/

/-- The bytes of a tick, up to the end of its marker. -/
def tickBytes (o : PrintOrder) (m : Maps) : Bytes :=
  logBytes ((tickLines o m).map Entry.line) ++ ascii tickMarker

/-- A tick of one of some runs: the runs before it, the probes of the run before
and after the tick, and the runs after it. -/
structure TickOfRuns where
  done : List (List Probe)
  before : List Probe
  after : List Probe
  later : List (List Probe)

namespace TickOfRuns

variable (o : PrintOrder) (t : TickOfRuns)

/-- The runs before the tick's, the tick's own and those after it. -/
def runs : List (List Probe) :=
  t.done ++ (t.before ++ .interval :: t.after) :: t.later

/-- The log of the runs, cut at a byte. -/
def log (n : Nat) : Bytes := (logBytes (t.runs.flatMap (runOutput o))).take n

/-- The collector when the tick is printed. -/
def collector : Collector := Collector.run o {} t.before

/-- What was printed before the tick. -/
def front : List Entry := t.done.flatMap (runOutput o) ++ runOutput o t.before

/-- What is printed after the tick. -/
def rest : List Entry :=
  (((t.collector o).step o .interval).1).output o t.after ++
    t.later.flatMap (runOutput o)

/-- The end of the tick in the log. -/
def tickEnd : Nat :=
  (logBytes (t.front o)).length + (tickBytes o (t.collector o).maps).length

/-- The tick is the last one that is complete in the log cut at a byte. -/
structure IsLast (n : Nat) : Prop where
  complete : t.tickEnd o ≤ n
  last : ∀ i, (t.rest o)[i]? = some .mark →
    n < t.tickEnd o +
      (1 + (logBytes ((t.rest o).take i)).length + tickMarker.length)

/-- What the log has behind the tick. -/
def behind (n : Nat) : Bytes :=
  (newline :: logBytes (t.rest o)).take (n - t.tickEnd o)

/-- What the tail of the log has before the tick. -/
def ahead (n : Nat) : Bytes :=
  (logBytes (t.front o)).drop ((t.log o n).length - errTailBytes)

/-- The tick lies inside the tail. -/
def InTail (n : Nat) : Prop :=
  (tickBytes o (t.collector o).maps ++ t.behind o n).length ≤ errTailBytes

/-- The log of the runs is what is before the tick, the tick and the rest. -/
theorem logBytes_runs :
    logBytes (t.runs.flatMap (runOutput o)) = logBytes (t.front o) ++
    (tickBytes o (t.collector o).maps ++ (newline :: logBytes (t.rest o))) := by
  have hout : Collector.output o {} (t.before ++ .interval :: t.after)
      = Collector.output o {} t.before ++
        (((t.collector o).step o .interval).2 ++
        ((t.collector o).step o .interval).1.output o t.after) :=
    Collector.output_append o {} t.before (.interval :: t.after)
  have htick : ((t.collector o).step o .interval).2
      = (tickLines o (t.collector o).maps).map Entry.line ++ [Entry.mark] := rfl
  have hmark : logBytes [Entry.mark] = ascii tickMarker ++ [newline] := rfl
  have hrun : runOutput o (t.before ++ .interval :: t.after) =
      runOutput o t.before ++
      ((tickLines o (t.collector o).maps).map Entry.line ++ [Entry.mark] ++
        ((t.collector o).step o .interval).1.output o t.after) := by
    rw [runOutput, hout, htick, runOutput, List.cons_append]
  unfold runs front rest tickBytes
  rw [List.flatMap_append, List.flatMap_cons, hrun]
  simp only [logBytes_append, hmark]
  simp only [List.append_assoc, List.cons_append, List.nil_append]

/-- A log that is cut after the tick. -/
theorem log_eq {n : Nat} (h : t.tickEnd o ≤ n) :
    t.log o n = logBytes (t.front o) ++
    (tickBytes o (t.collector o).maps ++ t.behind o n) := by
  unfold log behind
  rw [logBytes_runs, ← List.append_assoc, List.take_append, ← List.append_assoc,
    List.take_of_length_le (by rw [List.length_append]; exact h),
    List.length_append]
  rfl

/-- **The text of the tail.** -/
theorem readTail_eq {n : Nat} (h : t.tickEnd o ≤ n) (hin : t.InTail o n) :
    readTail errTailBytes (some (t.log o n)) = decode (t.ahead o n) ++
      (linesText (tickLines o (t.collector o).maps) ++
        (tickMarker ++ decode (t.behind o n))) := by
  have hlen : (t.log o n).length - errTailBytes ≤
      (logBytes (t.front o)).length := by
    rw [log_eq o t h, List.length_append]
    unfold InTail at hin
    omega
  have htail : readTail errTailBytes (some (t.log o n))
      = decode ((t.log o n).drop ((t.log o n).length - errTailBytes)) := by
    change decode (if (t.log o n).length > errTailBytes then _ else _) = _
    split_ifs with hsize
    · rfl
    · rw [Nat.sub_eq_zero_of_le (by omega), List.drop_zero]
  have hcut : (t.log o n).drop ((t.log o n).length - errTailBytes)
      = t.ahead o n ++ (tickBytes o (t.collector o).maps ++ t.behind o n) := by
    conv_lhs => rw [log_eq o t h]
    rw [List.drop_append_of_le_length (by rw [← log_eq o t h]; exact hlen)]
    unfold ahead
    rw [← log_eq o t h]
  have hclean : ∀ e ∈ (tickLines o (t.collector o).maps).map Entry.line,
      e.Clean := by
    intro e he
    obtain ⟨l, hl, rfl⟩ := List.mem_map.mp he
    exact clean_tickLines o _ l hl
  have hlines := logText_lines (tickLines o (t.collector o).maps) []
  rw [List.append_nil] at hlines
  have hstart : AtLineStart (t.ahead o n) := (atLineStart_logBytes _).drop _
  rw [htail, hcut, decode_atLineStart hstart, tickBytes, List.append_assoc,
    decode_logBytes hclean, hlines, decode_ascii_append (by decide)]
  simp [logText]

section

variable [UnicodeDb]

/-- What the runs write is docile. -/
theorem docile_runs (runs : List (List Probe)) :
    ∀ e ∈ runs.flatMap (runOutput o), e.Docile := by
  intro e he
  obtain ⟨probes, -, he⟩ := List.mem_flatMap.mp he
  exact docile_runOutput o probes e he

/-- The tail can be read. -/
theorem readable_tail (n : Nat) :
    ∀ l ∈ splitlines (readTail errTailBytes (some (t.log o n))),
      Readable l := by
  have hinfix : t.log o n <:+: logBytes (t.runs.flatMap (runOutput o)) :=
    (List.take_prefix _ _).isInfix
  change ∀ l ∈ splitlines
      (decode (if (t.log o n).length > errTailBytes then _ else _)), Readable l
  split_ifs
  · exact readable_of_infix (docile_runs o t.runs)
      ((List.drop_suffix _ _).isInfix.trans hinfix)
  · exact readable_of_infix (docile_runs o t.runs) hinfix

/-- The entries behind the marker of a tick. -/
theorem errEntries_behind {n : Nat} :
    errEntries (tickMarker ++ decode (t.behind o n))
    = errEntries (decode (t.behind o n)) := by
  have hmark : errEntries tickMarker = [] :=
    errEntries_of_noErr (noErr_of_no_at (by decide))
  have hmarkLine : errEntries (tickMarker ++ ['\n']) = [] :=
    errEntries_of_noErr (noErr_of_no_at (by decide))
  have hbreak : errEntries ['\n'] = [] :=
    errEntries_of_noErr (noErr_of_no_at (by decide))
  unfold behind
  cases n - t.tickEnd o with
  | zero =>
      rw [List.take_zero]
      change errEntries (tickMarker ++ []) = []
      rw [List.append_nil, hmark]
  | succ k =>
      have hline : decode ((newline :: logBytes (t.rest o)).take (k + 1))
          = '\n' :: decode ((logBytes (t.rest o)).take k) := by
        rw [List.take_succ_cons]
        exact decode_ascii_cut toNat_newline [] _
      have hfirst :=
        errEntries_append [] (decode ((logBytes (t.rest o)).take k))
      rw [List.nil_append, List.nil_append, hbreak, List.nil_append] at hfirst
      rw [hline, errEntries_append, hmarkLine, List.nil_append, hfirst]

/-- The entries in front of the start of a line. -/
theorem errEntries_atLineStart {a : Bytes} (h : AtLineStart a) (rest : PyText) :
    errEntries (decode a ++ rest) = errEntries (decode a) ++
      errEntries rest := by
  rcases h with rfl | ⟨b, rfl⟩
  · rfl
  · have hline : decode (b ++ [newline]) = decode b ++ ['\n'] :=
      decode_ascii_cut toNat_newline b []
    rw [hline, List.append_assoc, List.singleton_append, errEntries_append]

/-- **The entries of the tail.** -/
theorem errEntries_tail {n : Nat} (h : t.tickEnd o ≤ n) (hin : t.InTail o n) :
    errEntries (readTail errTailBytes (some (t.log o n))) =
      errEntries (decode (t.ahead o n)) ++
      (errItems o (t.collector o).maps ++
        errEntries (decode (t.behind o n))) := by
  have hstart : AtLineStart (t.ahead o n) := (atLineStart_logBytes _).drop _
  rw [readTail_eq o t h hin, errEntries_atLineStart hstart, errEntries_tick,
    errEntries_behind]

end

end TickOfRuns

/-! ### What is reported -/

/-- The name of a controller. -/
def deviceName (n : Nat) : PyText := "nvme".toList ++ ofNat n

/-- The entries of a controller. -/
def entriesOf (id : Int) (entries : List (ErrKey × Int)) :
    List (ErrKey × Int) :=
  entries.filter (fun e => decide (e.1.1 = id))

/-- The statistics are the entries of a controller, and their sum. -/
structure ErrorsReported (entries : List (ErrKey × Int)) (id : Int)
    (stats : DeviceErrorStats) : Prop where
  available : stats.available = true
  counts : stats.counts.Perm ((entriesOf id entries).map errRow)
  total : stats.total = ((entriesOf id entries).map Prod.snd).sum

/-- Rows of one controller tell its entries apart. -/
theorem errRow_inj {id : Int} {e e' : ErrKey × Int} (he : e.1.1 = id)
    (he' : e'.1.1 = id)
    (h : errRow e = errRow e') : e = e' := by
  have hsct : e.1.2.1 = e'.1.2.1 := congrArg ErrorStatusCount.sct h
  have hsc : e.1.2.2 = e'.1.2.2 := congrArg ErrorStatusCount.sc h
  have hcount : e.2 = e'.2 := congrArg ErrorStatusCount.count h
  exact Prod.ext (Prod.ext (he.trans he'.symm) (Prod.ext hsct hsc)) hcount

/-- The entries of a controller are those with its number. -/
theorem mem_entriesOf {id : Int} {entries : List (ErrKey × Int)}
    {e : ErrKey × Int} :
    e ∈ entriesOf id entries ↔ e ∈ entries ∧ e.1.1 = id := by
  simp [entriesOf]

/-- The rows agree exactly if the dictionaries agree on the controller. -/
theorem rows_perm_iff (d d' : OrderedDict ErrKey Int) (id : Int) :
    ((entriesOf id d.items).map errRow).Perm
      ((entriesOf id d'.items).map errRow) ↔
      ∀ k, k.1 = id → d.get? k = d'.get? k := by
  have hrow : ∀ (d : OrderedDict ErrKey Int) {e : ErrKey × Int}, e.1.1 = id →
      (errRow e ∈ (entriesOf id d.items).map errRow ↔
        d.get? e.1 = some e.2) := by
    intro d e he
    rw [OrderedDict.get?_eq_some_iff, List.mem_map]
    constructor
    · intro ⟨e', hmem, heq⟩
      obtain ⟨hmem, hid⟩ := mem_entriesOf.mp hmem
      rw [← errRow_inj hid he heq]
      exact hmem
    · intro hmem
      exact ⟨e, mem_entriesOf.mpr ⟨hmem, he⟩, rfl⟩
  have hnodup : ∀ d : OrderedDict ErrKey Int, (entriesOf id d.items).Nodup :=
    fun d => (List.Nodup.of_map Prod.fst d.nodup).filter _
  constructor
  · intro hperm k hk
    refine Option.ext fun v => ?_
    have h1 := hrow d (e := (k, v)) hk
    have h2 := hrow d' (e := (k, v)) hk
    rw [← h1, ← h2]
    exact hperm.mem_iff
  · intro hget
    refine List.Perm.map errRow
      ((List.perm_ext_iff_of_nodup (hnodup d) (hnodup d')).mpr fun e => ?_)
    rw [mem_entriesOf, mem_entriesOf, and_congr_left_iff]
    intro he
    rw [← OrderedDict.get?_eq_some_iff, ← OrderedDict.get?_eq_some_iff,
      hget e.1 he]

/-- Of three sayings the last counts: when it is the middle one. -/
theorem or_or_eq_iff {α : Type} (a b c : Option α) :
    a.or (b.or c) = b ↔ (b = none → c = none) ∧ ∀ v, a = some v →
      b = some v := by
  cases a <;> cases b <;> simp [eq_comm]

/-- The error counters of a tick, as a dictionary. -/
def errDict (o : PrintOrder) (m : Maps) : OrderedDict ErrKey Int :=
  OrderedDict.empty.insertAll (errItems o m)

/-- Every error counter is printed once. -/
theorem errItems_keys_nodup (o : PrintOrder) (m : Maps) :
    ((errItems o m).map Prod.fst).Nodup := by
  have hkeys :
      ((o.order m.tick "err_count".toList m.errCount.items).map
      Prod.fst).Nodup :=
    ((o.perm _ _ _).map Prod.fst).nodup_iff.mpr m.errCount.nodup
  have heq : (errItems o m).map Prod.fst =
      ((o.order m.tick "err_count".toList m.errCount.items).map Prod.fst).map
      (fun k => (k.1.toInt, k.2.1.toInt, k.2.2.toInt)) := by
    unfold errItems
    rw [List.map_map, List.map_map]
    rfl
  rw [heq]
  refine hkeys.map fun k j h => ?_
  obtain ⟨hctrl, hstatus⟩ := Prod.mk.injEq _ _ _ _ ▸ h
  obtain ⟨hsct, hsc⟩ := Prod.mk.injEq _ _ _ _ ▸ hstatus
  exact Prod.ext (Int64.toInt_inj.mp hctrl)
    (Prod.ext (Int64.toInt_inj.mp hsct) (Int64.toInt_inj.mp hsc))

/-- A tick prints every error counter once. -/
theorem errDict_items (o : PrintOrder) (m : Maps) :
    (errDict o m).items = errItems o m :=
  OrderedDict.items_insertAll_empty (errItems_keys_nodup o m)

section

variable [UnicodeDb]

/-- The number of a device is read from its name. -/
theorem match_deviceName (n : Nat) :
    match? deviceRe (deviceName n) = some [ofNat n] := by
  unfold deviceName deviceRe match?
  rw [run_text_append]
  have hnum : run [numGroup, skip .eos] (ofNat n ++ [])
      = (run [skip .eos] []).map (fun caps => ofNat n :: caps) :=
    run_numGroup n (notStarting_nil _) (blocks_eos (by decide) _)
  rw [List.append_nil] at hnum
  rw [hnum, run_eos_nil]
  rfl

/-- **What `read_error_stats` returns** for a log it can read. -/
theorem readErrorStats_reports {log : Bytes} {n : Nat} (hn : n < 2 ^ 63)
    (hread : ∀ l ∈ splitlines (readTail errTailBytes (some log)), Readable l)
    (d : OrderedDict ErrKey Int) :
    (∃ stats, readErrorStats (some log) (deviceName n) = .ok stats ∧
      ErrorsReported d.items n stats) ↔
      ∀ k, k.1 = (n : Int) →
        (errCounts (readTail errTailBytes (some log))).get? k = d.get? k := by
  set found := errCounts (readTail errTailBytes (some log)) with hfound
  set rows := ((entriesOf n found.items).map errRow).insertionSort errRowLE
    with hrows
  have hstats : readErrorStats (some log) (deviceName n) = .ok {
      device := deviceName n
      counts := rows
      total := (rows.map ErrorStatusCount.count).sum
      available := true } := by
    have hint : pyInt (ofNat n) = .ok (n : Int) :=
      pyInt_ofInt_word (i := (n : Int)) (by omega)
    unfold readErrorStats
    rw [match_deviceName]
    simp only [hint, parseErrCounts_eq hread]
    rfl
  have hperm : rows.Perm ((entriesOf n found.items).map errRow) :=
    List.perm_insertionSort _ _
  have hsum : ∀ es : List (ErrKey × Int),
      (es.map errRow).map ErrorStatusCount.count = es.map Prod.snd := by
    intro es
    rw [List.map_map]
    rfl
  rw [← rows_perm_iff]
  constructor
  · intro ⟨stats, hreply, hreported⟩
    have heq := Except.ok.inj (hstats.symm.trans hreply)
    have hcounts := hreported.counts
    rw [← heq] at hcounts
    exact hperm.symm.trans hcounts
  · intro hsame
    refine ⟨_, hstats, rfl, hperm.trans hsame, ?_⟩
    have htotal := ((hperm.trans hsame).map ErrorStatusCount.count).sum_eq
    rw [hsum] at htotal
    exact htotal

namespace TickOfRuns

variable (o : PrintOrder) (t : TickOfRuns)

/-- What the tail says of a counter: what stands last in it. -/
theorem get?_errCounts_tail {n : Nat} (h : t.tickEnd o ≤ n) (hin : t.InTail o n)
    (k : ErrKey) :
    (errCounts (readTail errTailBytes (some (t.log o n)))).get? k
      = ((errCounts (decode (t.behind o n))).get? k).or
        (((errDict o (t.collector o).maps).get? k).or
        ((errCounts (decode (t.ahead o n))).get? k)) := by
  unfold errCounts errDict
  rw [errEntries_tail o t h hin, OrderedDict.insertAll_append,
    OrderedDict.insertAll_append,
    OrderedDict.get?_insertAll (OrderedDict.insertAll _ _),
    OrderedDict.get?_insertAll (OrderedDict.insertAll _ _)]

/-- Nothing but the tick says anything about the controller: a counter before it
in the tail is one that the tick has too, and a line behind it repeats what the
tick says. -/
structure Undisturbed (n : Nat) (id : Int) : Prop where
  ahead : ∀ k, k.1 = id → (errDict o (t.collector o).maps).get? k = none →
    (errCounts (decode (t.ahead o n))).get? k = none
  behind : ∀ k v, k.1 = id →
    (errCounts (decode (t.behind o n))).get? k = some v →
    (errDict o (t.collector o).maps).get? k = some v

/-- **What is reported for a complete tick.** -/
theorem reported_iff_undisturbed {n : Nat} (h : t.tickEnd o ≤ n)
    (hin : t.InTail o n) {ctrl : Nat}
    (hctrl : ctrl < 2 ^ 63) :
    (∃ stats, readErrorStats (some (t.log o n)) (deviceName ctrl) = .ok stats ∧
      ErrorsReported (errItems o (t.collector o).maps) ctrl stats) ↔
        t.Undisturbed o n ctrl := by
  rw [← errDict_items, readErrorStats_reports hctrl (readable_tail o t n)]
  constructor
  · intro hsame
    refine ⟨fun k hk => ?_, fun k v hk => ?_⟩
    · have hkey := hsame k hk
      rw [get?_errCounts_tail o t h hin, or_or_eq_iff] at hkey
      exact hkey.1
    · have hkey := hsame k hk
      rw [get?_errCounts_tail o t h hin, or_or_eq_iff] at hkey
      exact hkey.2 v
  · intro hclear k hk
    rw [get?_errCounts_tail o t h hin, or_or_eq_iff]
    exact ⟨hclear.ahead k hk, fun v => hclear.behind k v hk⟩

/-- **The totals are those of the last complete tick** exactly if nothing else
says anything about the controller. -/
theorem error_totals_iff {n : Nat} (hlast : t.IsLast o n) (hin : t.InTail o n)
    {ctrl : Nat}
    (hctrl : ctrl < 2 ^ 63) :
    (∃ stats, readErrorStats (some (t.log o n)) (deviceName ctrl) = .ok stats ∧
      ErrorsReported (errItems o (t.collector o).maps) ctrl stats) ↔
        t.Undisturbed o n ctrl :=
  reported_iff_undisturbed o t hlast.complete hin hctrl

end TickOfRuns

end

section

attribute [local instance] UnicodeDb.ascii

/-- A command of controller 0 that failed. -/
def failedRead : CompleteRq := ⟨2000, 0, 1, 5, 0x281, 0⟩

/-- The entry is the marker of a tick. -/
def Entry.isMark : Entry → Bool
  | line _ => false
  | mark => true

/-- A failure, a tick, and a second tick that is being written. -/
def repeatedTick : TickOfRuns where
  done := []
  before := [.completeRq failedRead]
  after := [.interval]
  later := []

/-- The second tick lacks the end of its marker. -/
def tornMarker : Nat :=
  (logBytes (repeatedTick.runs.flatMap (runOutput .inserted))).length - 4

/-- The torn tick reports an entry, which is not in the marker's tick. -/
theorem errCounts_repeatedTick :
    (errCounts (decode (repeatedTick.ahead .inserted tornMarker))).items = [] ∧
      (errCounts (decode (repeatedTick.behind .inserted tornMarker))).items =
        [((0, 2, 129), 1)] ∧
      (errDict .inserted (repeatedTick.collector .inserted).maps).get?
        (0, 2, 129) = some 1 := by
  decide +kernel

/-- The second tick repeats the counter of the first. -/
theorem undisturbed_repeatedTick :
    repeatedTick.Undisturbed .inserted tornMarker 0 := by
  obtain ⟨hahead, hbehind, htick⟩ := errCounts_repeatedTick
  refine ⟨fun k _ _ => ?_, fun k v _ hv => ?_⟩
  · unfold OrderedDict.get?
    rw [hahead]
    rfl
  · have hmem := OrderedDict.get?_eq_some_iff.mp hv
    rw [hbehind, List.mem_singleton, Prod.mk.injEq] at hmem
    rw [hmem.1, hmem.2]
    exact htick

/-- In the sample the tick is the last complete one. -/
theorem isLast_repeatedTick : repeatedTick.IsLast .inserted tornMarker := by
  have hbounded : ∀ i < (repeatedTick.rest .inserted).length,
      ((repeatedTick.rest .inserted)[i]?.map Entry.isMark) = some true →
        tornMarker < repeatedTick.tickEnd .inserted +
          (1 + (logBytes ((repeatedTick.rest .inserted).take i)).length +
            tickMarker.length) := by
    decide +kernel
  refine ⟨by decide +kernel, fun i hi =>
    hbounded i (List.getElem?_eq_some_iff.mp hi).1 ?_⟩
  rw [hi]
  rfl

/-- The sample is in the tail. -/
theorem inTail_repeatedTick : repeatedTick.InTail .inserted tornMarker := by
  unfold TickOfRuns.InTail
  decide +kernel

theorem error_totals_iff_repeatedTick : ∃ stats,
    readErrorStats (some (repeatedTick.log .inserted tornMarker))
      (deviceName 0) = .ok stats ∧
      ErrorsReported
        (errItems .inserted (repeatedTick.collector .inserted).maps) 0 stats :=
  (repeatedTick.error_totals_iff .inserted isLast_repeatedTick
    inTail_repeatedTick (by decide)).mpr
    undisturbed_repeatedTick

/-- A run with a failure, and a run without. -/
def nextRun : TickOfRuns where
  done := [[.completeRq failedRead, .interval]]
  before := []
  after := []
  later := []

/-- Its log. -/
def nextRunEnd : Nat :=
  (logBytes (nextRun.runs.flatMap (runOutput .inserted))).length

/-- In the other sample it is the last complete one too. -/
theorem isLast_nextRun : nextRun.IsLast .inserted nextRunEnd := by
  refine ⟨by decide +kernel, fun i hi => ?_⟩
  have hrest : nextRun.rest .inserted = [] := rfl
  rw [hrest] at hi
  exact absurd hi (by simp)

/-- The failure of the first run is reported for the tick of the second. -/
theorem stale_error_reported :
    ¬ ∀ (t : TickOfRuns) (n ctrl : Nat), t.IsLast .inserted n →
    t.InTail .inserted n → ctrl < 2 ^ 63 →
    ∃ stats, readErrorStats (some (t.log .inserted n)) (deviceName ctrl) =
      .ok stats ∧
      ErrorsReported (errItems .inserted (t.collector .inserted).maps) ctrl
        stats := by
  intro hall
  have hin : nextRun.InTail .inserted nextRunEnd := by
    unfold TickOfRuns.InTail
    decide +kernel
  obtain ⟨stats, hreply, hreported⟩ :=
    hall nextRun nextRunEnd 0 isLast_nextRun hin (by decide)
  have htotal :
      (readErrorStats (some (nextRun.log .inserted nextRunEnd))
      (deviceName 0)).toOption.map
      DeviceErrorStats.total = some 1 := by
    decide +kernel
  rw [hreply] at htotal
  have hone : stats.total = 1 := Option.some.inj htotal
  have hzero := hreported.total
  rw [hone] at hzero
  exact absurd hzero (by decide +kernel)

end

end Telemetryd
