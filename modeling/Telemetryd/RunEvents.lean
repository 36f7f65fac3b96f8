import Telemetryd.ErrorCounting
import Telemetryd.EventRetention
import Telemetryd.RenamedRuns

/-!
# The events in the log of a run

An event is a line of its own, and of all the lines of the collector only those
of the two event probes can be taken for one.  A name stands inside a line of a
tick and may hold a line feed, but it has fifteen bytes at most, and what an
event starts with is longer.  So a name neither makes an event nor hides one,
whatever its bytes are.
-/

namespace Telemetryd

open PyText Utf8 Regex Counters

/-! ### Bytes without an event -/

/-- What the lines of a reader start with. -/
def ReaderKind.mark : ReaderKind → PyText
  | .timeout => "TIMEOUT_EVENT ts_ns=".toList
  | .error => "ERROR_EVENT ts_ns=".toList

/-- No line in these bytes is an event. -/
def Eventless (bs : Bytes) : Prop :=
  ∀ kind : ReaderKind, ¬ ascii kind.mark <:+: bs

/-- A part of bytes without an event has none. -/
theorem Eventless.of_infix {b c : Bytes} (h : Eventless b) (hi : c <:+: b) :
    Eventless c :=
  fun kind hmark => h kind (hmark.trans hi)

/-- A line that is cut off is a part of what was there. -/
theorem mem_cutLines {line bs c : Bytes} (h : c ∈ cutLines line bs) :
    c <:+: line ++ bs := by
  induction bs generalizing line with
  | nil => exact absurd h List.not_mem_nil
  | cons b bs ih =>
      rw [cutLines] at h
      split_ifs at h
      · rcases List.mem_cons.mp h with rfl | h
        · exact (List.prefix_append _ _).isInfix
        · exact (ih h).trans
            ((List.suffix_cons _ _).trans (List.suffix_append _ _)).isInfix
      · have hline := ih h
        rwa [List.append_assoc, List.singleton_append] at hline

/-- After a line end the lines of two pieces are those of each. -/
theorem logLines_append {a : Bytes} (h : AtLineStart a) (b : Bytes) :
    logLines (a ++ b) = logLines a ++ logLines b := by
  unfold logLines
  rw [completeLines_atLineStart h, List.map_append]

/-- The mark of an event has no character that is decoded otherwise. -/
theorem isPlain_mark (kind : ReaderKind) : IsPlain kind.mark := by
  cases kind <;> (unfold IsPlain; decide)

/-- A line of bytes without an event has no mark. -/
theorem Eventless.unmarked {bs : Bytes} (h : Eventless bs) {l : PyText}
    (hl : l ∈ logLines bs)
    (kind : ReaderKind) : ¬ kind.mark <:+: l := by
  obtain ⟨c, hc, rfl⟩ := List.mem_map.mp hl
  intro hmark
  have hbytes :=
    (infix_decode_iff (isPlain_mark kind) (by cases kind <;> decide)).mp hmark
  exact h kind (hbytes.trans (mem_cutLines hc))

section

variable [UnicodeDb]

/-- A reader passes over a line that does not start with its mark. -/
theorem parse_of_no_mark {kind : ReaderKind} {line : PyText}
    (h : ¬ kind.mark <+: strip line) :
    kind.parser.parse 0 line = .ok none := by
  cases kind with
  | timeout =>
      change TimeoutEvents.parseLine 0 line = .ok none
      cases hmatch : match? TimeoutEvents.eventRe (strip line) with
      | none =>
          unfold TimeoutEvents.parseLine TimeoutEvents.parseDetail
          rw [hmatch]
          rfl
      | some groups =>
          obtain ⟨r, hr, -⟩ := mem_run_text (List.mem_of_mem_head? hmatch)
          exact absurd ⟨r, hr.symm⟩ h
  | error =>
      change ErrorEvents.parseLine 0 line = .ok none
      cases hmatch : match? ErrorEvents.eventRe (strip line) with
      | none =>
          unfold ErrorEvents.parseLine ErrorEvents.parseDetail
          rw [hmatch]
          rfl
      | some groups =>
          obtain ⟨r, hr, -⟩ := mem_run_text (List.mem_of_mem_head? hmatch)
          exact absurd ⟨r, hr.symm⟩ h

/-- A line without a mark is passed over by both readers. -/
theorem parse_of_unmarked {line : PyText}
    (h : ∀ kind : ReaderKind, ¬ kind.mark <:+: line)
    (kind : ReaderKind) : kind.parser.parse 0 line = .ok none :=
  parse_of_no_mark fun hmark =>
    h kind (hmark.isInfix.trans (infix_of_strip line))

/-- A line without a mark is no event. -/
theorem acceptsEvent_of_unmarked {line : PyText}
    (h : ∀ kind : ReaderKind, ¬ kind.mark <:+: line) :
    acceptsEvent line = none := by
  have hnone : ∀ kind : ReaderKind, kind.parser.accepts line = none := by
    intro kind
    rw [LineParser.accepts, parse_of_unmarked h kind]
    rfl
  rw [acceptsEvent, hnone, hnone]
  rfl

/-- Bytes without a mark have no event in them. -/
theorem logEvents_of_eventless {bs : Bytes} (h : Eventless bs) :
    logEvents bs = [] := by
  unfold logEvents
  rw [List.filterMap_eq_nil_iff]
  exact fun l hl => acceptsEvent_of_unmarked (h.unmarked hl)

/-- After a line end the events of two pieces are those of each. -/
theorem logEvents_append {a : Bytes} (h : AtLineStart a) (b : Bytes) :
    logEvents (a ++ b) = logEvents a ++ logEvents b := by
  unfold logEvents
  rw [logLines_append h, List.filterMap_append]

end

/-! ### The lines of a tick -/

/-- A word with a separator, and in front of it a letter that is not found
before the first separator of a text, is found behind it. -/
theorem infix_behind {α : Type} {x y : α} {z₁ z₂ a b : List α} (hx : x ∉ z₁)
    (hy : y ∈ z₁) (hya : y ∉ a)
    (h : z₁ ++ x :: z₂ <:+: a ++ x :: b) : z₁ ++ x :: z₂ <:+: b := by
  induction a with
  | nil =>
      rcases List.infix_cons_iff.mp h with hp | hi
      · cases z₁ with
        | nil => exact absurd hy List.not_mem_nil
        | cons c z₁ =>
            obtain ⟨rfl, -⟩ := List.cons_prefix_cons.mp hp
            exact absurd List.mem_cons_self hx
      · exact hi
  | cons c a ih =>
      rcases List.infix_cons_iff.mp h with hp | hi
      · -- the word starts here, so its first part ends before the separator
        have hfront : z₁ <+: c :: a ++ x :: b :=
          (List.prefix_append _ _).trans hp
        exact absurd ((prefix_left_of_notMem hx hfront).subset hy) hya
      · exact ih (fun hmem => hya (List.mem_cons_of_mem _ hmem)) hi

/-- Numerals have no `V`, which every mark has. -/
theorem V_notMem_ofInt (i : Int) : 'V' ∉ ofInt i := by
  intro h
  rcases mem_ofInt h with h | h
  · exact absurd h (by decide)
  · exact absurd h (by decide)

/-- Numerals have no `V`. -/
theorem V_notMem_ofNat (n : Nat) : 'V' ∉ PyText.ofNat n :=
  V_notMem_ofInt (n : Int)

/-- Nor have the keys of an entry. -/
theorem V_notMem_keyText (ks : List Int64) : 'V' ∉ keyText ks := by
  induction ks with
  | nil => exact List.not_mem_nil
  | cons k ks ih =>
      cases ks with
      | nil => exact V_notMem_ofInt _
      | cons k' ks =>
          simp only [keyText, List.mem_append, not_or]
          exact ⟨⟨V_notMem_ofInt _, by decide⟩, ih⟩

/-- Nor has the line of an entry of a map whose name has none. -/
theorem V_notMem_mapLine {name : PyText} (h : 'V' ∉ name) (ks : List Int64)
    (v : UInt64) :
    'V' ∉ mapLine name ks v := by
  simp only [mapLine, List.mem_append, List.mem_cons, not_or]
  exact ⟨⟨⟨⟨by decide, h⟩, by decide, V_notMem_keyText ks⟩, by decide⟩,
    V_notMem_ofNat _⟩

/-- Nor have the bounds of a histogram. -/
theorem V_notMem_boundText (k : Nat) : 'V' ∉ boundText k := by
  simp only [boundText, List.mem_append, not_or]
  refine ⟨V_notMem_ofNat _, ?_⟩
  unfold unitText
  split <;> decide

/-- Nor have its ranges. -/
theorem V_notMem_rangeText (i : Fin 65) : 'V' ∉ rangeText i := by
  unfold rangeText
  split_ifs
  · decide
  · decide
  · decide
  · simp only [List.cons_append, List.mem_cons, List.mem_append, not_or]
    exact ⟨by decide,
      ⟨⟨V_notMem_boundText _, by decide⟩, V_notMem_boundText _⟩, by decide,
      List.not_mem_nil⟩

/-- Nor have the lines of a histogram. -/
theorem V_notMem_histLines {name : PyText} (h : 'V' ∉ name) (ks : List Int64)
    (hist : Hist) :
    ∀ t ∈ histLines name ks hist, 'V' ∉ t := by
  intro t ht
  have hfill : ∀ {n : Nat} {c : Char}, c ≠ 'V' → 'V' ∉ List.replicate n c :=
    fun hc hmem => hc (List.eq_of_mem_replicate hmem).symm
  simp only [histLines, List.cons_append, List.mem_cons, List.mem_append,
    List.not_mem_nil,
    or_false] at ht
  rcases ht with rfl | ht | rfl
  · simp only [List.mem_cons, List.mem_append, not_or]
    exact ⟨by decide, ⟨h, by decide, V_notMem_keyText ks⟩, by decide⟩
  · obtain ⟨i, -, rfl⟩ := List.mem_map.mp ht
    simp only [histRow, padRight, padLeft, List.mem_append, not_or]
    exact ⟨⟨⟨⟨⟨V_notMem_rangeText i, hfill (by decide)⟩, hfill (by decide),
      V_notMem_ofNat _⟩,
      by decide⟩, hfill (by decide), hfill (by decide)⟩, by decide⟩
  · exact List.not_mem_nil

/-- A character that a text has not is no byte of it. -/
theorem V_notMem_ascii {t : PyText} (ht : IsAscii t) (h : 'V' ∉ t) :
    (86 : UInt8) ∉ ascii t := by
  intro hmem
  obtain ⟨c, hc, hcode⟩ := List.mem_map.mp hmem
  have hnat : c.toNat = 86 := by
    rw [← toNat_ofNat_toNat (ht c hc), hcode]
    rfl
  have hV : c = 'V' := by
    rw [← Char.ofNat_toNat c, hnat]
  exact h (hV ▸ hc)

/-- Every mark has a `V`. -/
theorem V_mem_mark (kind : ReaderKind) : (86 : UInt8) ∈ ascii kind.mark := by
  cases kind <;> decide

/-- Text without a `V` is no event. -/
theorem eventless_of_no_V {t : PyText} (ht : IsAscii t) (h : 'V' ∉ t) :
    Eventless (ascii t ++ [newline]) := by
  intro kind hmark
  rcases List.mem_append.mp (hmark.subset (V_mem_mark kind)) with hmem | hmem
  · exact V_notMem_ascii ht h hmem
  · exact absurd hmem (by decide)

/-- The line has no `V`, its name apart. -/
def PrintedLine.Mute : PrintedLine → Prop
  | plain text => 'V' ∉ text
  | named front _ back => 'V' ∉ front ∧ 'V' ∉ back

/-- **A name is no event**, nor a part of one. -/
theorem PrintedLine.Mute.eventless {l : PrintedLine} (h : l.Mute)
    (hclean : l.Clean) :
    Eventless (l.bytes ++ [newline]) := by
  cases l with
  | plain text => exact eventless_of_no_V hclean.isAscii h
  | named front comm back =>
      have hline : (PrintedLine.named front comm back).bytes ++ [newline]
          = (ascii front ++ 32 :: comm.bytes) ++ 93 ::
            (ascii back ++ [newline]) := by
        simp [PrintedLine.bytes, ascii]
      intro kind hmark
      rw [hline] at hmark
      rcases infix_append_cons (by cases kind <;> decide) hmark
        with hmark | hmark
      · obtain ⟨z₁, z₂, hz, hx, hy⟩ :
            ∃ z₁ z₂, ascii kind.mark = z₁ ++ 32 :: z₂ ∧
            (32 : UInt8) ∉ z₁ ∧ (86 : UInt8) ∈ z₁ := by
          cases kind
          · exact ⟨ascii "TIMEOUT_EVENT".toList,
              ascii "ts_ns=".toList, by decide, by decide, by decide⟩
          · exact ⟨ascii "ERROR_EVENT".toList,
              ascii "ts_ns=".toList, by decide, by decide, by decide⟩
        rw [hz] at hmark
        have hname :=
          (infix_behind hx hy (V_notMem_ascii hclean.1.isAscii h.1)
          hmark).length_le
        rw [← hz] at hname
        have hlen : 18 ≤ (ascii kind.mark).length := by cases kind <;> decide
        have hcomm := comm.length_le
        omega
      · exact eventless_of_no_V hclean.2.isAscii h.2 kind hmark

section Tick

variable (o : PrintOrder) {tick : Nat}

/-- A map with two keys prints no event. -/
theorem mute_print2 {name : PyText} (h : 'V' ∉ name) (m : Counters Key2) :
    ∀ l ∈ print2 o tick name m, l.Mute := by
  intro l hl
  obtain ⟨e, -, rfl⟩ := List.mem_map.mp hl
  exact V_notMem_mapLine h _ _

/-- Nor does one with three. -/
theorem mute_print3 {name : PyText} (h : 'V' ∉ name) (m : Counters Key3) :
    ∀ l ∈ print3 o tick name m, l.Mute := by
  intro l hl
  obtain ⟨e, -, rfl⟩ := List.mem_map.mp hl
  exact V_notMem_mapLine h _ _

/-- Nor does a histogram. -/
theorem mute_printHist {name : PyText} (h : 'V' ∉ name)
    (m : OrderedDict Key2 Hist) :
    ∀ l ∈ printHist o tick name m, l.Mute := by
  intro l hl
  obtain ⟨e, -, hl⟩ := List.mem_flatMap.mp hl
  obtain ⟨t, ht, rfl⟩ := List.mem_map.mp hl
  exact V_notMem_histLines h _ _ t ht

/-- Nor does a line with a name, apart from the name. -/
theorem mute_commLine {name : PyText} (h : 'V' ∉ name) (ks : List Int64)
    (comm : Comm) (v : UInt64) :
    (commLine name ks comm v).Mute := by
  simp only [commLine, PrintedLine.Mute, List.mem_append, List.mem_cons, not_or]
  exact ⟨⟨⟨⟨by decide, h⟩, by decide, V_notMem_keyText ks⟩, by decide,
    List.not_mem_nil⟩, by decide,
    V_notMem_ofNat _⟩

/-- Nor does a tick. -/
theorem mute_tickLines (m : Maps) : ∀ l ∈ tickLines o m, l.Mute := by
  have hcomm : ∀ l ∈ printProcOps o m.tick m.procOps, l.Mute := by
    intro l hl
    obtain ⟨e, -, rfl⟩ := List.mem_map.mp hl
    exact mute_commLine (by decide) _ _ _
  have hthr : ∀ l ∈ printThrOps o m.tick m.thrOps, l.Mute := by
    intro l hl
    obtain ⟨e, -, rfl⟩ := List.mem_map.mp hl
    exact mute_commLine (by decide) _ _ _
  unfold tickLines
  simp only [List.forall_mem_append]
  refine ⟨⟨⟨⟨⟨⟨⟨⟨⟨⟨⟨⟨⟨⟨⟨⟨⟨⟨?_, ?_⟩, ?_⟩, ?_⟩, ?_⟩, ?_⟩, ?_⟩, ?_⟩, hcomm⟩, ?_⟩,
    ?_⟩, ?_⟩, ?_⟩, ?_⟩,
    ?_⟩, ?_⟩, ?_⟩, ?_⟩, hthr⟩
  all_goals first
    | exact mute_print2 o (by decide) _
    | exact mute_print3 o (by decide) _
    | exact mute_printHist o (by decide) _

end Tick

/-! ### The lines of the event probes -/

/-- What a probe prints of an event. -/
def Collector.eventText (s : Collector) : Probe → Option PyText
  | .completeRq a => if s.PrintsError a then some (s.errorLine a) else none
  | .nvmeTimeout a => some (s.timeoutLine a)
  | .setupCmd _ => none
  | .interval => none

/-- An entry of the log ends its line. -/
theorem Entry.atLineStart (e : Entry) : AtLineStart e.bytes := by
  cases e with
  | line l => exact Or.inr ⟨l.bytes, rfl⟩
  | mark => exact Or.inr ⟨ascii tickMarker, rfl⟩

/-- The lines of a log are those of its entries. -/
theorem logLines_entries (es : List Entry) (rest : Bytes) :
    logLines (logBytes es ++ rest) = es.flatMap (fun e => logLines e.bytes) ++
      logLines rest := by
  induction es with
  | nil => rfl
  | cons e es ih =>
      have hcons :
          logBytes (e :: es) ++ rest = e.bytes ++ (logBytes es ++ rest) := by
        simp [logBytes]
      rw [hcons, logLines_append e.atLineStart, ih, List.flatMap_cons,
        List.append_assoc]

/-- A printed event is one line. -/
theorem logLines_plain {t : PyText} (h : CleanText t) :
    logLines (Entry.line (.plain t)).bytes = [t] := by
  have hnl : '\n' ∉ t := by
    intro hmem
    have hno := h.not_isLineBoundary '\n' hmem
    rw [isLineBoundary_newline] at hno
    exact Bool.noConfusion hno
  exact completeLines_ascii h.isAscii hnl []

section Run

variable (o : PrintOrder)

/-- **What a probe prints**: one event, or nothing that can be taken for one. -/
theorem Collector.step_entries (s : Collector) (p : Probe) :
    (∃ t, s.eventText p = some t ∧ CleanText t ∧
      (s.step o p).2 = [.line (.plain t)]) ∨
      s.eventText p = none ∧ ∀ e ∈ (s.step o p).2, Eventless e.bytes := by
  cases p with
  | setupCmd a => exact Or.inr ⟨rfl, fun e he => absurd he List.not_mem_nil⟩
  | completeRq a =>
      rw [Collector.step, Collector.completeRq_eq, Collector.eventText]
      split_ifs
      · exact Or.inl ⟨_, rfl,
          cleanText_errorEventLine _ _ _ _ _ _ _ _ _ _ _ _ _ _ _ _ _ _, rfl⟩
      · exact Or.inr ⟨rfl, fun e he => absurd he List.not_mem_nil⟩
  | nvmeTimeout a =>
      exact Or.inl ⟨_, rfl,
        cleanText_timeoutEventLine _ _ _ _ _ _ _ _ _ _ _ _ _ _, rfl⟩
  | interval =>
      refine Or.inr ⟨rfl, fun e he => ?_⟩
      rcases List.mem_append.mp he with he | he
      · obtain ⟨l, hl, rfl⟩ := List.mem_map.mp he
        exact (mute_tickLines o _ l hl).eventless (clean_tickLines o _ l hl)
      · rw [List.mem_singleton.mp he]
        exact eventless_of_no_V (t := tickMarker) (by decide) (by decide)

/-- The events that a run prints. -/
def Collector.eventTexts (s : Collector) : List Probe → List PyText
  | [] => []
  | p :: ps => (s.eventText p).toList ++ (s.step o p).1.eventTexts ps

/-- The lines of a run are those of its first step and of the rest. -/
theorem logLines_output_cons (s : Collector) (p : Probe) (probes : List Probe) :
    logLines (logBytes (s.output o (p :: probes))) =
      (s.step o p).2.flatMap (fun e => logLines e.bytes) ++
      logLines (logBytes ((s.step o p).1.output o probes)) := by
  rw [← logLines_entries]
  simp [Collector.output, logBytes]

/-- The lines of a run are those of its greeting and of its steps. -/
theorem logLines_runOutput (probes : List Probe) :
    logLines (logBytes (runOutput o probes))
    = logLines (Entry.line (.plain attachedLine)).bytes ++
      logLines (logBytes (Collector.output o {} probes)) := by
  have hcons : logBytes (runOutput o probes)
      = (Entry.line (.plain attachedLine)).bytes ++
        logBytes (Collector.output o {} probes) := by
    simp [runOutput, logBytes]
  rw [hcons, logLines_append (Entry.atLineStart _)]

/-- The greeting is no event. -/
theorem eventless_attachedLine :
    Eventless (Entry.line (.plain attachedLine)).bytes :=
  eventless_of_no_V (t := attachedLine) (by decide) (by decide)

/-- A line of a run is an event that was printed, or no event. -/
theorem mem_logLines_runOutput {probes : List Probe} {l : PyText}
    (hl : l ∈ logLines (logBytes (runOutput o probes))) :
    l ∈ Collector.eventTexts o {} probes ∨ ∀ kind : ReaderKind,
      ¬ kind.mark <:+: l := by
  have houtput : ∀ s : Collector, l ∈ logLines (logBytes (s.output o probes)) →
      l ∈ s.eventTexts o probes ∨ ∀ kind : ReaderKind, ¬ kind.mark <:+: l := by
    clear hl
    induction probes with
    | nil => exact fun s hl => absurd hl List.not_mem_nil
    | cons p probes ih =>
        intro s hl
        rw [logLines_output_cons] at hl
        rw [Collector.eventTexts]
        rcases List.mem_append.mp hl with hl | hl
        · rcases s.step_entries o p
            with ⟨t, htext, hclean, hprinted⟩ | ⟨hnone, hless⟩
          · rw [hprinted, List.flatMap_singleton, logLines_plain hclean] at hl
            rw [htext]
            exact Or.inl (List.mem_append_left _ hl)
          · obtain ⟨e, he, hl⟩ := List.mem_flatMap.mp hl
            exact Or.inr ((hless e he).unmarked hl)
        · exact (ih _ hl).imp_left (List.mem_append_right _)
  rw [logLines_runOutput] at hl
  rcases List.mem_append.mp hl with hl | hl
  · exact Or.inr (eventless_attachedLine.unmarked hl)
  · exact houtput _ hl

variable [UnicodeDb]

/-- **The events of a run** are those that its event probes print. -/
theorem logEvents_runOutput (probes : List Probe) :
    logEvents (logBytes (runOutput o probes))
    = (Collector.eventTexts o {} probes).filterMap acceptsEvent := by
  have houtput : ∀ s : Collector,
      (logLines (logBytes (s.output o probes))).filterMap acceptsEvent
      = (s.eventTexts o probes).filterMap acceptsEvent := by
    induction probes with
    | nil => exact fun _ => rfl
    | cons p probes ih =>
        intro s
        rw [logLines_output_cons, Collector.eventTexts, List.filterMap_append,
          List.filterMap_append, ih]
        congr 1
        rcases s.step_entries o p
          with ⟨t, htext, hclean, hprinted⟩ | ⟨hnone, hless⟩
        · rw [hprinted, List.flatMap_singleton, logLines_plain hclean, htext]
          rfl
        · rw [hnone]
          refine List.filterMap_eq_nil_iff.mpr fun l hl => ?_
          obtain ⟨e, he, hl⟩ := List.mem_flatMap.mp hl
          exact acceptsEvent_of_unmarked ((hless e he).unmarked hl)
  have hfirst :
      (logLines (Entry.line (.plain attachedLine)).bytes).filterMap
      acceptsEvent = [] :=
    logEvents_of_eventless eventless_attachedLine
  rw [logEvents, logLines_runOutput, List.filterMap_append, hfirst, houtput]
  rfl

/-! ### Runs that differ in a name -/

variable {o' : PrintOrder}

omit [UnicodeDb] in
/-- Entries that differ are lines of ticks, and show no event. -/
theorem SameEntry.same_or_eventless {e e' : Entry} (h : SameEntry o o' e e') :
    e = e' ∨ Eventless e.bytes ∧ Eventless e'.bytes := by
  cases h with
  | same e => exact Or.inl rfl
  | tick hl hl' =>
      exact Or.inr
        ⟨(mute_tickLines o _ _ hl).eventless (clean_tickLines o _ _ hl),
        (mute_tickLines o' _ _ hl').eventless (clean_tickLines o' _ _ hl')⟩

/-- Outputs that differ in the lines of ticks show the same events. -/
theorem logEvents_sameEntry {es es' : List Entry}
    (h : List.Forall₂ (SameEntry o o') es es') :
    logEvents (logBytes es) = logEvents (logBytes es') := by
  have hsplit : ∀ (e : Entry) (es : List Entry),
      logEvents (logBytes (e :: es)) =
        logEvents e.bytes ++ logEvents (logBytes es) := by
    intro e es
    rw [← logEvents_append e.atLineStart]
    simp [logBytes]
  induction h with
  | nil => rfl
  | cons he _ ih =>
      rw [hsplit, hsplit, ih]
      rcases he.same_or_eventless with rfl | ⟨hless, hless'⟩
      · rfl
      · rw [logEvents_of_eventless hless, logEvents_of_eventless hless']

/-- **The name of a process does not touch the events.**  Whatever two names a
process has in two runs that are otherwise the same, line feeds and parts of
events included, and in whatever orders the two runs print their maps, the logs
show the same events in the same order, read after the same number of lines and
bytes. -/
theorem events_of_renamed (o o' : PrintOrder) (p : Int64) (a b : Comm)
    (probes : List Probe) (k j : Nat) :
    logEvents (cutLog (runOutput o (probes.map (Probe.rename p a))) k j)
      = logEvents (cutLog (runOutput o' (probes.map (Probe.rename p b)))
        k j) := by
  have hsame := sameEntry_runOutput o o' p a b probes
  unfold cutLog
  rw [logEvents_append (atLineStart_logBytes _),
    logEvents_append (atLineStart_logBytes _),
    logEvents_sameEntry o (List.forall₂_take k hsame)]
  congr 1
  have hrest := List.forall₂_drop k hsame
  generalize (runOutput o (probes.map (Probe.rename p a))).drop k = es at hrest
  generalize (runOutput o' (probes.map (Probe.rename p b))).drop k =
    es' at hrest
  cases hrest with
  | nil => rfl
  | cons he _ =>
      rename_i e e' _ _
      rcases he.same_or_eventless with rfl | ⟨hless, hless'⟩
      · rfl
      · rw [tornEntry, tornEntry,
          logEvents_of_eventless
          (hless.of_infix (List.take_prefix j _).isInfix),
          logEvents_of_eventless
            (hless'.of_infix (List.take_prefix j _).isInfix)]

end Run

end Telemetryd
