import Telemetryd.Collector
import Telemetryd.EventLines
import Telemetryd.LogFile

/-!
# The collector's output as text

What the collector writes is decoded and cut into lines by its readers.  Apart
from the names of processes every line consists of printable ASCII characters
other than `C`, so that it is decoded to itself, is not cut, and does not
contain the marker of a tick.
-/

namespace Telemetryd

open PyText Utf8

/-- A printable ASCII character that is not in every marker. -/
def CleanChar (c : Char) : Prop := 32 ≤ c.toNat ∧ c.toNat < 127 ∧ c ≠ 'C'

instance (c : Char) : Decidable (CleanChar c) :=
  inferInstanceAs (Decidable (_ ∧ _ ∧ _))

/-- Every character is clean. -/
def CleanText (t : PyText) : Prop := ∀ c ∈ t, CleanChar c

instance (t : PyText) : Decidable (CleanText t) :=
  inferInstanceAs (Decidable (∀ c ∈ t, CleanChar c))

/-- Two clean texts in a row are clean. -/
theorem CleanText.append {s t : PyText} (hs : CleanText s) (ht : CleanText t) :
    CleanText (s ++ t) := by
  intro c hc
  rcases List.mem_append.mp hc with h | h
  · exact hs c h
  · exact ht c h

/-- A clean character before a clean text. -/
theorem CleanText.cons {c : Char} {t : PyText} (hc : CleanChar c)
    (ht : CleanText t) :
    CleanText (c :: t) := by
  intro d hd
  rcases List.mem_cons.mp hd with rfl | h
  · exact hc
  · exact ht d h

/-- A clean text is ASCII. -/
theorem CleanText.isAscii {t : PyText} (h : CleanText t) : IsAscii t := by
  intro c hc
  have := (h c hc).2.1
  omega

/-- A clean text is one line. -/
theorem CleanText.not_isLineBoundary {t : PyText} (h : CleanText t) :
    ∀ c ∈ t, isLineBoundary c = false := by
  intro c hc
  obtain ⟨hlow, hhigh, -⟩ := h c hc
  unfold isLineBoundary
  simp only [Bool.or_eq_false_iff, Bool.and_eq_false_iff, beq_eq_false_iff_ne,
    decide_eq_false_iff_not]
  omega

/-- A clean text has no marker in it, for lack of its letters. -/
theorem CleanText.no_marker {t : PyText} (h : CleanText t) :
    ¬ tickMarker <:+: t := by
  intro hi
  have hC : 'C' ∈ t := hi.subset (by decide)
  exact (h 'C' hC).2.2 rfl

/-- Digits are clean. -/
theorem cleanChar_of_isDigit {c : Char} (h : c.isDigit = true) :
    CleanChar c := by
  have hrange : 48 ≤ c.toNat ∧ c.toNat ≤ 57 := by
    simp only [Char.isDigit, Bool.and_eq_true, decide_eq_true_eq] at h
    exact ⟨UInt32.le_iff_toNat_le.mp h.1, UInt32.le_iff_toNat_le.mp h.2⟩
  refine ⟨by omega, by omega, ?_⟩
  intro hC
  subst hC
  exact absurd h (by decide)

/-- Numerals are clean. -/
theorem cleanText_ofNat (n : Nat) : CleanText (ofNat n) :=
  fun _ hc => cleanChar_of_isDigit (isDigit_of_mem_ofNat hc)

/-- Numerals are clean. -/
theorem cleanText_ofInt (i : Int) : CleanText (ofInt i) := by
  intro c hc
  rcases mem_ofInt hc with rfl | hd
  · decide
  · exact cleanChar_of_isDigit hd

/-! ### Lines -/

namespace PrintedLine

/-- The line is clean, its name apart. -/
def Clean : PrintedLine → Prop
  | plain text => CleanText text
  | named front _ back => CleanText front ∧ CleanText back

/-- The name in the line, if there is one. -/
def name? : PrintedLine → Option Comm
  | plain _ => none
  | named _ comm _ => some comm

end PrintedLine

/-- A name that is no part of the line format: it is decoded to a text without
line boundaries and without the marker. -/
def Comm.Harmless (c : Comm) : Prop :=
  (∀ x ∈ decode c.bytes, isLineBoundary x = false) ∧
    ¬ tickMarker <:+: decode c.bytes

section Line

variable {l : PrintedLine}

/-- **A line is read as it was written**, whatever follows it. -/
theorem decode_line (h : l.Clean) (rest : Bytes) :
    decode (l.bytes ++ newline :: rest) = l.text ++ '\n' :: decode rest := by
  have hnl : ascii ['\n'] = [newline] := rfl
  cases l with
  | plain text =>
      show decode (ascii text ++ newline :: rest) = text ++ '\n' :: decode rest
      have hcut := decode_ascii_append (t := ['\n']) (by decide) rest
      rw [hnl] at hcut
      rw [decode_ascii_append h.isAscii]
      exact congrArg (text ++ ·) hcut
  | named front comm back =>
      have hfront : IsAscii (front ++ [' ']) := h.1.isAscii.append (by decide)
      have hback : IsAscii (']' :: back ++ ['\n']) :=
        (CleanText.cons (c := ']') (by decide) h.2).isAscii.append (by decide)
      have hbytes : (PrintedLine.named front comm back).bytes ++ newline :: rest
          = ascii (front ++ [' ']) ++
            (comm.bytes ++ ascii (']' :: back ++ ['\n']) ++ rest) := by
        simp only [PrintedLine.bytes, ascii, List.map_append, List.append_assoc]
        rfl
      rw [hbytes, decode_ascii_append hfront,
        decode_ascii_between hback (by simp)]
      simp [PrintedLine.text]

/-- A separator that avoids a character lies on one side of it. -/
theorem infix_append_cons {α : Type*} {sep l r : List α} {c : α} (hc : c ∉ sep)
    (h : sep <:+: l ++ c :: r) : sep <:+: l ∨ sep <:+: r := by
  induction l with
  | nil =>
      rcases List.infix_cons_iff.mp h with hp | hi
      · have := prefix_left_of_notMem (l := []) hc hp
        rw [List.prefix_nil.mp this]
        exact Or.inl (List.nil_infix)
      · exact Or.inr hi
  | cons x l ih =>
      rcases List.infix_cons_iff.mp h with hp | hi
      · exact Or.inl (prefix_left_of_notMem (l := x :: l) hc hp).isInfix
      · rcases ih hi with hl | hr
        · exact Or.inl (hl.trans (List.suffix_cons x l).isInfix)
        · exact Or.inr hr

/-- A clean line has no marker in it if its name has none. -/
theorem line_no_marker (h : l.Clean) (hname : ∀ c ∈ l.name?, c.Harmless) :
    ¬ tickMarker <:+: l.text := by
  cases l with
  | plain text => exact h.no_marker
  | named front comm back =>
      intro hi
      rcases infix_append_cons (by decide) hi with hf | hi
      · exact h.1.no_marker hf
      · rcases infix_append_cons (by decide) hi with hm | hb
        · exact (hname comm rfl).2 hm
        · exact h.2.no_marker hb

/-- A clean line is one line if its name is. -/
theorem line_not_isLineBoundary (h : l.Clean)
    (hname : ∀ c ∈ l.name?, c.Harmless) :
    ∀ c ∈ l.text, isLineBoundary c = false := by
  cases l with
  | plain text => exact h.not_isLineBoundary
  | named front comm back =>
      intro c hc
      simp only [PrintedLine.text, List.mem_append, List.mem_cons] at hc
      rcases hc with hc | rfl | hc | rfl | hc
      · exact h.1.not_isLineBoundary c hc
      · decide
      · exact (hname comm rfl).1 c hc
      · decide
      · exact h.2.not_isLineBoundary c hc

end Line

/-! ### The output is clean -/

/-- The keys of an entry are clean. -/
theorem cleanText_keyText (ks : List Int64) : CleanText (keyText ks) := by
  induction ks with
  | nil => exact fun c hc => absurd hc List.not_mem_nil
  | cons k ks ih =>
      cases ks with
      | nil => exact cleanText_ofInt _
      | cons k' ks => exact ((cleanText_ofInt _).append (by decide)).append ih

/-- The name and the keys of an entry are clean. -/
theorem cleanText_mapHead {name : PyText} (h : CleanText name)
    (ks : List Int64) :
    CleanText ('@' :: name ++ '[' :: keyText ks) :=
  (CleanText.cons (by decide) h).append
    (.cons (by decide) (cleanText_keyText ks))

/-- The line of an entry is clean. -/
theorem cleanText_mapLine {name : PyText} (h : CleanText name) (ks : List Int64)
    (v : UInt64) :
    CleanText (mapLine name ks v) :=
  ((cleanText_mapHead h ks).append (by decide)).append (cleanText_ofNat _)

/-- So is that of an entry with a name, apart from the name. -/
theorem clean_commLine {name : PyText} (h : CleanText name) (ks : List Int64)
    (comm : Comm)
    (v : UInt64) : (commLine name ks comm v).Clean :=
  ⟨(cleanText_mapHead h ks).append (by decide),
    CleanText.append (by decide) (cleanText_ofNat v.toNat)⟩

/-- A clean character any number of times. -/
theorem cleanText_replicate {c : Char} (hc : CleanChar c) (n : Nat) :
    CleanText (List.replicate n c) := by
  intro d hd
  rw [List.eq_of_mem_replicate hd]
  exact hc

/-- Padding is clean. -/
theorem cleanText_padRight {s : PyText} (h : CleanText s) (w : Nat) :
    CleanText (padRight w s) :=
  h.append (cleanText_replicate (by decide) _)

/-- Padding is clean. -/
theorem cleanText_padLeft {s : PyText} (h : CleanText s) (w : Nat) :
    CleanText (padLeft w s) :=
  CleanText.append (cleanText_replicate (by decide) _) h

/-- The bounds of a histogram are clean. -/
theorem cleanText_boundText (k : Nat) : CleanText (boundText k) := by
  refine (cleanText_ofNat _).append ?_
  unfold unitText
  split <;> decide

/-- So are its ranges. -/
theorem cleanText_rangeText (i : Fin 65) : CleanText (rangeText i) := by
  unfold rangeText
  split
  · decide
  · split
    · decide
    · split
      · decide
      · exact ((((CleanText.cons (by decide) (cleanText_boundText _)).append
          (by decide)).append
          (cleanText_boundText _)).append (by decide))

/-- So are its rows. -/
theorem cleanText_histRow (h : Hist) (most : Nat) (i : Fin 65) :
    CleanText (histRow h most i) :=
  ((((cleanText_padRight (cleanText_rangeText i) _).append
    (cleanText_padLeft (cleanText_ofNat _) _)).append (by decide)).append
      (cleanText_padRight (cleanText_replicate (by decide) _) _)).append (by
        decide)

/-- The lines of a histogram are clean. -/
theorem cleanText_histLines {name : PyText} (hname : CleanText name)
    (ks : List Int64) (h : Hist) :
    ∀ t ∈ histLines name ks h, CleanText t := by
  intro t ht
  simp only [histLines, List.cons_append, List.mem_cons, List.mem_append,
    List.not_mem_nil, or_false] at ht
  rcases ht with rfl | ht | rfl
  · exact (cleanText_mapHead hname ks).append (by decide)
  · obtain ⟨i, -, rfl⟩ := List.mem_map.mp ht
    exact cleanText_histRow h _ i
  · decide

section Tick

variable (o : PrintOrder) {tick : Nat}

/-- A map with two keys prints clean lines. -/
theorem clean_print2 {name : PyText} (h : CleanText name) (m : Counters Key2) :
    ∀ l ∈ print2 o tick name m, l.Clean := by
  intro l hl
  obtain ⟨e, -, rfl⟩ := List.mem_map.mp hl
  exact cleanText_mapLine h _ _

/-- So does one with three. -/
theorem clean_print3 {name : PyText} (h : CleanText name) (m : Counters Key3) :
    ∀ l ∈ print3 o tick name m, l.Clean := by
  intro l hl
  obtain ⟨e, -, rfl⟩ := List.mem_map.mp hl
  exact cleanText_mapLine h _ _

/-- So does a histogram. -/
theorem clean_printHist {name : PyText} (h : CleanText name)
    (m : OrderedDict Key2 Hist) :
    ∀ l ∈ printHist o tick name m, l.Clean := by
  intro l hl
  obtain ⟨e, -, hl⟩ := List.mem_flatMap.mp hl
  obtain ⟨t, ht, rfl⟩ := List.mem_map.mp hl
  exact cleanText_histLines h _ _ t ht

/-- So does a tick. -/
theorem clean_tickLines (m : Maps) : ∀ l ∈ tickLines o m, l.Clean := by
  have hcomm : ∀ l ∈ printProcOps o m.tick m.procOps, l.Clean := by
    intro l hl
    obtain ⟨e, -, rfl⟩ := List.mem_map.mp hl
    exact clean_commLine (by decide) _ _ _
  have hthr : ∀ l ∈ printThrOps o m.tick m.thrOps, l.Clean := by
    intro l hl
    obtain ⟨e, -, rfl⟩ := List.mem_map.mp hl
    exact clean_commLine (by decide) _ _ _
  unfold tickLines
  simp only [List.forall_mem_append]
  refine ⟨⟨⟨⟨⟨⟨⟨⟨⟨⟨⟨⟨⟨⟨⟨⟨⟨⟨?_, ?_⟩, ?_⟩, ?_⟩, ?_⟩, ?_⟩, ?_⟩, ?_⟩, hcomm⟩, ?_⟩,
    ?_⟩, ?_⟩, ?_⟩, ?_⟩,
    ?_⟩, ?_⟩, ?_⟩, ?_⟩, hthr⟩
  all_goals first
    | exact clean_print2 o (by decide) _
    | exact clean_print3 o (by decide) _
    | exact clean_printHist o (by decide) _

end Tick

/-- An entry is clean, its name apart. -/
def Entry.Clean : Entry → Prop
  | .line l => l.Clean
  | .mark => True

/-- The line of a timeout is clean, whatever its numbers are. -/
theorem cleanText_timeoutEventLine
    (tsNs ctrl qid tag opcode nsid flags cdw10 cdw11 cdw12 cdw13
    cdw14 cdw15 elapsedNs : Int) :
    CleanText (timeoutEventLine tsNs ctrl qid tag opcode nsid flags cdw10 cdw11
      cdw12 cdw13 cdw14
      cdw15 elapsedNs) := by
  unfold timeoutEventLine
  repeat' apply CleanText.append
  all_goals first
    | exact cleanText_ofInt _
    | decide

/-- So is the line of an error. -/
theorem cleanText_errorEventLine
    (tsNs ctrl qid cid tag opcode nsid status sct sc dnr more crd slba
    nlb retries cached elapsedNs : Int) :
    CleanText (errorEventLine tsNs ctrl qid cid tag opcode nsid status sct sc
      dnr more crd slba nlb
      retries cached elapsedNs) := by
  unfold errorEventLine
  repeat' apply CleanText.append
  all_goals first
    | exact cleanText_ofInt _
    | decide

/-- A completion prints nothing or the line of its error. -/
theorem completeRq_snd (s : Collector) (a : CompleteRq) :
    (s.completeRq a).2 = [] ∨ ∃ t : Collector, (s.completeRq a).2
      = [.line (.plain (t.errorLine a))] := by
  have hnote : ∀ t : Collector, (t.noteError a).2 = [] ∨
      (t.noteError a).2 = [.line (.plain (t.errorLine a))] := by
    intro t
    unfold Collector.noteError
    split
    · exact Or.inl rfl
    · dsimp only
      split
      · exact Or.inr rfl
      · exact Or.inl rfl
  rcases hnote (if Counters.word s.start (a.ctrl, a.qid, a.cid) ≠ 0
    then { s with
      maps := s.maps.countLatency a
        (a.nsecs - Counters.word s.start (a.ctrl, a.qid, a.cid))
        ((s.cmdTgid.get? (a.ctrl, a.qid, a.cid)).getD 0) } else s) with h | h
  · exact Or.inl h
  · exact Or.inr ⟨_, h⟩

/-- **Every step prints clean entries.** -/
theorem clean_step (o : PrintOrder) (s : Collector) (p : Probe) :
    ∀ e ∈ (s.step o p).2, e.Clean := by
  intro e he
  cases p with
  | setupCmd a => exact absurd he List.not_mem_nil
  | completeRq a =>
      rcases completeRq_snd s a with h | ⟨t, h⟩
      · rw [Collector.step, h] at he
        exact absurd he List.not_mem_nil
      · rw [Collector.step, h] at he
        rw [List.mem_singleton.mp he]
        exact cleanText_errorEventLine _ _ _ _ _ _ _ _ _ _ _ _ _ _ _ _ _ _
  | nvmeTimeout a =>
      rw [List.mem_singleton.mp he]
      exact cleanText_timeoutEventLine _ _ _ _ _ _ _ _ _ _ _ _ _ _
  | interval =>
      rcases List.mem_append.mp he with he | he
      · obtain ⟨l, hl, rfl⟩ := List.mem_map.mp he
        exact clean_tickLines o s.maps l hl
      · rw [List.mem_singleton.mp he]
        trivial

/-- The entries of a run are clean. -/
theorem clean_output (o : PrintOrder) (s : Collector) (probes : List Probe) :
    ∀ e ∈ s.output o probes, e.Clean := by
  induction probes generalizing s with
  | nil => exact fun e he => absurd he List.not_mem_nil
  | cons p probes ih =>
      intro e he
      rcases List.mem_append.mp he with he | he
      · exact clean_step o s p e he
      · exact ih _ e he

/-- So are those of a run with its greeting. -/
theorem clean_runOutput (o : PrintOrder) (probes : List Probe) :
    ∀ e ∈ runOutput o probes, e.Clean := by
  intro e he
  rcases List.mem_cons.mp he with rfl | he
  · show CleanText attachedLine
    decide
  · exact clean_output o {} probes e he

/-- A line that is printed between two ticks. -/
def IsEventLine (l : PrintedLine) : Prop :=
  l = .plain attachedLine ∨
    (∃ (s : Collector) (a : CompleteRq), l = .plain (s.errorLine a)) ∨
    ∃ (s : Collector) (a : NvmeTimeout), l = .plain (s.timeoutLine a)

/-- The line of an event is clean and has no name in it. -/
theorem IsEventLine.clean {l : PrintedLine} (h : IsEventLine l) :
    l.Clean ∧ l.name? = none := by
  rcases h with rfl | ⟨s, a, rfl⟩ | ⟨s, a, rfl⟩
  · refine ⟨?_, rfl⟩
    show CleanText attachedLine
    decide
  · exact ⟨cleanText_errorEventLine _ _ _ _ _ _ _ _ _ _ _ _ _ _ _ _ _ _, rfl⟩
  · exact ⟨cleanText_timeoutEventLine _ _ _ _ _ _ _ _ _ _ _ _ _ _, rfl⟩

/-- The line of a timeout begins with its mark. -/
theorem prefix_timeoutEventLine
    (tsNs ctrl qid tag opcode nsid flags cdw10 cdw11 cdw12 cdw13
    cdw14 cdw15 elapsedNs : Int) :
    "TIMEOUT_EVENT ts_ns=".toList <+:
      timeoutEventLine tsNs ctrl qid tag opcode nsid flags cdw10
      cdw11 cdw12 cdw13 cdw14 cdw15 elapsedNs := by
  unfold timeoutEventLine
  simp only [List.append_assoc]
  exact List.prefix_append _ _

/-- The line of an error begins with its mark. -/
theorem prefix_errorEventLine
    (tsNs ctrl qid cid tag opcode nsid status sct sc dnr more crd slba
    nlb retries cached elapsedNs : Int) :
    "ERROR_EVENT ts_ns=".toList <+:
      errorEventLine tsNs ctrl qid cid tag opcode nsid status sct sc
      dnr more crd slba nlb retries cached elapsedNs := by
  unfold errorEventLine
  simp only [List.append_assoc]
  exact List.prefix_append _ _

/-- The line of an event starts with a letter. -/
theorem IsEventLine.first {l : PrintedLine} (h : IsEventLine l) :
    ∃ c t, l.text = c :: t ∧ (c = 'n' ∨ c = 'E' ∨ c = 'T') := by
  rcases h with rfl | ⟨s, a, rfl⟩ | ⟨s, a, rfl⟩
  · exact ⟨_, _, rfl, Or.inl rfl⟩
  · obtain ⟨t, ht⟩ :
        "ERROR_EVENT ts_ns=".toList <+:
        (PrintedLine.plain (s.errorLine a)).text :=
      prefix_errorEventLine _ _ _ _ _ _ _ _ _ _ _ _ _ _ _ _ _ _
    exact ⟨'E', _, ht.symm, Or.inr (Or.inl rfl)⟩
  · obtain ⟨t, ht⟩ :
        "TIMEOUT_EVENT ts_ns=".toList <+:
        (PrintedLine.plain (s.timeoutLine a)).text :=
      prefix_timeoutEventLine _ _ _ _ _ _ _ _ _ _ _ _ _ _
    exact ⟨'T', _, ht.symm, Or.inr (Or.inr rfl)⟩

/-! ### The text of a log -/

/-- The text of some output. -/
def logText (entries : List Entry) : PyText := entries.flatMap Entry.text

/-- An entry is decoded on its own, whatever comes after it. -/
theorem decode_entry {e : Entry} (h : e.Clean) (rest : Bytes) :
    decode (e.bytes ++ rest) = e.text ++ decode rest := by
  cases e with
  | line l =>
      show decode (l.bytes ++ [newline] ++ rest) =
        l.text ++ ['\n'] ++ decode rest
      rw [List.append_assoc, List.append_assoc]
      exact decode_line h rest
  | mark =>
      exact decode_ascii_append (t := tickMarker ++ ['\n']) (by decide) rest

/-- The bytes of two logs in a row. -/
theorem logBytes_append (es es' : List Entry) :
    logBytes (es ++ es') = logBytes es ++ logBytes es' :=
  List.flatMap_append

/-- What comes after a log is at the start of a line. -/
theorem atLineStart_logBytes (es : List Entry) : AtLineStart (logBytes es) := by
  rcases List.eq_nil_or_concat es with rfl | ⟨es', e, rfl⟩
  · exact Or.inl rfl
  · right
    have hlast : ∃ body, e.bytes = body ++ [newline] := by
      cases e with
      | line l => exact ⟨_, rfl⟩
      | mark => exact ⟨_, rfl⟩
    obtain ⟨body, hbody⟩ := hlast
    rw [List.concat_eq_append]
    refine ⟨logBytes es' ++ body, ?_⟩
    rw [logBytes_append, List.append_assoc, ← hbody]
    simp [logBytes]

/-- **A log is read as it was written**, up to where it is cut. -/
theorem decode_logBytes {es : List Entry} (h : ∀ e ∈ es, e.Clean)
    (rest : Bytes) :
    decode (logBytes es ++ rest) = logText es ++ decode rest := by
  induction es with
  | nil => rfl
  | cons e es ih =>
      have hrest : decode (logBytes es ++ rest) = logText es ++ decode rest :=
        ih (fun d hd => h d (List.mem_cons_of_mem _ hd))
      calc decode (logBytes (e :: es) ++ rest)
          = decode (e.bytes ++ (logBytes es ++ rest)) := by simp [logBytes]
        _ = e.text ++ (logText es ++ decode rest) := by
            rw [decode_entry (h e List.mem_cons_self), hrest]
        _ = logText (e :: es) ++ decode rest := by simp [logText]

/-! ### The last tick of a log -/

/-- The lines of some output, with their line feeds. -/
def linesText (ls : List PrintedLine) : PyText :=
  ls.flatMap (fun l => l.text ++ ['\n'])

/-- The text of a log that begins with some lines. -/
theorem logText_lines (ls : List PrintedLine) (rest : List Entry) :
    logText (ls.map Entry.line ++ rest) = linesText ls ++ logText rest := by
  simp [logText, linesText, List.flatMap_map, Entry.text]

/-- Printed lines end with a line end. -/
theorem endsLine_linesText (ls : List PrintedLine) :
    EndsLine (linesText ls) := by
  rcases List.eq_nil_or_concat ls with rfl | ⟨ls', l, rfl⟩
  · exact Or.inl rfl
  · exact Or.inr ⟨linesText ls' ++ l.text, by simp [linesText]⟩

section

variable {ls : List PrintedLine} (hclean : ∀ l ∈ ls, l.Clean)
  (hnames : ∀ l ∈ ls, ∀ c ∈ l.name?, c.Harmless)

include hclean hnames

/-- Printed lines have no marker in them. -/
theorem linesText_no_marker : ¬ tickMarker <:+: linesText ls := by
  induction ls with
  | nil => exact fun h => absurd (List.infix_nil.mp h) tickMarker_ne_nil
  | cons l ls ih =>
      intro hi
      have hcons : linesText (l :: ls) = l.text ++ '\n' :: linesText ls := by
        simp [linesText]
      rw [hcons] at hi
      rcases infix_append_cons newline_notMem_tickMarker hi with h | h
      · exact line_no_marker (hclean l List.mem_cons_self)
          (hnames l List.mem_cons_self) h
      · exact ih (fun x hx => hclean x (List.mem_cons_of_mem _ hx))
          (fun x hx => hnames x (List.mem_cons_of_mem _ hx)) h

/-- Printed lines are cut as they were printed. -/
theorem splitlines_linesText (rest : PyText) :
    splitlines (linesText ls ++ rest) = ls.map PrintedLine.text ++
      splitlines rest := by
  have hlines : ∀ t ∈ ls.map PrintedLine.text, ∀ c ∈ t,
      isLineBoundary c = false := by
    intro t ht
    obtain ⟨l, hl, rfl⟩ := List.mem_map.mp ht
    exact line_not_isLineBoundary (hclean l hl) (hnames l hl)
  have := splitlines_lines hlines rest
  rw [List.flatMap_map] at this
  exact this

/-- Printed lines have no carriage return. -/
theorem no_cr_linesText : '\r' ∉ linesText ls := by
  intro hmem
  obtain ⟨l, hl, hc⟩ := List.mem_flatMap.mp hmem
  rcases List.mem_append.mp hc with hc | hc
  · exact absurd (line_not_isLineBoundary (hclean l hl) (hnames l hl) _ hc)
      (by decide)
  · exact absurd hc (by decide)

end

/-- What precedes a tick in a log: nothing, or something that ends with the
marker of another tick. -/
def TickStart (before : Bytes) : Prop :=
  before = [] ∨ ∃ a, AtLineStart a ∧ before = a ++ Entry.mark.bytes

/-- The newlines before and after a marker are translated apart. -/
theorem universalNewlines_of_marker (t : PyText) :
    universalNewlines (tickMarker ++ '\n' :: t) = tickMarker ++ '\n' ::
      universalNewlines t := by
  rw [universalNewlines_append_newline, universalNewlines_of_no_cr (by decide)]
  simp

/-- How the text of a log starts, before a tick. -/
theorem readAll_tickStart {before : Bytes} (h : TickStart before)
    (rest : Bytes) :
    readAll (some (before ++ rest)) = readAll (some rest) ∨
      ∃ x, EndsLine x ∧
        readAll (some (before ++ rest)) = x ++ tickMarker ++ '\n' ::
          readAll (some rest) := by
  rcases h with rfl | ⟨a, ha, rfl⟩
  · exact Or.inl rfl
  · right
    have hmark : Entry.mark.bytes = ascii (tickMarker ++ ['\n']) := rfl
    have hdecode : decode (a ++ Entry.mark.bytes ++ rest)
        = decode a ++ (tickMarker ++ '\n' :: decode rest) := by
      rw [hmark, decode_ascii_between (by decide) (by decide)]
      simp
    rw [readAll_some, readAll_some, hdecode]
    rcases ha with rfl | ⟨b, rfl⟩
    · exact ⟨[], Or.inl rfl, universalNewlines_of_marker _⟩
    · have hline : decode (b ++ [newline]) = decode b ++ ['\n'] :=
        decode_ascii_cut toNat_newline b []
      obtain ⟨s, hs⟩ := universalNewlines_ends (decode b)
      refine ⟨s ++ ['\n'], Or.inr ⟨s, rfl⟩, ?_⟩
      rw [hline, List.append_assoc, List.singleton_append,
        universalNewlines_append_newline, hs,
        universalNewlines_of_marker, List.append_assoc (s ++ ['\n'])]

/-- **The last complete tick of a log.**  It is the lines between the last two
markers, with the end of the first marker's line in front. -/
theorem lastComplete_readAll {before after : Bytes} (hbefore : TickStart before)
    {ls : List PrintedLine} (hclean : ∀ l ∈ ls, l.Clean)
    (hnames : ∀ l ∈ ls, ∀ c ∈ l.name?, c.Harmless)
    (hafter : ¬ tickMarker <:+: readAll (some after)) :
    ∃ x, (x = [] ∨ x = ['\n']) ∧
      lastComplete
        (readAll (some (before ++
        (logBytes (ls.map Entry.line ++ [.mark]) ++ after))))
        = some (x ++ linesText ls) := by
  have hentries : ∀ e ∈ ls.map Entry.line ++ [.mark], e.Clean := by
    intro e he
    rcases List.mem_append.mp he with he | he
    · obtain ⟨l, hl, rfl⟩ := List.mem_map.mp he
      exact hclean l hl
    · rw [List.mem_singleton.mp he]
      trivial
  have hmark : logText [Entry.mark] = tickMarker ++ ['\n'] := by
    simp [logText, Entry.text]
  have htick : readAll (some (logBytes (ls.map Entry.line ++ [.mark]) ++ after))
      = linesText ls ++ tickMarker ++ '\n' :: readAll (some after) := by
    rw [readAll_some, readAll_some, decode_logBytes hentries,
      logText_lines, hmark]
    have hsplit : linesText ls ++ (tickMarker ++ ['\n']) ++ decode after
        = (linesText ls ++ tickMarker) ++ '\n' :: decode after := by simp
    have hcr : '\r' ∉ linesText ls ++ tickMarker ++ ['\n'] := by
      simp only [List.mem_append, not_or]
      exact ⟨⟨no_cr_linesText hclean hnames, by decide⟩, by decide⟩
    rw [hsplit, universalNewlines_append_newline,
      universalNewlines_of_no_cr hcr]
    simp
  have hrest : ¬ tickMarker <:+: '\n' :: readAll (some after) := by
    intro hi
    rcases infix_append_cons (l := []) newline_notMem_tickMarker hi with h | h
    · exact absurd (List.infix_nil.mp h) tickMarker_ne_nil
    · exact hafter h
  have hline := endsLine_linesText ls
  have hno := linesText_no_marker hclean hnames
  rcases readAll_tickStart hbefore (logBytes (ls.map Entry.line ++ [.mark]) ++
    after) with h | ⟨x, hx, h⟩
  · refine ⟨[], Or.inl rfl, ?_⟩
    rw [h, htick]
    exact lastComplete_first hline hno hrest
  · refine ⟨['\n'], Or.inr rfl, ?_⟩
    rw [h, htick]
    exact lastComplete_later hx hline hno hrest

/-- A log of whole entries ends with a line feed. -/
theorem endsLine_logText (es : List Entry) : EndsLine (logText es) := by
  rcases List.eq_nil_or_concat es with rfl | ⟨es', e, rfl⟩
  · exact Or.inl rfl
  · cases e with
    | line l =>
        exact Or.inr ⟨logText es' ++ l.text, by simp [logText, Entry.text]⟩
    | mark =>
        exact Or.inr ⟨logText es' ++ tickMarker, by simp [logText, Entry.text]⟩

end Telemetryd
