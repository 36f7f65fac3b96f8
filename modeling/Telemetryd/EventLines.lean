import Telemetryd.Lib.PyNumber
import Telemetryd.Lib.Regex

/-!
# Event lines

Both kinds of event are one line of labelled integers, such as
`TIMEOUT_EVENT ts_ns=5 ctrl=0 …`, and both readers match it with a pattern of
the same shape.  A line that was printed in the format is matched in exactly
one way, and the groups are the numerals that were printed.
-/

namespace Telemetryd

open PyText Regex

/-- `\s*$` -/
def endOfLine : Pattern := [skip (.many 0 isSpace), skip .eos]

/-- A label and whether the integer after it may be negative. -/
structure Field where
  label : PyText
  isSigned : Bool

/-- A line of labelled integers. -/
def eventLine (fields : List Field) (values : List Int) : PyText :=
  (List.zipWith (fun f v => f.label ++ ofInt v) fields values).flatten

theorem blocks_endOfLine : Blocks Char.isDigit endOfLine :=
  blocks_many_zero false (fun _ hd =>
    isSpace_of_isDigit hd) (blocks_eos (by decide) [])

@[simp] theorem run_endOfLine_nil : run endOfLine [] = [[]] := by
  rw [endOfLine, skip, run_many_zero false (notStarting_nil _), run_eos_nil]
  rfl

section

variable [UnicodeDb]

/-- The group `(\d+)`. -/
def numGroup : Segment := group [.many 1 isDecimal]

/-- The group `(-?\d+)`. -/
def intGroup : Segment := group (signed isDecimal)

/-- The name of a device, `^nvme(\d+)$`. -/
def deviceRe : Pattern := [text "nvme".toList, numGroup, skip .eos]

/-- `label(\d+)` or `label(-?\d+)` for each field, then the end of the line. -/
def eventPattern : List Field → Pattern
  | [] => endOfLine
  | f :: fields =>
      text f.label :: (if f.isSigned then intGroup else numGroup) ::
        eventPattern fields

/-! ### Natural numbers -/

theorem intValue_nonneg {s : PyText} (h : ∀ c ∈ s, isDecimal c = true) :
    0 ≤ intValue s := by
  unfold intValue
  split
  case h_1 ds =>
    have hminus : isDecimal '-' = false := by
      rw [isDecimal_ascii (by decide)]
      decide
    have hdigit := h '-' List.mem_cons_self
    rw [hminus] at hdigit
    cases hdigit
  case h_2 => exact Int.natCast_nonneg _

theorem pyInt_nonneg {s : PyText} (h : ∀ c ∈ s, isDecimal c = true) {v : Int}
    (hv : pyInt s = .ok v) :
    0 ≤ v := by
  unfold pyInt at hv
  split at hv
  · cases hv
  · rw [← Except.ok.inj hv]
    exact intValue_nonneg h

/-- The last group is a row of digits, if it is one `(\d+)`. -/
theorem digits_of_lastGroup {segs rest : Pattern} {t : PyText}
    {groups : List PyText}
    (h : match? (segs ++ numGroup :: rest) t = some groups)
    (hrest : rest.countP (fun seg => seg.captured) = 0) :
    ∃ front value, groups = front ++ [value] ∧
      front.length = segs.countP (fun seg => seg.captured) ∧
        ∀ c ∈ value, isDecimal c = true := by
  have hmem : groups ∈ run (segs ++ numGroup :: rest) t :=
    List.mem_of_mem_head? h
  obtain ⟨r, front, back, rfl, hfront, hback⟩ := captures_of_mem_run hmem
  obtain ⟨value, r', caps, hvalue, hcaps, rfl⟩ := mem_run_cons hback
  have hnone : caps = [] :=
    List.length_eq_zero_iff.mp ((length_of_mem_run hcaps).trans hrest)
  refine ⟨front, value, by rw [hnone]; rfl, hfront, ?_⟩
  have hone : (value, r') ∈ Piece.run (.many 1 isDecimal) r := by
    rw [← runPieces_singleton]
    exact hvalue
  exact (sound_of_mem_splits (List.mem_filter.mp hone).1).2

/-! ### Matching a printed line -/

/-- A label starts with an ASCII character that is no digit. -/
def Field.Plain (f : Field) : Prop :=
  ∃ c s, f.label = c :: s ∧ c.toNat < 128 ∧ c.isDigit = false

/-- **A printed integer is matched in one way.** -/
theorem run_intGroup (i : Int) {t : PyText} {segs : Pattern}
    (ht : NotStarting isDecimal t)
    (hsegs : Blocks Char.isDigit segs) :
    run (intGroup :: segs) (ofInt i ++ t) =
      (run segs t).map (fun caps => ofInt i :: caps) := by
  obtain ⟨sign, ds, hi, hsign, hds, hne⟩ := ofInt_eq_sign_append i
  have hminus : isDecimal '-' = false := by
    rw [isDecimal_ascii (by decide)]
    rfl
  rw [hi]
  exact run_signed true hminus hsign (fun c hc =>
    isDecimal_of_isDigit (hds c hc)) hds hne ht hsegs

/-- A printed natural number is matched in one way. -/
theorem run_numGroup (n : Nat) {t : PyText} {segs : Pattern}
    (ht : NotStarting isDecimal t)
    (hsegs : Blocks Char.isDigit segs) :
    run (numGroup :: segs) (ofNat n ++ t) =
      (run segs t).map (fun caps => ofNat n :: caps) :=
  run_many true (fun _ hc => isDecimal_of_isDigit (isDigit_of_mem_ofNat hc))
    (fun _ hc =>
      isDigit_of_mem_ofNat hc) (List.length_pos_iff.mpr (ofNat_ne_nil n)) ht
      hsegs

theorem blocks_eventPattern {fields : List Field} (h : ∀ f ∈ fields, f.Plain) :
    Blocks Char.isDigit (eventPattern fields) := by
  cases fields with
  | nil => exact blocks_endOfLine
  | cons f fields =>
      obtain ⟨c, s, hlabel, -, hc⟩ := h f List.mem_cons_self
      rw [eventPattern, hlabel]
      exact blocks_text hc s _

theorem notStarting_eventLine {fields : List Field} (h : ∀ f ∈ fields, f.Plain)
    (values : List Int) : NotStarting isDecimal (eventLine fields values) := by
  cases fields with
  | nil => exact notStarting_nil _
  | cons f fields =>
      cases values with
      | nil => exact notStarting_nil _
      | cons v values =>
          obtain ⟨c, s, hlabel, hascii, hc⟩ := h f List.mem_cons_self
          have hline : eventLine (f :: fields) (v :: values)
              = c :: (s ++ ofInt v ++ eventLine fields values) := by
            simp [eventLine, hlabel]
          rw [hline]
          refine notStarting_cons ?_ _
          rw [isDecimal_ascii hascii, hc]

/-- **A printed line is matched in one way**, and its groups are the
integers. -/
theorem run_eventPattern {fields : List Field} {values : List Int}
    (h : List.Forall₂ (fun f v => f.isSigned = true ∨ 0 ≤ v) fields values)
    (hplain : ∀ f ∈ fields, f.Plain) :
    run (eventPattern fields) (eventLine fields values) =
      [values.map ofInt] := by
  induction h with
  | nil => exact run_endOfLine_nil
  | cons hfv _ ih =>
      rename_i f v fields values _
      have hrest : ∀ g ∈ fields, g.Plain :=
        fun g hg => hplain g (List.mem_cons_of_mem _ hg)
      have hline : eventLine (f :: fields) (v :: values)
          = f.label ++ (ofInt v ++ eventLine fields values) := by
        simp [eventLine]
      have ht := notStarting_eventLine hrest values
      have hb := blocks_eventPattern hrest
      rw [eventPattern, hline, run_text_append]
      by_cases hs : f.isSigned = true
      · rw [if_pos hs, run_intGroup v ht hb, ih hrest]
        rfl
      · have hv : 0 ≤ v := by
          rcases hfv with h | h
          · exact absurd h hs
          · exact h
        obtain ⟨n, rfl⟩ := Int.eq_ofNat_of_zero_le hv
        rw [if_neg hs, show ofInt (n : Int) = ofNat n from rfl,
          run_numGroup n ht hb, ih hrest]
        rfl

/-- A negative number where the pattern takes no sign is not matched. -/
theorem run_numGroup_negSucc (n : Nat) (t : PyText) (segs : Pattern) :
    run (numGroup :: segs) (ofInt (Int.negSucc n) ++ t) = [] := by
  have hminus : isDecimal '-' = false := by
    rw [isDecimal_ascii (by decide)]
    rfl
  exact run_many_of_notStarting true Nat.one_pos
    (notStarting_cons hminus (ofNat (n + 1) ++ t))

/-- **A line with such a number is not matched at all.** -/
theorem run_eventPattern_negative {fields : List Field} {values : List Int}
    (hplain : ∀ f ∈ fields, f.Plain)
    (h : ∃ e ∈ fields.zip values, e.1.isSigned = false ∧ e.2 < 0) :
    run (eventPattern fields) (eventLine fields values) = [] := by
  induction fields generalizing values with
  | nil =>
      obtain ⟨e, he, -⟩ := h
      exact absurd he List.not_mem_nil
  | cons f fields ih =>
      cases values with
      | nil =>
          obtain ⟨e, he, -⟩ := h
          exact absurd he List.not_mem_nil
      | cons v values =>
          have hrest : ∀ g ∈ fields, g.Plain :=
            fun g hg => hplain g (List.mem_cons_of_mem _ hg)
          have hline : eventLine (f :: fields) (v :: values)
              = f.label ++ (ofInt v ++ eventLine fields values) := by
            simp [eventLine]
          have ht := notStarting_eventLine hrest values
          have hb := blocks_eventPattern hrest
          rw [eventPattern, hline, run_text_append]
          by_cases hs : f.isSigned = true
          · have htail : ∃ e ∈ fields.zip values, e.1.isSigned = false ∧
                e.2 < 0 := by
              obtain ⟨e, he, hsigned, hneg⟩ := h
              rcases List.mem_cons.mp he with rfl | he
              · exact absurd (hs.symm.trans hsigned) (by simp)
              · exact ⟨e, he, hsigned, hneg⟩
            rw [if_pos hs, run_intGroup v ht hb, ih hrest htail]
            rfl
          · rw [if_neg hs]
            cases v with
            | negSucc n => exact run_numGroup_negSucc n _ _
            | ofNat n =>
                have htail : ∃ e ∈ fields.zip values, e.1.isSigned = false ∧
                    e.2 < 0 := by
                  obtain ⟨e, he, hsigned, hneg⟩ := h
                  rcases List.mem_cons.mp he with rfl | he
                  · exact absurd hneg (by simp)
                  · exact ⟨e, he, hsigned, hneg⟩
                rw [show ofInt (Int.ofNat n) = ofNat n from rfl,
                  run_numGroup n ht hb,
                  ih hrest htail]
                rfl

end

/-! ### Nothing to strip -/

theorem getLast?_ofInt (i : Int) :
    ∃ d, (ofInt i).getLast? = some d ∧ d.isDigit = true := by
  obtain ⟨sign, ds, hi, -, hds, hne⟩ := ofInt_eq_sign_append i
  refine ⟨ds.getLast hne, ?_, hds _ (List.getLast_mem hne)⟩
  rw [hi, List.getLast?_append_of_ne_nil _ hne,
    List.getLast?_eq_some_getLast hne]

/-- A line of integers ends in a digit. -/
theorem getLast?_eventLine {fields : List Field} {values : List Int}
    (hlen : fields.length = values.length) (hne : fields ≠ []) :
    ∃ d, (eventLine fields values).getLast? = some d ∧ d.isDigit = true := by
  induction fields generalizing values with
  | nil => exact absurd rfl hne
  | cons f fields ih =>
      cases values with
      | nil => exact absurd hlen (by simp)
      | cons v values =>
          have hline : eventLine (f :: fields) (v :: values)
              = f.label ++ ofInt v ++ eventLine fields values := by
            simp [eventLine]
          rw [hline]
          by_cases hnil : fields = []
          · subst hnil
            obtain ⟨d, hd, hdigit⟩ := getLast?_ofInt v
            refine ⟨d, ?_, hdigit⟩
            rw [eventLine, List.zipWith_nil_left, List.flatten_nil,
              List.append_nil,
              List.getLast?_append, hd]
            rfl
          · obtain ⟨d, hd, hdigit⟩ := ih (Nat.succ.inj hlen) hnil
            refine ⟨d, ?_, hdigit⟩
            rw [List.getLast?_append, hd]
            rfl

/-- A line of integers is not stripped, unless its first label is. -/
theorem strip_eventLine {f : Field} {fields : List Field} {values : List Int}
    (hlen : (f :: fields).length = values.length) {c : Char} {s : PyText}
    (hlabel : f.label = c :: s) (hc : isSpace c = false) :
    strip (eventLine (f :: fields) values) =
      eventLine (f :: fields) values := by
  obtain ⟨d, hd, hdigit⟩ := getLast?_eventLine hlen (List.cons_ne_nil f fields)
  cases values with
  | nil => exact absurd hlen (by simp)
  | cons v values =>
      have hline : eventLine (f :: fields) (v :: values)
          = c :: (s ++ (ofInt v ++ eventLine fields values)) := by
        simp [eventLine, hlabel]
      exact strip_of_ends hline hd hc (isSpace_of_isDigit hdigit)

/-! ### The characters of a line -/

theorem mem_ofInt {i : Int} {c : Char} (h : c ∈ ofInt i) :
    c = '-' ∨ c.isDigit = true := by
  obtain ⟨sign, ds, hi, hsign, hds, -⟩ := ofInt_eq_sign_append i
  rw [hi] at h
  rcases List.mem_append.mp h with h | h
  · rcases hsign with rfl | rfl
    · exact absurd h List.not_mem_nil
    · exact Or.inl (List.mem_singleton.mp h)
  · exact Or.inr (hds c h)

/-- A property of the minus sign, of the digits and of the labels is one of the
whole line. -/
theorem forall_mem_eventLine {P : Char → Prop} {fields : List Field}
    (values : List Int)
    (hminus : P '-') (hdigit : ∀ c, c.isDigit = true → P c)
    (hlabel : ∀ f ∈ fields, ∀ c ∈ f.label, P c) :
    ∀ c ∈ eventLine fields values, P c := by
  induction fields generalizing values with
  | nil => exact fun c hc => absurd hc List.not_mem_nil
  | cons f fields ih =>
      cases values with
      | nil => exact fun c hc => absurd hc List.not_mem_nil
      | cons v values =>
          intro c hc
          have hline : eventLine (f :: fields) (v :: values)
              = f.label ++ ofInt v ++ eventLine fields values := by
            simp [eventLine]
          rw [hline] at hc
          rcases List.mem_append.mp hc with hc | hc
          · rcases List.mem_append.mp hc with hc | hc
            · exact hlabel f List.mem_cons_self c hc
            · rcases mem_ofInt hc with rfl | hd
              · exact hminus
              · exact hdigit c hd
          · exact ih values (fun g hg =>
              hlabel g (List.mem_cons_of_mem _ hg)) c hc

end Telemetryd
