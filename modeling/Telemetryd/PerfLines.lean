import Telemetryd.EbpfPerf
import Telemetryd.TickText

/-!
# The collector's lines in the eyes of the performance parser

A line with exactly two integer keys is a counter.  A line with more keys, the
row of a histogram and the line of an event are passed over.
-/

namespace Telemetryd

open PyText Regex Utf8

/-! ### Keys and values -/

/-- What follows the numeral of a key is no digit. -/
theorem notStarting_decimal [UnicodeDb] {c : Char} (hascii : c.toNat < 128)
    (h : c.isDigit = false)
    (t : PyText) : NotStarting isDecimal (c :: t) := by
  refine notStarting_cons ?_ t
  rw [isDecimal_ascii hascii, h]

/-- The text of an integer starts with no blank. -/
theorem notStarting_space_ofInt (i : Int) (t : PyText) :
    NotStarting isSpace (ofInt i ++ t) := by
  intro c s heq
  have hmem : c ∈ ofInt i := by
    cases h : ofInt i with
    | nil =>
        obtain ⟨d, hd, -⟩ := getLast?_ofInt i
        rw [h] at hd
        exact absurd hd (by simp)
    | cons d ds =>
        rw [h] at heq
        obtain ⟨rfl, -⟩ := List.cons.inj heq
        exact List.mem_cons_self
  rcases mem_ofInt hmem with rfl | hd
  · decide
  · exact isSpace_of_isDigit hd

section

variable [UnicodeDb]

theorem blocks_intGroup_space (segs : Pattern) :
    Blocks (fun c => c == ' ') (intGroup :: segs) := by
  refine blocks_signed true segs ?_
  intro d hd
  obtain rfl : d = ' ' := by simpa using hd
  refine ⟨by decide, ?_⟩
  rw [isDecimal_ascii (by decide)]
  rfl

/-- A further key, `,\s*(-?\d+)`. -/
theorem run_nextKey (k : Int) {t : PyText} {segs : Pattern}
    (ht : NotStarting isDecimal t)
    (hsegs : Blocks Char.isDigit segs) :
    run (text [','] :: skip (.many 0 isSpace) :: intGroup ::
      segs) (", ".toList ++ ofInt k ++ t)
      = (run segs t).map (fun caps => ofInt k :: caps) := by
  have hblank :
    ", ".toList ++ ofInt k ++ t = [','] ++ ([' '] ++ (ofInt k ++ t)) := by simp
  rw [hblank, run_text_append, skip,
    run_many (q := fun c => c == ' ') false (by decide) (by decide)
      (Nat.zero_le _)
      (notStarting_space_ofInt k t) (blocks_intGroup_space _),
        run_intGroup k ht hsegs]
  simp

/-- The value of a line, `\s*(\d+)` and what ends the line. -/
theorem run_lineValue {ending : Pattern} (hblocks : Blocks Char.isDigit ending)
    (hnil : run ending [] = [[]]) (v : Nat) :
    run (skip (.many 0 isSpace) :: numGroup :: ending) (' ' :: ofNat v) =
      [[ofNat v]] := by
  have hsplit : ' ' :: ofNat v = [' '] ++ ofNat v := rfl
  have hspace : NotStarting isSpace (ofNat v) := by
    have := notStarting_space_ofInt (v : Int) []
    rwa [List.append_nil] at this
  have hblank : Blocks (fun c => c == ' ') (numGroup :: ending) := by
    intro d r hd
    obtain rfl : d = ' ' := by simpa using hd
    refine run_many_of_notStarting true (by decide)
      (notStarting_decimal (by decide) (by decide) r)
  have hnum := run_numGroup v (notStarting_nil isDecimal) hblocks
  rw [List.append_nil, hnil] at hnum
  rw [hsplit, skip,
    run_many (q := fun c => c == ' ') false (by decide) (by decide)
    (Nat.zero_le _)
    hspace hblank, hnum]
  rfl

/-- The integers of the collector are small enough for `int()`. -/
theorem pyInt_word (v : UInt64) : pyInt (ofNat v.toNat) = .ok (v.toNat : Int) :=
  pyInt_ofInt_word (i := (v.toNat : Int)) (by have := v.toNat_lt; omega)

theorem pyInt_key (k : Int64) : pyInt (ofInt k.toInt) = .ok k.toInt := by
  have h1 := k.le_toInt
  have h2 := k.toInt_lt
  exact pyInt_ofInt_word (by omega)

/-- A name of a map: a word of ASCII characters. -/
def IsMapName (name : PyText) : Prop :=
  name ≠ [] ∧ ∀ c ∈ name, c.toNat < 128 ∧ (c.isAlphanum || c == '_') = true

instance (name : PyText) : Decidable (IsMapName name) :=
  inferInstanceAs (Decidable (_ ∧ _))

/-- **Two keys.**  The parser reads the name and two keys of a line, and goes on
behind the second. -/
theorem run_twoKeys {name : PyText} (hname : IsMapName name) (a b : Int)
    {t : PyText}
    (ht : NotStarting isDecimal t) (rest : Pattern) :
    run (twoKeys rest) ('@' :: name ++ '[' :: ofInt a ++ ", ".toList ++
      ofInt b ++ t)
      = (run (text [']', ':'] :: rest) t).map
        (fun caps => name :: ofInt a :: ofInt b :: caps) := by
  have hword : ∀ c ∈ name, isWord c = true := by
    intro c hc
    rw [isWord_ascii (hname.2 c hc).1]
    exact (hname.2 c hc).2
  have hbracket : isWord '[' = false := by
    rw [isWord_ascii (by decide)]
    decide
  have hline : '@' :: name ++ '[' :: ofInt a ++ ", ".toList ++ ofInt b ++ t
      = ['@'] ++ (name ++
        (['['] ++ (ofInt a ++ (", ".toList ++ ofInt b ++ t)))) := by simp
  have hopen :
      NotStarting isWord (['['] ++
      (ofInt a ++ (", ".toList ++ ofInt b ++ t))) :=
    notStarting_cons hbracket _
  have hcomma : NotStarting isDecimal (", ".toList ++ ofInt b ++ t) :=
    notStarting_decimal (by decide) (by decide) _
  have hlen : 1 ≤ name.length := List.length_pos_iff.mpr hname.1
  rw [hline, twoKeys, run_text_append, group,
    run_many true hword hword hlen hopen (blocks_text hbracket [] _),
    run_text_append,
    run_intGroup a hcomma (blocks_text (by decide) [] _),
    run_nextKey b ht (blocks_text (by decide) [':'] _)]
  simp

/-- Three keys or more are one too many. -/
theorem run_twoKeys_of_more {name : PyText} (hname : IsMapName name) (a b : Int)
    (t : PyText)
    (rest : Pattern) :
    run (twoKeys rest) ('@' :: name ++ '[' :: ofInt a ++ ", ".toList ++
      ofInt b ++ ',' :: t)
      = [] := by
  rw [run_twoKeys hname a b (notStarting_decimal (by decide) (by decide) t),
    run_text_of_ne (by decide)]
  rfl

end

/-! ### Stripped lines -/

theorem getLast?_ofNat (n : Nat) :
    ∃ d, (ofNat n).getLast? = some d ∧ d.isDigit = true :=
  getLast?_ofInt (n : Int)

/-- A line that starts with `@` and ends with a number is not stripped. -/
theorem strip_valueLine (t : PyText) (n : Nat) :
    strip ('@' :: t ++ ofNat n) = '@' :: t ++ ofNat n := by
  obtain ⟨d, hd, hdigit⟩ := getLast?_ofNat n
  refine strip_of_ends rfl ?_ (by decide) (isSpace_of_isDigit hdigit)
  rw [List.getLast?_append, hd]
  rfl

theorem strip_commLine (name : PyText) (ks : List Int64) (comm : Comm)
    (v : UInt64) :
    strip (commLine name ks comm v).text = (commLine name ks comm v).text := by
  obtain ⟨u, hu⟩ : ∃ u, (commLine name ks comm v).text =
      '@' :: u ++ ofNat v.toNat :=
    ⟨name ++ '[' :: keyText ks ++ [','] ++ ' ' ::
      (decode comm.bytes ++ "]: ".toList),
      by simp [commLine, PrintedLine.text]⟩
  rw [hu]
  exact strip_valueLine u _

section

variable [UnicodeDb]

/-- The line matches neither pattern of the performance parser. -/
def Ignored (line : PyText) : Prop :=
  match? scalarRe (strip line) = none ∧ match? histKeyRe (strip line) = none

theorem ignored_of_run {line : PyText}
    (h : ∀ rest, run (twoKeys rest) (strip line) = []) :
    Ignored line := by
  refine ⟨?_, ?_⟩
  · rw [match?, scalarRe, h]
    rfl
  · rw [match?, histKeyRe, h]
    rfl

/-- A line that starts with neither `@` nor a blank is ignored. -/
theorem ignored_of_first {c : Char} (hc : c ≠ '@') (hspace : isSpace c = false)
    (t : PyText) :
    Ignored (c :: t) := by
  obtain ⟨s, hs⟩ := strip_cons hspace t
  refine ignored_of_run fun rest => ?_
  rw [hs]
  exact run_text_of_ne hc.symm [] s _

theorem ignored_nil : Ignored [] := by
  refine ignored_of_run fun rest => ?_
  show run (twoKeys rest) [] = []
  exact run_text_nil_text [] _

/-- A counter with three keys. -/
theorem ignored_mapLine {name : PyText} (hname : IsMapName name) (a b c : Int64)
    (v : UInt64) : Ignored (mapLine name [a, b, c] v) := by
  refine ignored_of_run fun rest => ?_
  have hline : mapLine name [a, b, c] v = '@' :: name ++ '[' :: ofInt a.toInt ++
      ", ".toList ++
      ofInt b.toInt ++ ',' ::
        (' ' :: (ofInt c.toInt ++ "]: ".toList ++ ofNat v.toNat)) := by
    simp [mapLine, keyText]
  have hstrip : strip (mapLine name [a, b, c] v) = mapLine name [a, b, c] v :=
    strip_valueLine _ _
  rw [hstrip, hline]
  exact run_twoKeys_of_more hname _ _ _ rest

/-- A counter with the name of a process among its keys. -/
theorem ignored_commLine {name : PyText} (hname : IsMapName name) (a b : Int64)
    (ks : List Int64)
    (comm : Comm) (v : UInt64) :
    Ignored (commLine name (a :: b :: ks) comm v).text := by
  obtain ⟨t, ht⟩ : ∃ t, (commLine name (a :: b :: ks) comm v).text =
      '@' :: name ++
      '[' :: ofInt a.toInt ++ ", ".toList ++ ofInt b.toInt ++ ',' :: t := by
    cases ks with
    | nil => exact ⟨_, by simp [commLine, PrintedLine.text, keyText]; rfl⟩
    | cons c ks => exact ⟨_, by simp [commLine, PrintedLine.text, keyText]; rfl⟩
  refine ignored_of_run fun rest => ?_
  rw [strip_commLine, ht]
  exact run_twoKeys_of_more hname _ _ t rest

/-- **A counter with two keys** is read. -/
theorem match_mapLine {name : PyText} (hname : IsMapName name) (a b : Int64)
    (v : UInt64) :
    match? scalarRe (strip (mapLine name [a, b] v))
      = some [name, ofInt a.toInt, ofInt b.toInt, ofNat v.toNat] := by
  have hline : mapLine name [a, b] v = '@' :: name ++ '[' :: ofInt a.toInt ++
      ", ".toList ++
      ofInt b.toInt ++ ([']', ':'] ++ (' ' :: ofNat v.toNat)) := by
    simp [mapLine, keyText]
  have hstrip : strip (mapLine name [a, b] v) = mapLine name [a, b] v :=
    strip_valueLine _ _
  have ht : NotStarting isDecimal ([']', ':'] ++ (' ' :: ofNat v.toNat)) :=
    notStarting_decimal (by decide) (by decide) _
  rw [hstrip, hline, match?, scalarRe, run_twoKeys hname _ _ ht,
    run_text_append,
    run_lineValue blocks_endOfLine run_endOfLine_nil]
  rfl

/-- The key of a histogram is read as such. -/
theorem match_histKey {name : PyText} (hname : IsMapName name) (a b : Int64) :
    let line := '@' :: name ++ '[' :: keyText [a, b] ++ "]: ".toList
    match? scalarRe (strip line) = none ∧
      match? histKeyRe (strip line) =
        some [name, ofInt a.toInt, ofInt b.toInt] := by
  intro line
  have hstrip :
      strip line = '@' :: name ++ '[' :: ofInt a.toInt ++ ", ".toList ++
      ofInt b.toInt ++ ([']', ':'] ++ []) := by
    have hline : line = ('@' :: name ++ '[' :: ofInt a.toInt ++ ", ".toList ++
        ofInt b.toInt ++ ([']', ':'] ++ [])) ++ [' '] := by
      simp [line, keyText]
    rw [hline]
    refine strip_append_space (y := ':') rfl ?_ (by decide) (by decide)
      (by decide)
    rw [List.append_nil, List.getLast?_append]
    rfl
  have ht : NotStarting isDecimal ([']', ':'] ++ []) :=
    notStarting_decimal (by decide) (by decide) _
  have hnone : run (skip (.many 0 isSpace) :: numGroup :: endOfLine) [] =
      [] := by
    rw [skip, run_many_zero false (notStarting_nil _), numGroup, group,
      run_many_of_notStarting true (by decide) (notStarting_nil _)]
    rfl
  rw [hstrip]
  refine ⟨?_, ?_⟩
  · rw [match?, scalarRe, run_twoKeys hname _ _ ht, run_text_append, hnone]
    rfl
  · rw [match?, histKeyRe, run_twoKeys hname _ _ ht, run_text_append,
      run_endOfLine_nil]
    rfl

end

end Telemetryd
