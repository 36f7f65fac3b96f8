import Telemetryd.Lib.PyText

/-!
# Splitting a command line like a shell

`shlex.split`: words are separated by blanks, quotes keep a blank inside a word,
and a backslash takes the next character as it is, between double quotes only
if that is a backslash or a double quote.  A line that ends inside quotes or
right after a backslash is malformed.

Every quote and every backslash that is not itself quoted is consumed.  So what
is returned, with one separator between any two words, is at most as long as the
line, and as long only if there are none.  This decides which lists of words can
be joined with blanks and split again without loss.
-/

namespace Shlex

open PyText

/-- `whitespace` -/
def isBlank (c : Char) : Bool := c == ' ' || c == '\t' || c == '\r' || c == '\n'

/-- `quotes` -/
def isQuote (c : Char) : Bool := c == '\'' || c == '"'

/-- `escape` -/
def isEscape (c : Char) : Bool := c == '\\'

/-- The two texts of `ValueError`. -/
inductive Malformed where
  | noClosingQuotation
  | noEscapedCharacter
  deriving DecidableEq

/-- `state`: between words, inside a word, inside quotes, or after a backslash
that was met inside a word or inside the given quotes. -/
inductive Mode where
  | blank
  | word
  | quoted (quote : Char)
  | escaped (inside : Option Char)

/-- The rest of the words, from a mode, the characters of the word that has
begun and whether a quote belongs to it. -/
def scan : Mode → PyText → Bool → PyText → Except Malformed (List PyText)
  | .blank, token, quoted, [] =>
      .ok (if token ≠ [] ∨ quoted then [token] else [])
  | .blank, token, quoted, c :: s =>
      if isBlank c then
        if token ≠ [] ∨ quoted then (token :: ·) <$> scan .blank [] false s
        else scan .blank token quoted s
      else if isEscape c then scan (.escaped none) token quoted s
      else if isQuote c then scan (.quoted c) token quoted s
      else scan .word [c] quoted s
  | .quoted _, _, _, [] => .error .noClosingQuotation
  | .quoted q, token, _, c :: s =>
      if c = q then scan .word token true s
      else if isEscape c ∧ q = '"' then scan (.escaped (some q)) token true s
      else scan (.quoted q) (token ++ [c]) true s
  | .escaped _, _, _, [] => .error .noEscapedCharacter
  | .escaped none, token, quoted, c :: s => scan .word (token ++ [c]) quoted s
  | .escaped (some q), token, quoted, c :: s =>
      scan (.quoted q) (token ++ (if c ≠ '\\' ∧ c ≠ q then ['\\', c]
        else [c])) quoted s
  | .word, token, quoted, [] =>
      .ok (if token ≠ [] ∨ quoted then [token] else [])
  | .word, token, quoted, c :: s =>
      if isBlank c then
        if token ≠ [] ∨ quoted then (token :: ·) <$> scan .blank [] false s
        else scan .blank token quoted s
      else if isQuote c then scan (.quoted c) token quoted s
      else if isEscape c then scan (.escaped none) token quoted s
      else scan .word (token ++ [c]) quoted s

/-- `shlex.split(line)` -/
def split (line : PyText) : Except Malformed (List PyText) :=
  scan .blank [] false line

example : split "a 'b c' \"d\\\"e\\f\" '' g\\ h".toList
    = .ok ["a".toList, "b c".toList, "d\"e\\f".toList, [], "g h".toList] := by
  decide

example : split "it's".toList = .error .noClosingQuotation := by decide

/-- A quote or a backslash. -/
def isSpecial (c : Char) : Bool := isQuote c || isEscape c

/-- Neither a blank nor a quote nor a backslash. -/
def isPlain (c : Char) : Bool := !isBlank c && !isSpecial c

/-! ### A line without quotes -/

theorem scan_of_no_special {s : PyText} (h : ∀ c ∈ s, isSpecial c = false) :
    scan .blank [] false s = .ok (wordsGo isBlank [] s) ∧
      ∀ token, token ≠ [] →
        scan .word token false s = .ok (wordsGo isBlank token s) := by
  induction s with
  | nil =>
      refine ⟨rfl, fun token hne => ?_⟩
      simp [scan, wordsGo, hne]
  | cons c s ih =>
      obtain ⟨hblank, hword⟩ := ih fun d hd => h d (List.mem_cons_of_mem _ hd)
      have hc := h c List.mem_cons_self
      have hq : isQuote c = false := by
        simp only [isSpecial, Bool.or_eq_false_iff] at hc
        exact hc.1
      have he : isEscape c = false := by
        simp only [isSpecial, Bool.or_eq_false_iff] at hc
        exact hc.2
      refine ⟨?_, fun token hne => ?_⟩
      · by_cases hb : isBlank c = true
        · simp [scan, wordsGo, hb, hblank]
        · simp [scan, wordsGo, hb, hq, he, hword [c] (by simp)]
      · by_cases hb : isBlank c = true
        · simp [scan, wordsGo, hb, hne, hblank]
        · simp [scan, wordsGo, hb, hq, he, hword (token ++ [c]) (by simp)]

/-- Without quotes and backslashes the words are those between the blanks. -/
theorem split_of_no_special {s : PyText} (h : ∀ c ∈ s, isSpecial c = false) :
    split s = .ok (wordsBy isBlank s) := (scan_of_no_special h).1

/-! ### What is consumed -/

/-- The length of some words, with one separator after each. -/
def spread (l : List PyText) : Nat := (l.map (fun w => w.length + 1)).sum

/-- The greatest length the words that come out can have. -/
def room : Mode → PyText → PyText → Nat
  | .blank, token, s => token.length + s.length + 1
  | .word, token, s => token.length + s.length + 1
  | .quoted _, token, s => token.length + s.length
  | .escaped _, token, s => token.length + s.length + 1

theorem spread_cons (w : PyText) (l : List PyText) :
    spread (w :: l) = w.length + 1 + spread l := by
  simp [spread]

/-- The words after one that is complete. -/
private theorem of_map_ok {token : PyText} {x : Except Malformed (List PyText)}
    {l : List PyText}
    (h : (token :: ·) <$> x = .ok l) :
    ∃ rest, x = .ok rest ∧ l = token :: rest := by
  cases x with
  | error e => cases h
  | ok rest =>
      cases h
      exact ⟨rest, rfl, rfl⟩

/-- The end of the line between words or inside one. -/
private theorem spread_end_le {token : PyText} {quoted : Bool} {l : List PyText}
    (h : Except.ok (ε := Malformed) (if token ≠ [] ∨ quoted then [token]
      else []) = .ok l) :
    spread l ≤ token.length + 1 := by
  cases h
  split
  · rw [spread_cons]
    exact Nat.le_refl _
  · exact Nat.zero_le _

/-- A blank between words or inside one: a word may be complete. -/
private theorem spread_blank_le {token s : PyText} {quoted : Bool}
    {l : List PyText}
    (ih : ∀ {token : PyText} {quoted : Bool} {l : List PyText},
      scan .blank token quoted s = .ok l → spread l ≤ room .blank token s)
    (h : (if token ≠ [] ∨ quoted then (token :: ·) <$> scan .blank [] false s
      else scan .blank token quoted s) = .ok l) : spread l ≤
        token.length + (s.length + 1) + 1 := by
  split at h
  · obtain ⟨rest, hrest, rfl⟩ := of_map_ok h
    have hle := ih hrest
    rw [room, List.length_nil] at hle
    rw [spread_cons]
    omega
  · have hle := ih h
    rw [room] at hle
    omega

/-- **What comes out fits.** -/
theorem spread_scan_le {m : Mode} {token s : PyText} {quoted : Bool}
    {l : List PyText}
    (h : scan m token quoted s = .ok l) : spread l ≤ room m token s := by
  induction s generalizing m token quoted l with
  | nil =>
      cases m with
      | blank => exact spread_end_le h
      | word => exact spread_end_le h
      | quoted q => cases h
      | escaped inside => cases inside <;> cases h
  | cons c s ih =>
      cases m with
      | blank =>
          unfold scan at h
          rw [room, List.length_cons]
          split at h
          · exact spread_blank_le ih h
          · split at h
            · have hle := ih h
              rw [room] at hle
              omega
            · split at h
              · have hle := ih h
                rw [room] at hle
                omega
              · have hle := ih h
                rw [room, List.length_singleton] at hle
                omega
      | word =>
          unfold scan at h
          rw [room, List.length_cons]
          split at h
          · exact spread_blank_le ih h
          · split at h
            · have hle := ih h
              rw [room] at hle
              omega
            · split at h
              · have hle := ih h
                rw [room] at hle
                omega
              · have hle := ih h
                rw [room, List.length_append, List.length_singleton] at hle
                omega
      | quoted q =>
          unfold scan at h
          rw [room, List.length_cons]
          split at h
          · have hle := ih h
            rw [room] at hle
            omega
          · split at h
            · have hle := ih h
              rw [room] at hle
              omega
            · have hle := ih h
              rw [room, List.length_append, List.length_singleton] at hle
              omega
      | escaped inside =>
          rw [room, List.length_cons]
          cases inside with
          | none =>
              have hle := ih h
              rw [room, List.length_append, List.length_singleton] at hle
              omega
          | some q =>
              have hle := ih h
              have hlen : (if c ≠ '\\' ∧ c ≠ q then ['\\', c] else [c]).length ≤
                  2 := by
                split <;> simp
              rw [room, List.length_append] at hle
              omega

theorem isBlank_of_isSpecial {c : Char} (h : isSpecial c = true) :
    isBlank c = false := by
  simp only [isSpecial, isQuote, isEscape, Bool.or_eq_true, beq_iff_eq] at h
  rcases h with (rfl | rfl) | rfl <;> decide

/-- A quote or a backslash leaves less room. -/
private theorem spread_special_lt {m : Mode} {c : Char}
    (hc : isSpecial c = true)
    (hm : m = .blank ∨ m = .word) {token s : PyText} {quoted : Bool}
    {l : List PyText}
    (h : scan m token quoted (c :: s) = .ok l) :
    spread l < room m token (c :: s) := by
  have hb : isBlank c = false := isBlank_of_isSpecial hc
  have hnext : ∃ m', (m' = .quoted c ∨ m' = .escaped none) ∧
      scan m' token quoted s = .ok l := by
    by_cases he : isEscape c = true
    · refine ⟨.escaped none, Or.inr rfl, ?_⟩
      have hq : isQuote c = false := by
        rw [isEscape, beq_iff_eq] at he
        subst he
        decide
      rcases hm with rfl | rfl
      · rwa [scan, hb, if_neg Bool.false_ne_true, if_pos he] at h
      · rwa [scan, hb, if_neg Bool.false_ne_true, hq, if_neg Bool.false_ne_true,
          if_pos he] at h
    · have hq : isQuote c = true := by
        rw [isSpecial, Bool.or_eq_true] at hc
        exact hc.resolve_right he
      refine ⟨.quoted c, Or.inl rfl, ?_⟩
      rcases hm with rfl | rfl
      · rwa [scan, hb, if_neg Bool.false_ne_true, if_neg he, if_pos hq] at h
      · rwa [scan, hb, if_neg Bool.false_ne_true, if_pos hq] at h
  obtain ⟨m', hm', hscan⟩ := hnext
  have hle := spread_scan_le hscan
  rcases hm with rfl | rfl <;> rcases hm' with rfl | rfl <;>
    simp only [room, List.length_cons] at hle ⊢ <;> omega

/-- **A quote or a backslash is consumed.** -/
theorem spread_scan_lt {s : PyText} (hs : ∃ c ∈ s, isSpecial c = true) :
    ∀ {m : Mode} {token : PyText} {quoted : Bool} {l : List PyText},
      m = .blank ∨ m = .word →
      scan m token quoted s = .ok l → spread l < room m token s := by
  induction s with
  | nil => simp at hs
  | cons c s ih =>
      intro m token quoted l hm h
      by_cases hc : isSpecial c = true
      · exact spread_special_lt hc hm h
      · have hrest : ∃ d ∈ s, isSpecial d = true := by
          obtain ⟨d, hd, hspecial⟩ := hs
          rcases List.mem_cons.mp hd with rfl | hd
          · exact absurd hspecial hc
          · exact ⟨d, hd, hspecial⟩
        have hq : ¬ isQuote c = true := fun hq => hc (by simp [isSpecial, hq])
        have he : ¬ isEscape c = true := fun he => hc (by simp [isSpecial, he])
        have hroom :
            room m token (c :: s) = token.length + (s.length + 1) + 1 := by
          rcases hm with rfl | rfl <;> rfl
        -- either the word goes on, or it ends at a blank
        have hcase : (∃ token', token'.length ≤ token.length + 1 ∧
              scan .word token' quoted s = .ok l) ∨
            (if token ≠ [] ∨ quoted then (token :: ·) <$> scan .blank [] false s
              else scan .blank token quoted s) = .ok l := by
          by_cases hb : isBlank c = true
          · right
            rcases hm with rfl | rfl <;> rwa [scan, if_pos hb] at h
          · left
            rcases hm with rfl | rfl
            · rw [scan, if_neg hb, if_neg he, if_neg hq] at h
              exact ⟨[c], by simp, h⟩
            · rw [scan, if_neg hb, if_neg hq, if_neg he] at h
              exact ⟨token ++ [c], by simp, h⟩
        rw [hroom]
        rcases hcase with ⟨token', hlen, h⟩ | h
        · have hlt := ih hrest (Or.inr rfl) h
          rw [room] at hlt
          omega
        · split at h
          · obtain ⟨rest, hscan, rfl⟩ := of_map_ok h
            have hlt := ih hrest (Or.inl rfl) hscan
            rw [room, List.length_nil] at hlt
            rw [spread_cons]
            omega
          · have hlt := ih hrest (Or.inl rfl) h
            rw [room] at hlt
            omega

/-! ### Words that are joined and split again -/

theorem length_join {x : Char} {l : List PyText} (h : l ≠ []) :
    (join [x] l).length + 1 = spread l := by
  induction l with
  | nil => exact absurd rfl h
  | cons w l ih =>
      cases l with
      | nil => simp [join_singleton, spread]
      | cons v l =>
          rw [join_cons_cons, spread_cons, ← ih (by simp)]
          simp only [List.length_append, List.length_singleton]
          omega

/-- **Which words survive.**  Words that are joined with blanks and split again
come back if and only if no character of them means anything to a shell. -/
theorem split_join_iff {l : List PyText} (hne : ∀ w ∈ l, w ≠ []) :
    split (join [' '] l) = .ok l ↔ ∀ w ∈ l, ∀ c ∈ w, isPlain c = true := by
  constructor
  · intro h
    have hspecial : ∀ c ∈ join [' '] l, isSpecial c = false := by
      by_contra hno
      obtain ⟨c, hno⟩ := not_forall.mp hno
      obtain ⟨hc, hs⟩ := Classical.not_imp.mp hno
      have hlt := spread_scan_lt ⟨c, hc, Bool.of_not_eq_false hs⟩ (Or.inl rfl) h
      have hnil : l ≠ [] := by
        rintro rfl
        cases hc
      rw [room, List.length_nil, Nat.zero_add, length_join hnil] at hlt
      exact Nat.lt_irrefl _ hlt
    rw [split_of_no_special hspecial] at h
    intro w hw c hc
    have hwords : w ∈ wordsBy isBlank (join [' '] l) := by
      rw [Except.ok.inj h]
      exact hw
    have hb := (of_mem_wordsBy hwords).2 c hc
    have hs := hspecial c (mem_join hw hc)
    simp [isPlain, hb, hs]
  · intro h
    have hplain : ∀ w ∈ l, ∀ c ∈ w, isBlank c = false ∧
        isSpecial c = false := by
      intro w hw c hc
      have := h w hw c hc
      simpa [isPlain] using this
    have hspecial : ∀ c ∈ join [' '] l, isSpecial c = false := by
      intro c hc
      rcases of_mem_join hc with rfl | ⟨w, hw, hc⟩
      · decide
      · exact (hplain w hw c hc).2
    rw [split_of_no_special hspecial,
      wordsBy_join rfl fun w hw => ⟨hne w hw, fun c hc => (hplain w hw c hc).1⟩]

end Shlex
