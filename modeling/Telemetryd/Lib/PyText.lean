import Mathlib.Data.List.Basic
import Mathlib.Data.List.Infix
import Mathlib.Algebra.Order.Group.Nat
import Mathlib.Algebra.Ring.Nat

/-!
# Python text

A Python `str` is the list of its code points.  This file gives the string
methods a line-oriented parser rests on — `strip`, `split` on a separator,
`splitlines`, the newline translation of a text-mode `read` — and the decimal
and hexadecimal renderings of integers, each with the law that says how it
behaves on a concatenation.

The Unicode database an interpreter carries differs between releases, so the
properties that depend on it, being alphanumeric, being a decimal digit and
being printable, are taken from a `UnicodeDb` of which only the ASCII part is
fixed; so are being a digit of any kind and having a lower case.
-/

/-- A Python string as its code points. -/
abbrev PyText := List Char

instance lawfulBEqText : LawfulBEq PyText := inferInstance

/-- A property of every character of a text is decided on the text, not over all
characters there are. -/
instance (priority := high) decidableForallMemText (p : Char → Prop)
    [DecidablePred p] (t : List Char) :
    Decidable (∀ c ∈ t, p c) := List.decidableBAll p t

/-- What an interpreter knows of the characters: which are alphanumeric, which
are decimal digits of which value and which are printable.  ASCII is as
everywhere. -/
class UnicodeDb where
  isAlnum : Char → Bool
  decimal : Char → Option Nat
  isPrintable : Char → Bool
  isAlnum_ascii : ∀ c : Char, c.toNat < 128 → isAlnum c = c.isAlphanum
  decimal_ascii : ∀ c : Char, c.toNat < 128 →
    decimal c = if c.isDigit then some (c.toNat - 48) else none
  isPrintable_ascii : ∀ c : Char, c.toNat < 128 →
    isPrintable c = decide (32 ≤ c.toNat ∧ c.toNat < 127)

/-- The database that knows ASCII only. -/
@[reducible] def UnicodeDb.ascii : UnicodeDb where
  isAlnum := Char.isAlphanum
  decimal c := if c.isDigit then some (c.toNat - 48) else none
  isPrintable c := decide (32 ≤ c.toNat ∧ c.toNat < 127)
  isAlnum_ascii _ _ := rfl
  decimal_ascii _ _ := rfl
  isPrintable_ascii _ _ := rfl

/-- What an interpreter knows besides: `str.isdigit`, which holds of some
characters that are not decimal digits, and `str.lower`. -/
class UnicodeTextDb extends UnicodeDb where
  isDigit : Char → Bool
  lower : List Char → List Char
  isDigit_of_decimal : ∀ c, (decimal c).isSome = true → isDigit c = true
  isDigit_ascii : ∀ c : Char, c.toNat < 128 → isDigit c = c.isDigit
  lower_ascii : ∀ s : List Char, (∀ c ∈ s, c.toNat < 128) →
    lower s = s.map Char.toLower

/-- The database that knows ASCII only. -/
@[reducible] def UnicodeTextDb.ascii : UnicodeTextDb where
  toUnicodeDb := .ascii
  isDigit := Char.isDigit
  lower := List.map Char.toLower
  isDigit_of_decimal c h := by
    by_contra hc
    change (if c.isDigit = true then some (c.toNat - 48) else none).isSome =
      true at h
    rw [if_neg hc] at h
    cases h
  isDigit_ascii _ _ := rfl
  lower_ascii _ _ := rfl

namespace PyText

/-! ### Character classes -/

/-- `str.isspace`, which is also the class `\s`. -/
def isSpace (c : Char) : Bool :=
  let n := c.toNat
  (9 ≤ n && n ≤ 13) || (28 ≤ n && n ≤ 32) || n == 0x85 || n == 0xA0 || n ==
    0x1680 ||
    (0x2000 ≤ n && n ≤ 0x200A) || n == 0x2028 || n == 0x2029 || n == 0x202F ||
    n == 0x205F || n == 0x3000

/-- The characters at which `str.splitlines` breaks a line. -/
def isLineBoundary (c : Char) : Bool :=
  let n := c.toNat
  (10 ≤ n && n ≤ 13) || (28 ≤ n && n ≤ 30) || n == 0x85 || n == 0x2028 ||
    n == 0x2029

/-! ### Splitting -/

/-- Put a character in front of the first piece. -/
def consHead (c : Char) : List PyText → List PyText
  | [] => [[c]]
  | piece :: rest => (c :: piece) :: rest

/-- The pieces of `s` after its first `k` characters are skipped, cut at the
leftmost occurrences of `sep`. -/
def splitGo (sep : PyText) : Nat → PyText → List PyText
  | _, [] => [[]]
  | k + 1, _ :: s => splitGo sep k s
  | 0, c :: s =>
      if sep.isPrefixOf (c :: s) then [] :: splitGo sep (sep.length - 1) s
      else consHead c (splitGo sep 0 s)

/-- `s.split(sep)` for a nonempty separator. -/
def splitOn (sep s : PyText) : List PyText := splitGo sep 0 s

/-- `s.splitlines()`.  A carriage return directly before a line feed belongs
to the same boundary. -/
def splitlines : PyText → List PyText
  | [] => []
  | c :: s =>
      if c = '\r' ∧ s.head? = some '\n' then splitlines s
      else if isLineBoundary c then [] :: splitlines s
      else consHead c (splitlines s)

/-- The newline translation of a file opened in text mode. -/
def universalNewlines : PyText → PyText
  | [] => []
  | c :: s =>
      if c = '\r' then
        if s.head? = some '\n' then universalNewlines s
          else '\n' :: universalNewlines s
      else c :: universalNewlines s

/-- The words of a text that begins inside the word `cur`. -/
def wordsGo (isSep : Char → Bool) (cur : PyText) : PyText → List PyText
  | [] => if cur = [] then [] else [cur]
  | c :: s =>
      if isSep c then (if cur = [] then wordsGo isSep [] s
        else cur :: wordsGo isSep [] s)
      else wordsGo isSep (cur ++ [c]) s

/-- The longest pieces without a separator, the empty ones left out. -/
def wordsBy (isSep : Char → Bool) (s : PyText) : List PyText :=
  wordsGo isSep [] s

/-- `s.split()`. -/
def splitWords (s : PyText) : List PyText := wordsBy isSpace s

/-- `" ".join(l)`. -/
def join (sep : PyText) (l : List PyText) : PyText := sep.intercalate l

/-- `s.strip()`. -/
def strip (s : PyText) : PyText :=
  ((s.dropWhile isSpace).reverse.dropWhile isSpace).reverse

/-- `os.path.basename`: what follows the last slash. -/
def basename (s : PyText) : PyText :=
  (s.reverse.takeWhile (fun c => c != '/')).reverse

/-- There is a first piece. -/
@[simp] theorem consHead_ne_nil (c : Char) (l : List PyText) :
    consHead c l ≠ [] := by
  cases l <;> simp [consHead]

/-- A character joins the first piece. -/
theorem consHead_append {c : Char} {l r : List PyText} (h : l ≠ []) :
    consHead c (l ++ r) = consHead c l ++ r := by
  cases l with
  | nil => exact absurd rfl h
  | cons piece rest => rfl

/-- Splitting leaves a piece. -/
theorem splitGo_ne_nil (sep : PyText) (k : Nat) (s : PyText) :
    splitGo sep k s ≠ [] := by
  induction s generalizing k with
  | nil => cases k <;> simp [splitGo]
  | cons c s ih =>
      cases k with
      | zero =>
          simp only [splitGo]
          split <;> simp
      | succ k => exact ih k

/-- A prefix that avoids a character ends before its first occurrence. -/
theorem prefix_left_of_notMem {α : Type*} {sep l r : List α} {c : α}
    (hc : c ∉ sep)
    (h : sep <+: l ++ c :: r) : sep <+: l := by
  induction l generalizing sep with
  | nil =>
      cases sep with
      | nil => exact List.prefix_rfl
      | cons x sep =>
          obtain ⟨rfl, -⟩ := List.cons_prefix_cons.mp h
          simp at hc
  | cons y l ih =>
      cases sep with
      | nil => exact List.nil_prefix
      | cons x sep =>
          obtain ⟨rfl, h'⟩ := List.cons_prefix_cons.mp h
          exact List.cons_prefix_cons.mpr ⟨rfl,
            ih (fun hm => hc (by simp [hm])) h'⟩

/-- The rest of a separator is skipped. -/
theorem splitGo_skip (sep l s : PyText) :
    splitGo sep l.length (l ++ s) = splitGo sep 0 s := by
  induction l with
  | nil => rfl
  | cons c l ih => simpa [splitGo] using ih

/-- A separator at the start leaves an empty piece. -/
theorem splitOn_sep {sep : PyText} (hsep : sep ≠ []) (s : PyText) :
    splitOn sep (sep ++ s) = [] :: splitOn sep s := by
  cases sep with
  | nil => exact absurd rfl hsep
  | cons x sep =>
      have hpre : (x :: sep).isPrefixOf (x :: (sep ++ s)) = true := by
        rw [List.isPrefixOf_iff_prefix]
        exact ⟨s, rfl⟩
      simp only [splitOn, List.cons_append, splitGo, hpre, if_true,
        List.length_cons,
        Nat.add_sub_cancel]
      rw [splitGo_skip]

/-- A cut at a character that the separator has not is no cut within one. -/
private theorem splitGo_across {sep : PyText} (hsep : sep ≠ []) {c : Char}
    (hc : c ∉ sep)
    {s q : PyText} {qs : List PyText} (hs : splitOn sep s = q :: qs)
    (a : PyText) (k : Nat)
    (hk : k ≤ a.length) :
    ∃ ps p, splitGo sep k a = ps ++ [p] ∧
      splitGo sep k (a ++ c :: s) = ps ++ (p ++ c :: q) :: qs := by
  induction a generalizing k with
  | nil =>
      have hno : ¬ sep.isPrefixOf (c :: s) = true := by
        intro hp
        have := prefix_left_of_notMem (l := []) hc
          (List.isPrefixOf_iff_prefix.mp hp)
        exact hsep (List.prefix_nil.mp this)
      obtain rfl : k = 0 := by simpa using hk
      unfold splitOn at hs
      exact ⟨[], [], rfl, by simp [splitGo, hno, hs, consHead]⟩
  | cons x a ih =>
      cases k with
      | succ k => exact ih k (by simpa using hk)
      | zero =>
          have hiff : sep.isPrefixOf (x :: (a ++ c :: s)) =
              sep.isPrefixOf (x :: a) := by
            rw [Bool.eq_iff_iff, List.isPrefixOf_iff_prefix,
              List.isPrefixOf_iff_prefix]
            constructor
            · exact fun hp => prefix_left_of_notMem (l := x :: a) hc hp
            · exact fun hp => hp.trans ⟨_, rfl⟩
          by_cases hp : sep.isPrefixOf (x :: a) = true
          · have hlen : sep.length - 1 ≤ a.length := by
              have := (List.isPrefixOf_iff_prefix.mp hp).length_le
              simp only [List.length_cons] at this
              omega
            obtain ⟨ps, p, hleft, hboth⟩ := ih _ hlen
            refine ⟨[] :: ps, p, ?_, ?_⟩
            · simp [splitGo, hp, hleft]
            · simp [splitGo, hiff, hp, hboth]
          · obtain ⟨ps, p, hleft, hboth⟩ := ih 0 (Nat.zero_le _)
            cases ps with
            | nil =>
                refine ⟨[], x :: p, ?_, ?_⟩
                · simp [splitGo, hp, hleft, consHead]
                · simp [splitGo, hiff, hp, hboth, consHead]
            | cons p' ps =>
                refine ⟨(x :: p') :: ps, p, ?_, ?_⟩
                · simp [splitGo, hp, hleft, consHead]
                · simp [splitGo, hiff, hp, hboth, consHead]

/-- **Split across a foreign character.**  No separator reaches over a
character that is not in it: the last piece before it and the first after it
become one. -/
theorem splitOn_across {sep : PyText} (hsep : sep ≠ []) {c : Char}
    (hc : c ∉ sep) (a : PyText)
    {s q : PyText} {qs : List PyText} (hs : splitOn sep s = q :: qs) :
    ∃ ps p, splitOn sep a = ps ++ [p] ∧
      splitOn sep (a ++ c :: s) = ps ++ (p ++ c :: q) :: qs :=
  splitGo_across hsep hc hs a 0 (Nat.zero_le _)

/-- **Split at a separator.**  An occurrence of the separator that follows a
character foreign to it is a cut of its own: the pieces before and after are
those of the two sides. -/
theorem splitOn_append {sep : PyText} (hsep : sep ≠ []) {c : Char}
    (hc : c ∉ sep)
    (a s : PyText) :
    splitOn sep (a ++ [c] ++ sep ++ s) = splitOn sep (a ++ [c]) ++
      splitOn sep s := by
  obtain ⟨ps, p, ha, hcut⟩ := splitOn_across hsep hc a (splitOn_sep hsep s)
  have hnil : splitOn sep [] = [[]] := rfl
  obtain ⟨ps', p', ha', hend⟩ := splitOn_across hsep hc a hnil
  rw [ha] at ha'
  obtain ⟨rfl, hp⟩ := List.append_inj' ha' rfl
  obtain rfl := List.singleton_inj.mp hp
  rw [List.append_assoc, List.append_assoc, List.singleton_append, hcut, hend]
  simp

/-- A text without the separator is one piece. -/
theorem splitOn_eq_singleton {sep s : PyText} (h : ¬ sep <:+: s) :
    splitOn sep s = [s] := by
  unfold splitOn
  induction s with
  | nil => rfl
  | cons c s ih =>
      have hhead : ¬ sep.isPrefixOf (c :: s) = true := by
        rw [List.isPrefixOf_iff_prefix]
        exact fun hp => h hp.isInfix
      have htail : ¬ sep <:+: s :=
        fun hi => h (hi.trans (List.suffix_cons c s).isInfix)
      simp [splitGo, hhead, ih htail, consHead]

/-- A text with the separator is more than one piece. -/
theorem splitOn_ne_singleton {sep s : PyText} (hsep : sep ≠ []) (h : sep <:+: s)
    (x : PyText) :
    splitOn sep s ≠ [x] := by
  unfold splitOn
  induction s generalizing x with
  | nil => exact absurd (List.infix_nil.mp h) hsep
  | cons c s ih =>
      by_cases hp : sep.isPrefixOf (c :: s) = true
      · rw [splitGo, if_pos hp]
        intro heq
        exact splitGo_ne_nil _ _ _ (List.cons.inj heq).2
      · have hs : sep <:+: s := by
          rcases List.infix_cons_iff.mp h with hpre | hi
          · exact absurd (List.isPrefixOf_iff_prefix.mpr hpre) hp
          · exact hi
        rw [splitGo, if_neg hp]
        obtain ⟨p, ps, hcut⟩ :=
          List.exists_cons_of_ne_nil (splitGo_ne_nil sep 0 s)
        rw [hcut]
        intro heq
        exact ih hs p (by rw [hcut, (List.cons.inj heq).2])

/-- The first piece ends at the first occurrence of a one-character
separator. -/
theorem splitOn_char {c : Char} {a : PyText} (h : c ∉ a) (s : PyText) :
    splitOn [c] (a ++ c :: s) = a :: splitOn [c] s := by
  induction a with
  | nil => exact splitOn_sep (by simp) s
  | cons x a ih =>
      simp only [List.mem_cons, not_or] at h
      have hhead : ¬ [c].isPrefixOf (x :: (a ++ c :: s)) = true := by
        rw [List.isPrefixOf_iff_prefix]
        intro hp
        exact h.1 (List.cons_prefix_cons.mp hp).1
      have hrest := ih h.2
      unfold splitOn at hrest ⊢
      rw [List.cons_append, splitGo, if_neg hhead, hrest]
      rfl

/-! ### Words -/

/-- Characters that separate nothing are part of the word. -/
theorem wordsGo_append {isSep : Char → Bool} {a : PyText}
    (h : ∀ c ∈ a, isSep c = false)
    (cur s : PyText) :
    wordsGo isSep cur (a ++ s) = wordsGo isSep (cur ++ a) s := by
  induction a generalizing cur with
  | nil => rw [List.nil_append, List.append_nil]
  | cons c a ih =>
      have hc : isSep c = false := h c List.mem_cons_self
      rw [List.cons_append, wordsGo, hc, if_neg Bool.false_ne_true,
        ih (fun d hd => h d (List.mem_cons_of_mem _ hd)), List.append_assoc]
      rfl

/-- Two words have a separator between them. -/
theorem join_cons_cons (sep w v : PyText) (l : List PyText) :
    join sep (w :: v :: l) = w ++ (sep ++ join sep (v :: l)) := by
  simp [join, List.intercalate, List.intersperse]

/-- A single word has none. -/
theorem join_singleton (sep w : PyText) : join sep [w] = w := by
  simp [join, List.intercalate]

/-- What is in a word is in the text. -/
theorem mem_join {sep : PyText} {l : List PyText} {w : PyText} (hw : w ∈ l)
    {c : Char} (hc : c ∈ w) :
    c ∈ join sep l := by
  induction l with
  | nil => cases hw
  | cons v l ih =>
      cases l with
      | nil =>
          obtain rfl := List.mem_singleton.mp hw
          rwa [join_singleton]
      | cons u l =>
          rw [join_cons_cons]
          rcases List.mem_cons.mp hw with rfl | hw
          · exact List.mem_append_left _ hc
          · exact List.mem_append_right _ (List.mem_append_right _ (ih hw))

/-- What is in the text is in a word or is the separator. -/
theorem of_mem_join {x : Char} {l : List PyText} {c : Char}
    (h : c ∈ join [x] l) :
    c = x ∨ ∃ w ∈ l, c ∈ w := by
  induction l with
  | nil => cases h
  | cons v l ih =>
      cases l with
      | nil =>
          rw [join_singleton] at h
          exact Or.inr ⟨v, List.mem_cons_self, h⟩
      | cons u l =>
          rw [join_cons_cons] at h
          rcases List.mem_append.mp h with h | h
          · exact Or.inr ⟨v, List.mem_cons_self, h⟩
          · rcases List.mem_cons.mp h with rfl | h
            · exact Or.inl rfl
            · rcases ih h with hx | ⟨w, hw, hc⟩
              · exact Or.inl hx
              · exact Or.inr ⟨w, List.mem_cons_of_mem _ hw, hc⟩

/-- **The words of joined words.** -/
theorem wordsBy_join {isSep : Char → Bool} {x : Char} (hx : isSep x = true)
    {l : List PyText}
    (h : ∀ w ∈ l, w ≠ [] ∧ ∀ c ∈ w, isSep c = false) :
    wordsBy isSep (join [x] l) = l := by
  unfold wordsBy
  induction l with
  | nil => rfl
  | cons w l ih =>
      obtain ⟨hne, hw⟩ := h w List.mem_cons_self
      have hrest := ih fun v hv => h v (List.mem_cons_of_mem _ hv)
      cases l with
      | nil =>
          have hend : wordsGo isSep [] (w ++ []) = [w] := by
            rw [wordsGo_append hw, List.nil_append, wordsGo, if_neg hne]
          rw [List.append_nil] at hend
          rw [join_singleton, hend]
      | cons v l =>
          rw [join_cons_cons, wordsGo_append hw, List.nil_append,
            List.singleton_append, wordsGo,
            if_pos hx, if_neg hne, hrest]

/-- A word is not empty and has no separator. -/
theorem of_mem_wordsGo {isSep : Char → Bool} {cur s w : PyText}
    (hcur : ∀ c ∈ cur, isSep c = false) (h : w ∈ wordsGo isSep cur s) :
    w ≠ [] ∧ ∀ c ∈ w, isSep c = false := by
  induction s generalizing cur with
  | nil =>
      unfold wordsGo at h
      split at h
      · cases h
      · next hne =>
        obtain rfl := List.mem_singleton.mp h
        exact ⟨hne, hcur⟩
  | cons c s ih =>
      unfold wordsGo at h
      have hnil : ∀ d ∈ ([] : PyText), isSep d = false := List.forall_mem_nil _
      split at h
      · split at h
        · exact ih hnil h
        · next hne =>
          rcases List.mem_cons.mp h with rfl | h
          · exact ⟨hne, hcur⟩
          · exact ih hnil h
      · next hc =>
        refine ih ?_ h
        intro d hd
        rcases List.mem_append.mp hd with hd | hd
        · exact hcur d hd
        · obtain rfl := List.mem_singleton.mp hd
          exact Bool.eq_false_iff.mpr hc

/-- The words are not empty and have no separator. -/
theorem of_mem_wordsBy {isSep : Char → Bool} {s w : PyText}
    (h : w ∈ wordsBy isSep s) :
    w ≠ [] ∧ ∀ c ∈ w, isSep c = false :=
  of_mem_wordsGo (List.forall_mem_nil _) h

/-! ### Lines -/

/-- The line feed is a line boundary. -/
theorem isLineBoundary_newline : isLineBoundary '\n' = true := by decide

/-- Lines may be counted separately on both sides of a line feed. -/
theorem splitlines_append_newline (a s : PyText) :
    splitlines (a ++ '\n' :: s) = splitlines (a ++ ['\n']) ++ splitlines s := by
  induction a with
  | nil => simp [splitlines, isLineBoundary_newline]
  | cons c a ih =>
      have hhead : (a ++ '\n' :: s).head? = (a ++ ['\n']).head? := by
        cases a <;> rfl
      have hne : splitlines (a ++ ['\n']) ≠ [] := by
        cases a with
        | nil => simp [splitlines, isLineBoundary_newline]
        | cons d a =>
            intro hnil
            simp only [List.cons_append, splitlines] at hnil
            split at hnil
            · clear hhead ih
              rename_i hcr
              cases a with
              | nil => simp [splitlines, isLineBoundary_newline] at hnil
              | cons e a =>
                  have he : e = '\n' := by simpa using hcr.2
                  subst he
                  simp [splitlines, isLineBoundary_newline] at hnil
            · split at hnil <;> simp at hnil
      simp only [List.cons_append, splitlines, hhead, ih]
      split
      · rfl
      · split
        · rfl
        · exact consHead_append hne

/-- A text without line boundaries, ended by a line feed, is one line. -/
theorem splitlines_line {l : PyText} (h : ∀ c ∈ l, isLineBoundary c = false)
    (s : PyText) :
    splitlines (l ++ '\n' :: s) = l :: splitlines s := by
  induction l with
  | nil => simp [splitlines, isLineBoundary_newline]
  | cons c l ih =>
      have hc : isLineBoundary c = false := h c (by simp)
      have hcr : c ≠ '\r' := by
        rintro rfl
        revert hc
        decide
      have htail := ih (fun d hd => h d (by simp [hd]))
      simp [splitlines, hc, hcr, htail, consHead]

/-- A text of whole lines splits into exactly these lines. -/
theorem splitlines_lines {ls : List PyText}
    (h : ∀ l ∈ ls, ∀ c ∈ l, isLineBoundary c = false)
    (s : PyText) :
    splitlines (ls.flatMap (fun l => l ++ ['\n']) ++ s) =
      ls ++ splitlines s := by
  induction ls with
  | nil => rfl
  | cons l ls ih =>
      have htail := ih (fun m hm => h m (by simp [hm]))
      have hline := splitlines_line (h l (by simp))
        (ls.flatMap (fun l => l ++ ['\n']) ++ s)
      simpa [htail] using hline

/-- A line is a part of the text, and the first one its beginning. -/
private theorem splitlines_parts (s : PyText) :
    (∀ l ls, splitlines s = l :: ls → l <+: s) ∧ ∀ l ∈ splitlines s,
      l <:+: s := by
  induction s with
  | nil =>
      exact ⟨fun l ls h => absurd h (by simp [splitlines]), fun l hl =>
        absurd hl List.not_mem_nil⟩
  | cons c s ih =>
      have hmem : ∀ l ∈ splitlines s, l <:+: c :: s :=
        fun l hl => (ih.2 l hl).trans (List.suffix_cons c s).isInfix
      rw [splitlines]
      split
      case isTrue hcr =>
        refine ⟨?_, hmem⟩
        intro l ls h
        obtain ⟨s', rfl⟩ : ∃ s', s = '\n' :: s' :=
          List.head?_eq_some_iff.mp hcr.2
        rw [splitlines, if_neg (by simp), if_pos isLineBoundary_newline] at h
        rw [← (List.cons.inj h).1]
        exact List.nil_prefix
      case isFalse =>
        split
        · refine ⟨?_, ?_⟩
          · intro l ls h
            rw [← (List.cons.inj h).1]
            exact List.nil_prefix
          · intro l hl
            rcases List.mem_cons.mp hl with rfl | hl
            · exact List.nil_infix
            · exact hmem l hl
        · cases hs : splitlines s with
          | nil =>
              refine ⟨?_, ?_⟩
              · intro l ls h
                rw [← (List.cons.inj h).1]
                exact ⟨s, rfl⟩
              · intro l hl
                rw [List.mem_singleton.mp hl]
                exact ⟨[], s, rfl⟩
          | cons first rest =>
              have hfirst : (c :: first) <+: c :: s :=
                List.cons_prefix_cons.mpr ⟨rfl, ih.1 first rest hs⟩
              refine ⟨?_, ?_⟩
              · intro l ls h
                rw [← (List.cons.inj h).1]
                exact hfirst
              · intro l hl
                rcases List.mem_cons.mp hl with rfl | hl
                · exact hfirst.isInfix
                · exact hmem l (by rw [hs]; exact List.mem_cons_of_mem _ hl)

/-- A line is a part of the text. -/
theorem infix_of_mem_splitlines {l s : PyText} (h : l ∈ splitlines s) :
    l <:+: s :=
  (splitlines_parts s).2 l h

/-- Newlines are translated piece by piece. -/
theorem universalNewlines_append_newline (a s : PyText) :
    universalNewlines (a ++ '\n' :: s) = universalNewlines (a ++ ['\n']) ++
      universalNewlines s := by
  induction a with
  | nil => simp [universalNewlines]
  | cons c a ih =>
      have hhead : (a ++ '\n' :: s).head? = (a ++ ['\n']).head? := by
        cases a <;> rfl
      simp only [List.cons_append, universalNewlines, hhead, ih]
      split
      · split <;> rfl
      · rfl

/-- Without a carriage return nothing is translated. -/
theorem universalNewlines_of_no_cr {s : PyText} (h : '\r' ∉ s) :
    universalNewlines s = s := by
  induction s with
  | nil => rfl
  | cons c s ih =>
      simp only [List.mem_cons, not_or] at h
      simp [universalNewlines, Ne.symm h.1, ih h.2]

/-- A line end stays one. -/
theorem universalNewlines_ends (a : PyText) :
    ∃ s, universalNewlines (a ++ ['\n']) = s ++ ['\n'] := by
  induction a with
  | nil => exact ⟨[], rfl⟩
  | cons c a ih =>
      obtain ⟨s, hs⟩ := ih
      simp only [List.cons_append, universalNewlines, hs]
      split
      · split
        · exact ⟨s, rfl⟩
        · exact ⟨'\n' :: s, rfl⟩
      · exact ⟨c :: s, rfl⟩

/-! ### Stripping -/

/-- What is not stripped is a part of the text. -/
theorem infix_of_strip (s : PyText) : strip s <:+: s := by
  unfold strip
  have hback :
      (s.dropWhile isSpace).reverse.dropWhile isSpace <:+
      (s.dropWhile isSpace).reverse :=
    List.dropWhile_suffix _
  rw [← List.reverse_prefix, List.reverse_reverse] at hback
  exact hback.isInfix.trans (List.dropWhile_suffix _).isInfix

/-- Behind a first character that is no space only the end is stripped. -/
theorem prefix_of_strip {x : Char} (hx : isSpace x = false) (t : PyText) :
    strip (x :: t) <+: x :: t := by
  have hfront : (x :: t).dropWhile isSpace = x :: t :=
    List.dropWhile_cons_of_neg (by simp [hx])
  have hback : (x :: t).reverse.dropWhile isSpace <:+ (x :: t).reverse :=
    List.dropWhile_suffix _
  rw [← List.reverse_prefix, List.reverse_reverse] at hback
  unfold strip
  rw [hfront]
  exact hback

/-- Nothing is stripped from a text that starts and ends in other characters. -/
theorem strip_of_ends {s : PyText} {x y : Char} {t : PyText} (hs : s = x :: t)
    (hl : s.getLast? = some y) (hx : isSpace x = false)
    (hy : isSpace y = false) :
    strip s = s := by
  have hfront : s.dropWhile isSpace = s := by simp [hs, hx]
  have hback : s.reverse.dropWhile isSpace = s.reverse := by
    have hrev : s.reverse.head? = some y := by simpa using hl
    cases hr : s.reverse with
    | nil => rfl
    | cons z r =>
        have : z = y := by simpa [hr] using hrev
        simp [this, hy]
  simp [strip, hfront, hback]

/-- A first character that is no space stays first. -/
theorem strip_cons {x : Char} (hx : isSpace x = false) (t : PyText) :
    ∃ s, strip (x :: t) = x :: s := by
  have hfront : (x :: t).dropWhile isSpace = x :: t := by simp [hx]
  have hback : ∀ r : PyText, ∃ q, (r ++ [x]).dropWhile isSpace = q ++ [x] := by
    intro r
    induction r with
    | nil => exact ⟨[], by simp [hx]⟩
    | cons d r ih =>
        by_cases hd : isSpace d = true
        · obtain ⟨q, hq⟩ := ih
          exact ⟨q, by simp [hd, hq]⟩
        · exact ⟨d :: r, by simp [hd]⟩
  obtain ⟨q, hq⟩ := hback t.reverse
  refine ⟨q.reverse, ?_⟩
  rw [strip, hfront, List.reverse_cons, hq]
  simp

/-- A last character that is no space stays last. -/
theorem getLast?_strip {y : Char} (hy : isSpace y = false) (t : PyText) :
    (strip (t ++ [y])).getLast? = some y := by
  have hfront : ∃ q, (t ++ [y]).dropWhile isSpace = q ++ [y] := by
    induction t with
    | nil => exact ⟨[], by simp [hy]⟩
    | cons d t ih =>
        by_cases hd : isSpace d = true
        · obtain ⟨q, hq⟩ := ih
          exact ⟨q, by simp [hd, hq]⟩
        · exact ⟨d :: t, by simp [hd]⟩
  obtain ⟨q, hq⟩ := hfront
  rw [strip, hq, List.reverse_append, List.reverse_singleton,
    List.singleton_append,
    List.dropWhile_cons_of_neg (by simp [hy])]
  simp

/-- A space at the end is stripped. -/
theorem strip_append_space {s : PyText} {x y c : Char} {t : PyText}
    (hs : s = x :: t)
    (hl : s.getLast? = some y) (hx : isSpace x = false) (hy : isSpace y = false)
    (hc : isSpace c = true) : strip (s ++ [c]) = s := by
  have hstrip := strip_of_ends hs hl hx hy
  have hfront : s.dropWhile isSpace = s := by simp [hs, hx]
  have hfront' : (s ++ [c]).dropWhile isSpace = s ++ [c] := by simp [hs, hx]
  rw [strip, hfront] at hstrip
  rw [strip, hfront', List.reverse_append, List.reverse_singleton,
    List.singleton_append,
    List.dropWhile_cons_of_pos hc, hstrip]

/-- A digit is no space. -/
theorem isSpace_of_isDigit {c : Char} (h : c.isDigit = true) :
    isSpace c = false := by
  have hrange : 48 ≤ c.toNat ∧ c.toNat ≤ 57 := by
    simp only [Char.isDigit, Bool.and_eq_true, decide_eq_true_eq] at h
    exact ⟨UInt32.le_iff_toNat_le.mp h.1, UInt32.le_iff_toNat_le.mp h.2⟩
  unfold isSpace
  simp only [Bool.or_eq_false_iff, Bool.and_eq_false_iff, beq_eq_false_iff_ne,
    decide_eq_false_iff_not]
  omega

/-! ### Numbers -/

/-- `str(n)` of a natural number. -/
def ofNat (n : Nat) : PyText := Nat.toDigits 10 n

/-- `str(i)` of an integer. -/
def ofInt : Int → PyText
  | .ofNat n => ofNat n
  | .negSucc n => '-' :: ofNat (n + 1)

/-- `format(i, '0wx')`: hexadecimal, zero-padded to `w` places, the sign
counted among them. -/
def hex (w : Nat) : Int → PyText
  | .ofNat n =>
      let ds := Nat.toDigits 16 n
      List.replicate (w - ds.length) '0' ++ ds
  | .negSucc n =>
      let ds := Nat.toDigits 16 (n + 1)
      '-' :: (List.replicate (w - 1 - ds.length) '0' ++ ds)

/-- A character inside quotes, as `repr` writes it. -/
def reprChar [UnicodeDb] (quote c : Char) : PyText :=
  let n := c.toNat
  if c = quote ∨ c = '\\' then ['\\', c]
  else if c = '\t' then ['\\', 't']
  else if c = '\n' then ['\\', 'n']
  else if c = '\r' then ['\\', 'r']
  else if UnicodeDb.isPrintable c then [c]
  else if n ≤ 0xff then ['\\', 'x'] ++ hex 2 n
  else if n ≤ 0xffff then ['\\', 'u'] ++ hex 4 n
  else ['\\', 'U'] ++ hex 8 n

/-- `repr` of a string: double quotes only around a single quote without
double ones. -/
def repr [UnicodeDb] (s : PyText) : PyText :=
  let single := Char.ofNat 39
  let double := Char.ofNat 34
  let quote := if single ∈ s ∧ double ∉ s then double else single
  [quote] ++ s.flatMap (reprChar quote) ++ [quote]

/-- Different numbers have different numerals. -/
theorem ofNat_injective : Function.Injective ofNat := by
  intro m n h
  have := congrArg (fun l => Nat.ofDigitChars 10 l 0) h
  simpa [ofNat] using this

/-- A numeral has a digit. -/
theorem ofNat_ne_nil (n : Nat) : ofNat n ≠ [] := Nat.toDigits_ne_nil

/-- A numeral has only digits. -/
theorem isDigit_of_mem_ofNat {n : Nat} {c : Char} (h : c ∈ ofNat n) :
    c.isDigit = true :=
  Nat.isDigit_of_mem_toDigits (by decide) (by decide) h

/-! ### The last separator -/

/-- A text ends where its first separator is. -/
theorem append_first_inj {sep : Char} {a b c d : PyText} (ha : sep ∉ a)
    (hb : sep ∉ b)
    (h : a ++ sep :: c = b ++ sep :: d) : a = b ∧ c = d := by
  have hwhile : ∀ {x : PyText}, sep ∉ x →
      ∀ y, (x ++ sep :: y).takeWhile (· != sep) = x := by
    intro x hx y
    have hpos : ∀ e ∈ x, (e != sep) = true := by
      intro e he
      rw [bne_iff_ne]
      rintro rfl
      exact hx he
    rw [List.takeWhile_append_of_pos hpos]
    simp
  have hfirst : a = b := by
    have := congrArg (List.takeWhile (· != sep)) h
    rwa [hwhile ha, hwhile hb] at this
  rw [hfirst, List.append_cancel_left_eq, List.cons.injEq] at h
  exact ⟨hfirst, h.2⟩

/-- A text starts after its last separator. -/
theorem append_last_inj {sep : Char} {a b c d : PyText} (hc : sep ∉ c)
    (hd : sep ∉ d)
    (h : a ++ sep :: c = b ++ sep :: d) : a = b ∧ c = d := by
  have hreverse :
      c.reverse ++ sep :: a.reverse = d.reverse ++ sep :: b.reverse := by
    have := congrArg List.reverse h
    simpa using this
  obtain ⟨hlast, hfront⟩ :=
    append_first_inj (by simpa using hc) (by simpa using hd) hreverse
  exact ⟨List.reverse_injective hfront, List.reverse_injective hlast⟩

/-! ### Slices -/

/-- The slice `l[-k:]` of a list. -/
def lastSlice {α : Type*} (k : Nat) (l : List α) : List α :=
  if k = 0 then l else l.drop (l.length - k)

/-- The last ones do not depend on the values. -/
theorem map_lastSlice {α β : Type*} (f : α → β) (k : Nat) (l : List α) :
    (lastSlice k l).map f = lastSlice k (l.map f) := by
  simp only [lastSlice]
  split
  · rfl
  · simp [List.map_drop]

/-- The last ones are the end of the list. -/
theorem lastSlice_suffix {α : Type*} (k : Nat) (l : List α) :
    lastSlice k l <:+ l := by
  simp only [lastSlice]
  split
  · exact List.suffix_rfl
  · exact List.drop_suffix _ _

/-- A short list is all of it. -/
theorem lastSlice_of_length_le {α : Type*} {k : Nat} {l : List α}
    (h : l.length ≤ k) :
    lastSlice k l = l := by
  unfold lastSlice
  split
  · rfl
  · rw [Nat.sub_eq_zero_of_le h, List.drop_zero]

/-- There are at most `k` last ones. -/
theorem length_lastSlice_le {α : Type*} {k : Nat} (hk : k ≠ 0) (l : List α) :
    (lastSlice k l).length ≤ k := by
  rw [lastSlice, if_neg hk, List.length_drop]
  omega

/-- Of the last ones all are last. -/
theorem lastSlice_idem {α : Type*} (k : Nat) (l : List α) :
    lastSlice k (lastSlice k l) = lastSlice k l := by
  by_cases hk : k = 0
  · simp [lastSlice, hk]
  · exact lastSlice_of_length_le (length_lastSlice_le hk l)

/-- What a slice has dropped plays no part in the slices after it. -/
theorem lastSlice_lastSlice_append {α : Type*} (k : Nat) (a b : List α) :
    lastSlice k (lastSlice k a ++ b) = lastSlice k (a ++ b) := by
  by_cases hk : k = 0
  · simp [lastSlice, hk]
  · simp only [lastSlice, if_neg hk, List.length_append, List.length_drop]
    rw [List.drop_append, List.drop_append, List.drop_drop]
    congr 2
    · omega
    · rw [List.length_drop]
      omega

end PyText
