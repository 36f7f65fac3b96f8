import Telemetryd.Lib.PyText

/-!
# UTF-8 with replacement

`bytes.decode("utf-8", errors="replace")`, one byte at a time.  Between bytes
the decoder is either at a character boundary or inside a sequence it has
begun, and then it knows which bytes may come next.  A byte outside that range
ends the sequence: one replacement character stands for all of it, and the byte
is read again as the first of a new one.

A byte below 0x80 never continues a sequence, so decoding restarts at every
ASCII byte.  `decode_ascii_cut` is that law, and everything a line-oriented
reader needs follows from it.
-/

/-- Raw file content. -/
abbrev Bytes := List UInt8

namespace Utf8

/-- A sequence that has begun: how many bytes follow the next one, the bits
read so far and the bytes that may come next.  No continuation is ASCII, and
neither is the character it leads to. -/
structure Pending where
  owed : Nat
  bits : Nat
  low : Nat
  high : Nat
  low_ge : 0x80 ≤ low
  big : 0x80 ≤ (bits * 64 + (low - 0x80)) * 64 ^ owed

/-- The character that stands for bytes that are none. -/
def replacement : Char := Char.ofNat 0xFFFD

/-- The first byte of a sequence: what it emits and what it leaves pending. -/
def first (b : UInt8) : PyText × Option Pending :=
  let n := b.toNat
  if n < 0x80 then ([Char.ofNat n], none)
  else if h : 0xC2 ≤ n ∧ n ≤ 0xDF then
    ([], some ⟨0, n - 0xC0, 0x80, 0xBF, by decide, by omega⟩)
  else if n = 0xE0 then ([], some ⟨1, 0, 0xA0, 0xBF, by decide, by decide⟩)
  else if n = 0xED then ([], some ⟨1, 0xD, 0x80, 0x9F, by decide, by decide⟩)
  else if h : 0xE1 ≤ n ∧ n ≤ 0xEF then
    ([], some ⟨1, n - 0xE0, 0x80, 0xBF, by decide, by omega⟩)
  else if n = 0xF0 then ([], some ⟨2, 0, 0x90, 0xBF, by decide, by decide⟩)
  else if n = 0xF4 then ([], some ⟨2, 4, 0x80, 0x8F, by decide, by decide⟩)
  else if h : 0xF1 ≤ n ∧ n ≤ 0xF3 then
    ([], some ⟨2, n - 0xF0, 0x80, 0xBF, by decide, by omega⟩)
  else ([replacement], none)

/-- What is pending is beyond ASCII, whatever follows. -/
theorem Pending.big_next (p : Pending) {n : Nat} (hn : p.low ≤ n) :
    0x80 ≤ (p.bits * 64 + (n - 0x80)) * 64 ^ p.owed :=
  p.big.trans (Nat.mul_le_mul_right _ (by omega))

/-- One byte of input. -/
def step : Option Pending → UInt8 → PyText × Option Pending
  | none, b => first b
  | some p, b =>
      let n := b.toNat
      if h : p.low ≤ n ∧ n ≤ p.high then
        let bits := p.bits * 64 + (n - 0x80)
        match hk : p.owed with
        | 0 => ([Char.ofNat bits], none)
        | k + 1 => ([], some ⟨k, bits, 0x80, 0xBF, by decide, by
            have := p.big_next h.1
            rw [hk, Nat.pow_succ'] at this
            rw [Nat.sub_self, Nat.add_zero, Nat.mul_assoc]
            exact this⟩)
      else (replacement :: (first b).1, (first b).2)

/-- Decode from a state of the decoder; a sequence cut off by the end of the
input is replaced. -/
def decodeFrom : Option Pending → Bytes → PyText
  | none, [] => []
  | some _, [] => [replacement]
  | st, b :: bs => (step st b).1 ++ decodeFrom (step st b).2 bs

/-- `bytes.decode` with replacement. -/
def decode (bs : Bytes) : PyText := decodeFrom none bs

/-- An ASCII byte is its character. -/
theorem first_of_ascii {c : UInt8} (hc : c.toNat < 0x80) :
    first c = ([Char.ofNat c.toNat], none) := if_pos hc

/-- A first byte is a character, ASCII or a replacement, or it is pending. -/
theorem first_cases (b : UInt8) :
    b.toNat < 0x80 ∧ first b = ([Char.ofNat b.toNat], none) ∨
      first b = ([replacement], none) ∨ ∃ p, first b = ([], some p) := by
  by_cases hb : b.toNat < 0x80
  · exact .inl ⟨hb, first_of_ascii hb⟩
  refine .inr ?_
  generalize hr : first b = r
  unfold first at hr
  simp only [if_neg hb] at hr
  split_ifs at hr
  all_goals subst hr
  any_goals exact .inr ⟨_, rfl⟩
  exact .inl rfl

/-- The first byte is taken by itself. -/
theorem decodeFrom_cons (st : Option Pending) (b : UInt8) (bs : Bytes) :
    decodeFrom st (b :: bs) = (step st b).1 ++ decodeFrom (step st b).2 bs := by
  cases st <;> rfl

/-- An ASCII byte ends what was pending. -/
theorem step_of_ascii {c : UInt8} (hc : c.toNat < 0x80) (p : Pending) :
    step (some p) c = ([replacement, Char.ofNat c.toNat], none) := by
  have hout : ¬ (p.low ≤ c.toNat ∧ c.toNat ≤ p.high) := by
    have := p.low_ge
    omega
  simp only [step, dif_neg hout, first_of_ascii hc]

/-- Text can be cut before an ASCII byte. -/
private theorem decodeFrom_ascii_cut {c : UInt8} (hc : c.toNat < 0x80)
    (a b : Bytes)
    (st : Option Pending) :
    decodeFrom st (a ++ c :: b) = decodeFrom st a ++ Char.ofNat c.toNat ::
      decode b := by
  induction a generalizing st with
  | nil =>
      cases st with
      | none =>
          have hstep : step none c = ([Char.ofNat c.toNat], none) :=
            first_of_ascii hc
          rw [List.nil_append, decodeFrom_cons, hstep]
          rfl
      | some p =>
          rw [List.nil_append, decodeFrom_cons, step_of_ascii hc]
          rfl
  | cons x a ih =>
      rw [List.cons_append, decodeFrom_cons, ih, decodeFrom_cons,
        List.append_assoc]

/-- **Decoding restarts at an ASCII byte.** -/
theorem decode_ascii_cut {c : UInt8} (hc : c.toNat < 0x80) (a b : Bytes) :
    decode (a ++ c :: b) = decode a ++ Char.ofNat c.toNat :: decode b :=
  decodeFrom_ascii_cut hc a b none

/-- A character above ASCII, or the NUL that stands for an invalid scalar. -/
private theorem toNat_ofNat_big {n : Nat} (hn : 0x80 ≤ n) :
    (Char.ofNat n).toNat = 0 ∨ 0x80 ≤ (Char.ofNat n).toNat := by
  by_cases hv : n.isValidChar
  · have : (Char.ofNat n).toNat = n := by
      rw [Char.ofNat, dif_pos hv]
      rfl
    omega
  · exact Or.inl (by rw [Char.ofNat, dif_neg hv]; rfl)

section

variable {c : Char} (h0 : c.toNat ≠ 0) (hc : c.toNat < 0x80)

include h0 hc

/-- An ASCII character is no other character. -/
private theorem notMem_big {n : Nat} (hn : 0x80 ≤ n) : c ∉ [Char.ofNat n] := by
  intro h
  have heq := List.mem_singleton.mp h
  rw [heq] at h0 hc
  rcases toNat_ofNat_big hn with h | h
  · exact h0 h
  · omega

/-- An ASCII character comes from its own byte. -/
private theorem mem_first {b : UInt8} (h : c ∈ (first b).1) :
    b = UInt8.ofNat c.toNat := by
  obtain ⟨hb, hfirst⟩ | hfirst | ⟨p, hfirst⟩ := first_cases b
  · rw [hfirst, List.mem_singleton] at h
    have hval : (Char.ofNat b.toNat).toNat = b.toNat := by
      have hv : b.toNat.isValidChar := Or.inl (by omega)
      rw [Char.ofNat, dif_pos hv]
      rfl
    rw [h, hval]
    exact UInt8.ofNat_toNat.symm
  · rw [hfirst] at h
    exact absurd h (notMem_big h0 hc (by decide))
  · rw [hfirst] at h
    exact absurd h List.not_mem_nil

/-- So it does anywhere in a text. -/
private theorem mem_decodeFrom {bs : Bytes} {st : Option Pending}
    (h : c ∈ decodeFrom st bs) : UInt8.ofNat c.toNat ∈ bs := by
  have hrep : c ∉ [replacement] := notMem_big h0 hc (by decide)
  induction bs generalizing st with
  | nil =>
      cases st with
      | none => exact absurd h List.not_mem_nil
      | some p => exact absurd h hrep
  | cons b bs ih =>
      rw [decodeFrom_cons] at h
      rcases List.mem_append.mp h with h | h
      · have hb : b = UInt8.ofNat c.toNat := by
          cases st with
          | none => exact mem_first h0 hc h
          | some p =>
              by_cases hin : p.low ≤ b.toNat ∧ b.toNat ≤ p.high
              · have hbig := p.big_next hin.1
                simp only [step, dif_pos hin] at h
                split at h
                case h_1 hk =>
                  rw [hk, Nat.pow_zero, Nat.mul_one] at hbig
                  exact absurd h (notMem_big h0 hc hbig)
                case h_2 => exact absurd h List.not_mem_nil
              · simp only [step, dif_neg hin] at h
                rcases List.mem_cons.mp h with h | h
                · exact absurd (List.mem_singleton.mpr h) hrep
                · exact mem_first h0 hc h
        rw [hb]
        exact List.mem_cons_self
      · exact List.mem_cons_of_mem _ (ih h)

/-- **An ASCII character comes from its byte.** -/
theorem mem_decode {bs : Bytes} (h : c ∈ decode bs) :
    UInt8.ofNat c.toNat ∈ bs :=
  mem_decodeFrom h0 hc h

end

/-! ### ASCII text -/

/-- The bytes of an ASCII text. -/
def ascii (t : PyText) : Bytes := t.map (fun c => UInt8.ofNat c.toNat)

/-- Every character is below 0x80. -/
def IsAscii (t : PyText) : Prop := ∀ c ∈ t, c.toNat < 0x80

instance (t : PyText) : Decidable (IsAscii t) :=
  inferInstanceAs (Decidable (∀ c ∈ t, c.toNat < 0x80))

/-- Two ASCII texts in a row are ASCII. -/
theorem IsAscii.append {s t : PyText} (hs : IsAscii s) (ht : IsAscii t) :
    IsAscii (s ++ t) := by
  intro c hc
  rcases List.mem_append.mp hc with h | h
  · exact hs c h
  · exact ht c h

/-- An ASCII character fits into a byte. -/
theorem toNat_ofNat_toNat {c : Char} (hc : c.toNat < 0x80) :
    (UInt8.ofNat c.toNat).toNat = c.toNat := by
  rw [UInt8.toNat_ofNat']
  exact Nat.mod_eq_of_lt (by omega)

/-- An ASCII text may be decoded apart from what surrounds it. -/
theorem decode_ascii_between {t : PyText} (ht : IsAscii t) (hne : t ≠ [])
    (a b : Bytes) :
    decode (a ++ ascii t ++ b) = decode a ++ t ++ decode b := by
  induction t generalizing a with
  | nil => exact absurd rfl hne
  | cons c t ih =>
      have hc : c.toNat < 0x80 := ht c List.mem_cons_self
      have hcut : decode (a ++ ascii (c :: t) ++ b) =
          decode a ++ c :: decode (ascii t ++ b) := by
        have h := decode_ascii_cut (c := UInt8.ofNat c.toNat)
          (by rw [toNat_ofNat_toNat hc]; exact hc) a (ascii t ++ b)
        rw [toNat_ofNat_toNat hc, Char.ofNat_toNat] at h
        rw [← h]
        simp [ascii]
      rw [hcut]
      by_cases hnil : t = []
      · subst hnil
        simp [ascii]
      · have hrest := ih (fun d hd => ht d (List.mem_cons_of_mem _ hd)) hnil []
        rw [List.nil_append] at hrest
        rw [hrest]
        simp [decode, decodeFrom]

/-- ASCII is decoded on its own, whatever comes after it. -/
theorem decode_ascii_append {t : PyText} (ht : IsAscii t) (b : Bytes) :
    decode (ascii t ++ b) = t ++ decode b := by
  by_cases hnil : t = []
  · subst hnil
    rfl
  · have h := decode_ascii_between ht hnil [] b
    rw [List.nil_append] at h
    rw [h]
    simp [decode, decodeFrom]

/-- ASCII is decoded to itself. -/
theorem decode_ascii {t : PyText} (ht : IsAscii t) : decode (ascii t) = t := by
  have h := decode_ascii_append ht []
  rw [List.append_nil] at h
  rw [h]
  simp [decode, decodeFrom]

/-! ### ASCII text inside a text -/

/-- A byte emits a character or is the start or the middle of a sequence. -/
private theorem step_progress (st : Option Pending) (b : UInt8) :
    (step st b).1 ≠ [] ∨ ∃ p, (step st b).2 = some p := by
  cases st with
  | none =>
      obtain ⟨-, hfirst⟩ | hfirst | ⟨p, hfirst⟩ := first_cases b
      · exact .inl (by simp [step, hfirst])
      · exact .inl (by simp [step, hfirst])
      · exact .inr ⟨p, by simp [step, hfirst]⟩
  | some q =>
      unfold step
      dsimp only
      split
      · split
        · exact Or.inl (by simp)
        · exact Or.inr ⟨_, rfl⟩
      · exact Or.inl (by simp)

/-- Pending bytes leave a character. -/
private theorem decodeFrom_ne_nil (bs : Bytes) (p : Pending) :
    decodeFrom (some p) bs ≠ [] := by
  induction bs generalizing p with
  | nil => simp [decodeFrom]
  | cons b bs ih =>
      rw [decodeFrom_cons]
      rcases step_progress (some p) b with h | ⟨q, hq⟩
      · exact List.append_ne_nil_of_left_ne_nil h _
      · rw [hq]
        exact List.append_ne_nil_of_right_ne_nil _ (ih q)

/-- Only no bytes are decoded to no text. -/
theorem decode_eq_nil {bs : Bytes} (h : decode bs = []) : bs = [] := by
  cases bs with
  | nil => rfl
  | cons b bs =>
      unfold decode at h
      rw [decodeFrom_cons] at h
      rcases step_progress none b with hne | ⟨q, hq⟩
      · exact absurd h (List.append_ne_nil_of_left_ne_nil hne _)
      · rw [hq] at h
        exact absurd h
          (List.append_ne_nil_of_right_ne_nil _ (decodeFrom_ne_nil bs q))

/-- The characters a state still stands for. -/
private def pendingCount : Option Pending → Nat
  | none => 0
  | some _ => 1

/-- A first byte is one character or is pending. -/
private theorem length_first (b : UInt8) :
    (first b).1.length + pendingCount (first b).2 ≤ 1 := by
  obtain ⟨-, hfirst⟩ | hfirst | ⟨p, hfirst⟩ := first_cases b
  all_goals simp [hfirst, pendingCount]

/-- A byte adds one character at most. -/
private theorem length_step (st : Option Pending) (b : UInt8) :
    (step st b).1.length + pendingCount (step st b).2 ≤
      pendingCount st + 1 := by
  cases st with
  | none => exact length_first b
  | some p =>
      have hb := length_first b
      unfold step
      dsimp only
      split
      · split <;> simp [pendingCount]
      · simp only [List.length_cons, pendingCount] at hb ⊢
        omega

/-- There are no more characters than bytes. -/
private theorem length_decodeFrom_le (bs : Bytes) (st : Option Pending) :
    (decodeFrom st bs).length ≤ pendingCount st + bs.length := by
  induction bs generalizing st with
  | nil => cases st <;> simp [decodeFrom, pendingCount]
  | cons b bs ih =>
      have hb := length_step st b
      have hrest := ih (step st b).2
      rw [decodeFrom_cons, List.length_append, List.length_cons]
      omega

/-- What is cut off leaves no new character, except for a replacement. -/
theorem mem_decode_take {bs : Bytes} {n : Nat} {c : Char}
    (h : c ∈ decode (bs.take n)) :
    c ∈ decode bs ∨ c = replacement := by
  have hfrom : ∀ (bs : Bytes) (n : Nat) (st : Option Pending),
      c ∈ decodeFrom st (bs.take n) →
      c ∈ decodeFrom st bs ∨ c = replacement := by
    intro bs
    induction bs with
    | nil =>
        intro n st h
        rw [List.take_nil] at h
        exact Or.inl h
    | cons b bs ih =>
        intro n st h
        cases n with
        | zero =>
            cases st with
            | none => exact absurd h List.not_mem_nil
            | some p => exact Or.inr (List.mem_singleton.mp h)
        | succ n =>
            rw [List.take_succ_cons, decodeFrom_cons] at h
            rw [decodeFrom_cons]
            rcases List.mem_append.mp h with h | h
            · exact Or.inl (List.mem_append_left _ h)
            · rcases ih n _ h with h | h
              · exact Or.inl (List.mem_append_right _ h)
              · exact Or.inr h
  exact hfrom bs n none h

/-- A character takes a byte at least. -/
theorem length_decode_le (bs : Bytes) : (decode bs).length ≤ bs.length := by
  have h := length_decodeFrom_le bs none
  rwa [pendingCount, Nat.zero_add] at h

/-- Characters that stand for themselves: ASCII, but not the NUL that an
invalid scalar decodes to. -/
def IsPlain (t : PyText) : Prop := ∀ c ∈ t, c.toNat ≠ 0 ∧ c.toNat < 0x80

instance (t : PyText) : Decidable (IsPlain t) :=
  inferInstanceAs (Decidable (∀ c ∈ t, c.toNat ≠ 0 ∧ c.toNat < 0x80))

/-- Plain text is ASCII. -/
theorem IsPlain.isAscii {t : PyText} (h : IsPlain t) : IsAscii t :=
  fun c hc => (h c hc).2

/-- The first place of a plain character. -/
private theorem decode_first {c : Char} (h0 : c.toNat ≠ 0) (hc : c.toNat < 0x80)
    {bs : Bytes}
    (h : c ∈ decode bs) :
    ∃ a b, bs = a ++ UInt8.ofNat c.toNat :: b ∧ c ∉ decode a ∧
      decode bs = decode a ++ c :: decode b := by
  obtain ⟨a, b, rfl, ha⟩ := List.eq_append_cons_of_mem (mem_decode h0 hc h)
  refine ⟨a, b, rfl, fun hmem => ha (mem_decode h0 hc hmem), ?_⟩
  rw [decode_ascii_cut (by rw [toNat_ofNat_toNat hc]; exact hc),
    toNat_ofNat_toNat hc,
    Char.ofNat_toNat]

/-- A plain text at the start of what is decoded is at the start of the
bytes. -/
private theorem prefix_decode {t : PyText} (ht : IsPlain t) {bs : Bytes}
    (h : t <+: decode bs) :
    ascii t <+: bs := by
  induction t generalizing bs with
  | nil => exact List.nil_prefix
  | cons c t ih =>
      obtain ⟨h0, hc⟩ := ht c List.mem_cons_self
      obtain ⟨a, b, rfl, ha, hdecode⟩ :=
        decode_first h0 hc (h.subset List.mem_cons_self)
      rw [hdecode] at h
      cases hda : decode a with
      | nil =>
          rw [hda] at h
          obtain rfl := decode_eq_nil hda
          exact List.cons_prefix_cons.mpr
            ⟨rfl, ih (fun d hd =>
              ht d (List.mem_cons_of_mem _ hd)) (List.cons_prefix_cons.mp h).2⟩
      | cons x xs =>
          rw [hda, List.cons_append] at h
          obtain ⟨rfl, -⟩ := List.cons_prefix_cons.mp h
          exact absurd (hda ▸ List.mem_cons_self) ha

/-- No occurrence starts before the first place of its first character. -/
private theorem infix_from_first {c : Char} {t x y : PyText} (hx : c ∉ x)
    (h : (c :: t) <:+: x ++ c :: y) : t <+: y ∨ (c :: t) <:+: y := by
  induction x with
  | nil =>
      rcases List.infix_cons_iff.mp h with hp | hi
      · exact Or.inl (List.cons_prefix_cons.mp hp).2
      · exact Or.inr hi
  | cons d x ih =>
      simp only [List.mem_cons, not_or] at hx
      rcases List.infix_cons_iff.mp h with hp | hi
      · exact absurd (List.cons_prefix_cons.mp hp).1 hx.1
      · exact ih hx.2 hi

/-- **A plain text is decoded only where its bytes stand.** -/
theorem infix_decode_iff {t : PyText} (ht : IsPlain t) (hne : t ≠ [])
    {bs : Bytes} :
    t <:+: decode bs ↔ ascii t <:+: bs := by
  constructor
  · intro h
    obtain ⟨c, t', rfl⟩ := List.exists_cons_of_ne_nil hne
    obtain ⟨h0, hc⟩ := ht c List.mem_cons_self
    induction hlen :
      bs.length using Nat.strong_induction_on generalizing bs with
    | _ n ih =>
        obtain ⟨a, b, rfl, ha, hdecode⟩ :=
          decode_first h0 hc (h.subset List.mem_cons_self)
        rw [hdecode] at h
        rcases infix_from_first ha h with hp | hi
        · obtain ⟨r, hr⟩ :=
            prefix_decode (fun d hd => ht d (List.mem_cons_of_mem _ hd)) hp
          exact ⟨a, r, by rw [← hr]; simp [ascii]⟩
        · have hlt : b.length < n := by
            rw [← hlen]
            simp only [List.length_append, List.length_cons]
            omega
          exact (ih b.length hlt hi rfl).trans ((List.suffix_cons _ b).trans
            (List.suffix_append a _)).isInfix
  · intro h
    obtain ⟨a, b, rfl⟩ := h
    rw [decode_ascii_between ht.isAscii hne]
    exact ⟨decode a, decode b, rfl⟩

/-! ### Encoding -/

/-- `str.encode()` -/
def encode (t : PyText) : Bytes := t.flatMap String.utf8EncodeChar

/-- The last byte of a sequence. -/
private theorem decodeFrom_last {bits low high : Nat} (h₁ : 0x80 ≤ low)
    (h₂ : 0x80 ≤ (bits * 64 + (low - 0x80)) * 64 ^ 0) {n : Nat} (hlow : low ≤ n)
    (hhigh : n ≤ high)
    (hn : n < 256) (bs : Bytes) :
    decodeFrom (some ⟨0, bits, low, high, h₁, h₂⟩) (UInt8.ofNat n :: bs)
      = Char.ofNat (bits * 64 + (n - 0x80)) :: decode bs := by
  have hb : (UInt8.ofNat n).toNat = n := by
    rw [UInt8.toNat_ofNat']
    exact Nat.mod_eq_of_lt hn
  have hin : low ≤ n ∧ n ≤ high := ⟨hlow, hhigh⟩
  rw [decodeFrom_cons]
  simp only [step, hb, dif_pos hin]
  rfl

/-- A byte of a sequence that is not the last one. -/
private theorem decodeFrom_more {k bits low high : Nat} (h₁ : 0x80 ≤ low)
    (h₂ : 0x80 ≤ (bits * 64 + (low - 0x80)) * 64 ^ (k + 1)) {n : Nat}
    (hlow : low ≤ n)
    (hhigh : n ≤ high) (hn : n < 256) (bs : Bytes) :
    ∃ h, decodeFrom (some ⟨k + 1, bits, low, high, h₁, h₂⟩)
      (UInt8.ofNat n :: bs)
      = decodeFrom (some ⟨k, bits * 64 + (n - 0x80), 0x80, 0xBF, by decide,
        h⟩) bs := by
  have hb : (UInt8.ofNat n).toNat = n := by
    rw [UInt8.toNat_ofNat']
    exact Nat.mod_eq_of_lt hn
  have hin : low ≤ n ∧ n ≤ high := ⟨hlow, hhigh⟩
  have h : 0x80 ≤ ((bits * 64 + (n - 0x80)) * 64 + (0x80 - 0x80)) * 64 ^ k := by
    have hbig := Pending.big_next ⟨k + 1, bits, low, high, h₁, h₂⟩ hlow
    rw [Nat.sub_self, Nat.add_zero, Nat.mul_assoc, ← Nat.pow_succ']
    exact hbig
  refine ⟨h, ?_⟩
  rw [decodeFrom_cons]
  simp only [step, hb, dif_pos hin]
  rfl

/-- A small number is a byte. -/
theorem toNat_byte {n : Nat} (h : n < 256) : (UInt8.ofNat n).toNat = n := by
  rw [UInt8.toNat_ofNat']
  exact Nat.mod_eq_of_lt h

/-- **A character is read back from its bytes.** -/
theorem decode_encodeChar (c : Char) (bs : Bytes) :
    decode (String.utf8EncodeChar c ++ bs) = c :: decode bs := by
  have hc : Char.ofNat c.toNat = c := Char.ofNat_toNat c
  have hv : c.toNat < 0xD800 ∨ (0xDFFF < c.toNat ∧ c.toNat < 0x110000) :=
    c.valid
  have hval : c.val.toNat = c.toNat := rfl
  unfold String.utf8EncodeChar decode
  simp only [hval]
  generalize c.toNat = v at hc hv
  split
  · next h1 =>
    have hn := toNat_byte (n := v) (by omega)
    have hfirst : step none (UInt8.ofNat v) = ([Char.ofNat v], none) := by
      simp only [step, first, hn, if_pos (show v < 0x80 by omega)]
    rw [List.cons_append, decodeFrom_cons, hfirst, hc]
    rfl
  · split
    · next h1 h2 =>
      have hn := toNat_byte (n := v / 64 % 0x20 + 0xc0) (by omega)
      have hfirst : step none (UInt8.ofNat (v / 64 % 0x20 + 0xc0))
          = ([], some ⟨0, v / 64, 0x80, 0xBF, by decide, by omega⟩) := by
        simp only [step, first, hn,
          if_neg (show ¬ v / 64 % 0x20 + 0xc0 < 0x80 by omega),
          dif_pos (show 0xC2 ≤ v / 64 % 0x20 + 0xc0 ∧
            v / 64 % 0x20 + 0xc0 ≤ 0xDF by omega),
          show v / 64 % 0x20 + 0xc0 - 0xC0 = v / 64 by omega]
      rw [List.cons_append, decodeFrom_cons, hfirst]
      simp only [List.nil_append, List.cons_append]
      rw [decodeFrom_last _ _ (by omega) (by omega) (by omega),
        show v / 64 * 64 + (v % 64 + 128 - 128) = v by omega, hc]
      rfl
    · split
      · next h1 h2 h3 =>
        -- the second byte has bounds of its own after E0 and ED
        obtain ⟨low, high, hl, hb, hfirst, hlow, hhigh⟩ : ∃ low high hl hb,
            step none (UInt8.ofNat (v / 4096 % 0x10 + 0xe0))
              = ([], some ⟨1, v / 4096, low, high, hl, hb⟩) ∧
            low ≤ v / 64 % 0x40 + 0x80 ∧ v / 64 % 0x40 + 0x80 ≤ high := by
          have hn := toNat_byte (n := v / 4096 % 0x10 + 0xe0) (by omega)
          by_cases hE0 : v / 4096 = 0
          · refine ⟨0xA0, 0xBF, by decide, by omega, ?_, by omega, by omega⟩
            simp [step, first, hE0]
          · by_cases hED : v / 4096 = 13
            · refine ⟨0x80, 0x9F, by decide, by omega, ?_, by omega, by omega⟩
              simp [step, first, hED]
            · refine ⟨0x80, 0xBF, by decide, by omega, ?_, by omega, by omega⟩
              simp only [step, first, hn]
              rw [if_neg (by omega), dif_neg (by omega), if_neg (by omega),
                if_neg (by omega),
                dif_pos (by omega)]
              simp only [show v / 4096 % 0x10 + 0xe0 - 0xE0 = v / 4096 by omega]
        rw [List.cons_append, decodeFrom_cons, hfirst]
        simp only [List.nil_append, List.cons_append]
        obtain ⟨hb', hmore⟩ := decodeFrom_more hl hb hlow hhigh (by omega)
          (UInt8.ofNat (v % 0x40 + 0x80) :: bs)
        rw [hmore, decodeFrom_last _ _ (by omega) (by omega) (by omega),
          show (v / 4096 * 64 + (v / 64 % 0x40 + 0x80 - 0x80)) * 64 +
              (v % 0x40 + 0x80 - 0x80) = v by
            omega, hc]
        rfl
      · next h1 h2 h3 =>
        obtain ⟨low, high, hl, hb, hfirst, hlow, hhigh⟩ : ∃ low high hl hb,
            step none (UInt8.ofNat (v / 262144 % 0x08 + 0xf0))
              = ([], some ⟨2, v / 262144, low, high, hl, hb⟩) ∧
            low ≤ v / 4096 % 0x40 + 0x80 ∧ v / 4096 % 0x40 + 0x80 ≤ high := by
          have hn := toNat_byte (n := v / 262144 % 0x08 + 0xf0) (by omega)
          by_cases hF0 : v / 262144 = 0
          · refine ⟨0x90, 0xBF, by decide, by omega, ?_, by omega, by omega⟩
            simp [step, first, hF0]
          · by_cases hF4 : v / 262144 = 4
            · refine ⟨0x80, 0x8F, by decide, by omega, ?_, by omega, by omega⟩
              simp [step, first, hF4]
            · refine ⟨0x80, 0xBF, by decide, by omega, ?_, by omega, by omega⟩
              simp only [step, first, hn]
              rw [if_neg (by omega), dif_neg (by omega), if_neg (by omega),
                if_neg (by omega),
                dif_neg (by omega), if_neg (by omega), if_neg (by omega),
                dif_pos (by omega)]
              simp only [show v / 262144 % 0x08 + 0xf0 - 0xF0 =
                v / 262144 by omega]
        rw [List.cons_append, decodeFrom_cons, hfirst]
        simp only [List.nil_append, List.cons_append]
        obtain ⟨hb', hmore⟩ := decodeFrom_more hl hb hlow hhigh (by omega)
          (UInt8.ofNat (v / 64 % 0x40 + 0x80) ::
            UInt8.ofNat (v % 0x40 + 0x80) :: bs)
        obtain ⟨hb'', hmore'⟩ := decodeFrom_more (by decide) hb'
          (show 0x80 ≤ v / 64 % 0x40 + 0x80 by omega) (show v / 64 % 0x40 +
            0x80 ≤ 0xBF by omega)
          (by omega) (UInt8.ofNat (v % 0x40 + 0x80) :: bs)
        rw [hmore, hmore', decodeFrom_last _ _ (by omega) (by omega) (by omega),
          show ((v / 262144 * 64 + (v / 4096 % 0x40 + 0x80 - 0x80)) * 64
            + (v / 64 % 0x40 + 0x80 - 0x80)) * 64 + (v % 0x40 + 0x80 - 0x80) =
              v by omega, hc]
        rfl

/-- An encoded text is decoded on its own. -/
theorem decode_encode_append (t : PyText) (bs : Bytes) :
    decode (encode t ++ bs) = t ++ decode bs := by
  induction t with
  | nil => rfl
  | cons c t ih =>
      unfold encode at ih ⊢
      rw [List.flatMap_cons, List.append_assoc, decode_encodeChar, ih]
      rfl

/-- A text that is encoded and decoded is the text. -/
theorem decode_encode (t : PyText) : decode (encode t) = t := by
  have h := decode_encode_append t []
  rwa [List.append_nil, show decode [] = [] from rfl, List.append_nil] at h

end Utf8
