import Mathlib.Data.Rat.Floor
import Telemetryd.Lib.Fallible
import Telemetryd.Lib.PyText

/-!
# Python numbers and their texts

`int()` of a numeral, the conversion of an integer to a float and `format` of
a float, with the exceptions they raise.  A float is the rational it stands
for; what is kept of its finite range is that an integer too large for it
raises `OverflowError`.
-/

/-- The exceptions a conversion of numbers raises. -/
inductive PyError where
  | valueError
  | overflowError
  deriving DecidableEq

namespace PyError

variable {α β : Type}

/-- A computation returns without an exception. -/
def Succeeds (x : Except PyError α) : Prop := ∃ a, x = .ok a

instance decidableSucceeds (x : Except PyError α) : Decidable (Succeeds x) :=
  match x with
  | .ok a => isTrue ⟨a, rfl⟩
  | .error _ => isFalse nofun

/-- A value is a success. -/
theorem succeeds_ok (a : α) : Succeeds (.ok a) := ⟨a, rfl⟩

/-- Two steps succeed if the first does and then the second. -/
theorem succeeds_bind (x : Except PyError α) (f : α → Except PyError β) :
    Succeeds (x >>= f) ↔ ∃ a, x = .ok a ∧ Succeeds (f a) := by
  unfold Succeeds
  simp only [Fallible.bind_eq_ok]
  exact ⟨fun ⟨b, a, hx, hf⟩ => ⟨a, hx, b, hf⟩, fun ⟨a, hx, b, hf⟩ =>
    ⟨b, a, hx, hf⟩⟩

/-- What is done with a value does not fail. -/
theorem succeeds_map (f : α → β) (x : Except PyError α) :
    Succeeds (f <$> x) ↔ Succeeds x := by
  cases x with
  | error e => simp [Succeeds, Functor.map, Except.map]
  | ok a => simp [Succeeds, Functor.map, Except.map]

/-- A check that raises. -/
theorem succeeds_ite {c : Prop} [Decidable c] (a : α) (e : PyError) :
    Succeeds (if c then .ok a else .error e) ↔ c := by
  unfold Succeeds
  split
  case isTrue h => exact ⟨fun _ => h, fun _ => ⟨a, rfl⟩⟩
  case isFalse h => exact ⟨fun ⟨_, heq⟩ => absurd heq (by simp), fun hc =>
    absurd hc h⟩

/-- All steps succeed if each does. -/
theorem succeeds_mapM {α β : Type} {f : α → Except PyError β} {l : List α}
    (h : ∀ a ∈ l, Succeeds (f a)) : Succeeds (l.mapM f) :=
  Fallible.exists_mapM_eq_ok h

/-- Every element must succeed. -/
theorem succeeds_mapM_iff {α β : Type} {f : α → Except PyError β} {l : List α} :
    Succeeds (l.mapM f) ↔ ∀ a ∈ l, Succeeds (f a) := by
  refine ⟨?_, succeeds_mapM⟩
  intro h a ha
  obtain ⟨bs, hbs⟩ := h
  obtain ⟨b, -, hb⟩ := Fallible.exists_of_mem hbs ha
  exact ⟨b, hb⟩

/-- The last of a row of steps. -/
theorem succeeds_bind_pure (f : α → β) (x : Except PyError α) :
    Succeeds (x >>= fun a => pure (f a)) ↔ Succeeds x := by
  rw [succeeds_bind]
  exact ⟨fun ⟨a, ha, _⟩ => ⟨a, ha⟩, fun ⟨a, ha⟩ => ⟨a, ha, succeeds_ok _⟩⟩

end PyError

namespace PyText

/-! ### Floats -/

/-- From here on an integer rounds to no finite float. -/
def floatLimit : Nat := 2 ^ 1024 - 2 ^ 970

/-- `float(n)` of an integer. -/
def floatOfInt (n : Int) : Except PyError ℚ :=
  if floatLimit ≤ n.natAbs then .error .overflowError else .ok n

/-- An integer is a float exactly if it is below the limit. -/
theorem floatOfInt_eq_ok {n : Int} {q : ℚ} :
    floatOfInt n = .ok q ↔ n.natAbs < floatLimit ∧ q = n := by
  unfold floatOfInt
  split
  case isTrue h =>
    exact ⟨fun heq => absurd heq (by simp), fun heq => absurd h (by omega)⟩
  case isFalse h =>
    exact ⟨fun heq => ⟨by omega, (Except.ok.inj heq).symm⟩,
      fun heq => by rw [heq.2]⟩

/-- A computation that goes on with a float it has converted. -/
theorem succeeds_floatOfInt_bind {α : Type} (n : Int)
    (f : ℚ → Except PyError α) :
    PyError.Succeeds (floatOfInt n >>= f) ↔ n.natAbs < floatLimit ∧
      PyError.Succeeds (f n) := by
  rw [PyError.succeeds_bind]
  simp only [floatOfInt_eq_ok]
  exact ⟨fun ⟨_, ⟨hn, rfl⟩, hf⟩ => ⟨hn, hf⟩, fun ⟨hn, hf⟩ => ⟨n, ⟨hn, rfl⟩, hf⟩⟩

/-- `int(x)` of a float that is not negative; a number beyond the floats is
infinite. -/
def intOfFloat (q : ℚ) : Except PyError Int :=
  if (floatLimit : ℚ) ≤ q then .error .overflowError else .ok q.floor

/-- `m / n` of integers. -/
def trueDiv (m n : Int) : Except PyError ℚ :=
  let q : ℚ := m / n
  if (floatLimit : ℚ) ≤ |q| then .error .overflowError else .ok q

/-- Round to the nearest natural number, ties to even, of a number that is not
negative. -/
def roundHalfEven (q : ℚ) : Nat :=
  let n := q.floor.toNat
  let r := q - n
  if r < 1 / 2 then n
  else if 1 / 2 < r then n + 1
  else n + n % 2

/-- `format(q, '.1f')`. -/
def fixed1 (q : ℚ) : PyText :=
  let n := roundHalfEven (|q| * 10)
  (if q < 0 then ['-'] else []) ++ ofNat (n / 10) ++ '.' :: ofNat (n % 10)

/-- `format(q, '.2f')`. -/
def fixed2 (q : ℚ) : PyText :=
  let n := roundHalfEven (|q| * 100)
  (if q < 0 then ['-'] else []) ++ ofNat (n / 100) ++ '.' ::
    (ofNat (n / 10 % 10) ++ ofNat (n % 10))

/-- `format(q, '.0%')`. -/
def percent0 (q : ℚ) : PyText :=
  (if q < 0 then ['-'] else []) ++ ofNat (roundHalfEven (|q| * 100)) ++ ['%']

/-! ### Lengths of numerals -/

/-- The longest numeral `int()` reads by default. -/
def maxStrDigits : Nat := 4300

/-- A number has at most `k` digits exactly if it is below `10 ^ k`. -/
theorem length_ofNat_le_iff {n k : Nat} (hk : 0 < k) :
    (ofNat n).length ≤ k ↔ n < 10 ^ k :=
  Nat.length_toDigits_le_iff (by decide) hk

/-- Every machine word is short enough for `int()`. -/
theorem lt_maxStrDigits_of_lt {n : Nat} (h : n < 2 ^ 64) :
    n < 10 ^ maxStrDigits := by
  have h1 : (2 : Nat) ^ 64 ≤ 10 ^ 20 := by decide
  have h2 : (10 : Nat) ^ 20 ≤ 10 ^ maxStrDigits :=
    Nat.pow_le_pow_right (by decide) (by decide)
  omega

/-- A power of two is below that of ten. -/
private theorem two_pow_sub_lt_ten_pow {a k : Nat} (b : Nat) (h : a ≤ k) :
    2 ^ a - 2 ^ b < 10 ^ k := by
  have h1 : 2 ^ a ≤ 10 ^ a := Nat.pow_le_pow_left (by decide) a
  have h2 : 10 ^ a ≤ 10 ^ k := Nat.pow_le_pow_right (by decide) h
  have h3 : 2 ^ a - 2 ^ b < 2 ^ a :=
    Nat.sub_lt (Nat.two_pow_pos a) (Nat.two_pow_pos b)
  omega

/-- The largest float has fewer digits than `int` allows. -/
theorem floatLimit_lt : floatLimit < 10 ^ maxStrDigits :=
  two_pow_sub_lt_ten_pow 970 (by decide)

/-- A smaller power of two is below the limit of floats. -/
private theorem lt_two_pow_sub {n k a b : Nat} (h : n < 2 ^ k) (hk : k < a)
    (hb : b < a) :
    n < 2 ^ a - 2 ^ b := by
  obtain ⟨c, rfl⟩ : ∃ c, a = c + 1 := ⟨a - 1, by omega⟩
  have h1 : 2 ^ b ≤ 2 ^ c := Nat.pow_le_pow_right (by decide) (by omega)
  have h2 : 2 ^ k ≤ 2 ^ c := Nat.pow_le_pow_right (by decide) (by omega)
  have h3 : 2 ^ (c + 1) = 2 ^ c * 2 := Nat.pow_succ 2 c
  omega

/-- So numbers below it are floats. -/
theorem lt_floatLimit_of_lt_two_pow {n k : Nat} (h : n < 2 ^ k)
    (hk : k < 1024) : n < floatLimit :=
  lt_two_pow_sub h hk (by decide)

/-- Every machine word is small enough for a float. -/
theorem lt_floatLimit_of_lt {n : Nat} (h : n < 2 ^ 64) : n < floatLimit :=
  lt_floatLimit_of_lt_two_pow h (by decide)

/-- A number below the limit is a float. -/
theorem floatOfInt_natCast {n : Nat} (h : n < floatLimit) :
    floatOfInt n = .ok (n : ℚ) :=
  floatOfInt_eq_ok.mpr ⟨h, rfl⟩

/-- The quotient of natural numbers is no larger than the first. -/
theorem trueDiv_natCast {m n : Nat} (h : m < floatLimit) (hn : n ≠ 0) :
    trueDiv m n = .ok ((m : ℚ) / n) := by
  have hpos : (1 : ℚ) ≤ n := by exact_mod_cast Nat.one_le_iff_ne_zero.mpr hn
  have hle : (m : ℚ) / n ≤ m := div_le_self (Nat.cast_nonneg m) hpos
  have hlt : (m : ℚ) < floatLimit := by exact_mod_cast h
  have hnonneg : (0 : ℚ) ≤ (m : ℚ) / n :=
    div_nonneg (Nat.cast_nonneg m) (Nat.cast_nonneg n)
  unfold trueDiv
  simp only [Int.cast_natCast]
  rw [if_neg]
  rw [abs_of_nonneg hnonneg, not_le]
  exact hle.trans_lt hlt

/-- The limit is at most `2 ^ 1024`. -/
theorem floatLimit_le : floatLimit ≤ 2 ^ 1024 := Nat.sub_le _ _

/-- The digits are ASCII. -/
theorem lt_of_isDigit {c : Char} (h : c.isDigit = true) : c.toNat < 128 := by
  simp only [Char.isDigit, Bool.and_eq_true, decide_eq_true_eq] at h
  have h2 := UInt32.le_iff_toNat_le.mp h.2
  have : c.toNat ≤ 57 := h2
  omega

/-- The sign and the digits of the text of an integer. -/
theorem ofInt_eq_sign_append (i : Int) :
    ∃ sign ds, ofInt i = sign ++ ds ∧ (sign = [] ∨ sign = ['-']) ∧
      (∀ c ∈ ds, c.isDigit = true) ∧ ds ≠ [] := by
  cases i with
  | ofNat n =>
      exact ⟨[], ofNat n, rfl, Or.inl rfl, fun c hc => isDigit_of_mem_ofNat hc,
        ofNat_ne_nil n⟩
  | negSucc n =>
      exact ⟨['-'], ofNat (n + 1), rfl, Or.inr rfl, fun c hc =>
        isDigit_of_mem_ofNat hc,
        ofNat_ne_nil _⟩

/-- A numeral without its sign. -/
def unsign : PyText → PyText
  | '-' :: ds => ds
  | ds => ds

/-- A numeral has no sign to take off. -/
theorem unsign_ofNat (n : Nat) : unsign (ofNat n) = ofNat n := by
  unfold unsign
  split
  case h_1 ds heq =>
    have hmem : '-' ∈ ofNat n := by
      rw [heq]
      exact List.mem_cons_self
    exact absurd (isDigit_of_mem_ofNat hmem) (by decide)
  case h_2 => rfl

/-- What remains without the sign is the absolute value. -/
theorem unsign_ofInt (i : Int) : unsign (ofInt i) = ofNat i.natAbs := by
  cases i with
  | ofNat n => exact unsign_ofNat n
  | negSucc n => rfl

/-! ### Hexadecimal texts -/

/-- The value of a hexadecimal digit. -/
def hexDigitValue (c : Char) : Nat :=
  if c.isDigit then c.toNat - '0'.toNat else c.toNat - 'a'.toNat + 10

/-- The number that hexadecimal digits stand for, after those of another. -/
def hexValue (n : Nat) (ds : PyText) : Nat :=
  ds.foldl (fun n c => 16 * n + hexDigitValue c) n

/-- The sixteen digits and their values. -/
theorem hexDigitValue_digitChar :
    ∀ d < 16, hexDigitValue (Nat.digitChar d) = d := by decide

/-- A hexadecimal numeral has the value it was made from. -/
theorem hexValue_toDigits (n : Nat) : hexValue 0 (Nat.toDigits 16 n) = n := by
  induction n using Nat.base_induction 16 (by decide) with
  | single d hd =>
      rw [Nat.toDigits_of_lt_base hd]
      simp [hexValue, hexDigitValue_digitChar d hd]
  | digit n d hd hn ih =>
      rw [← Nat.toDigits_append_toDigits (by decide) hn hd,
        Nat.toDigits_of_lt_base hd, hexValue,
        List.foldl_append]
      have hvalue : hexValue 0 (Nat.toDigits 16 n) = n := ih
      rw [hexValue] at hvalue
      rw [hvalue]
      simp [hexDigitValue_digitChar d hd]

/-- Leading zeros do not count. -/
theorem hexValue_replicate (w : Nat) (ds : PyText) :
    hexValue 0 (List.replicate w '0' ++ ds) = hexValue 0 ds := by
  induction w with
  | zero => rfl
  | succ w ih =>
      rw [List.replicate_succ, List.cons_append]
      exact ih

/-- The characters of a hexadecimal numeral are its digits. -/
theorem mem_toDigits_sixteen {n : Nat} {c : Char} (h : c ∈ Nat.toDigits 16 n) :
    ∃ d < 16, c = Nat.digitChar d := by
  induction n using Nat.base_induction 16 (by decide) with
  | single d hd =>
      rw [Nat.toDigits_of_lt_base hd, List.mem_singleton] at h
      exact ⟨d, hd, h⟩
  | digit n d hd hn ih =>
      rw [← Nat.toDigits_append_toDigits (by decide) hn hd] at h
      rcases List.mem_append.mp h with h | h
      · exact ih h
      · rw [Nat.toDigits_of_lt_base hd, List.mem_singleton] at h
        exact ⟨d, hd, h⟩

/-- The characters of a hexadecimal text. -/
theorem mem_hex {w : Nat} {i : Int} {c : Char} (h : c ∈ hex w i) :
    (c = '-' ∧ i < 0) ∨ ∃ d < 16, c = Nat.digitChar d := by
  have hdigits : ∀ v n, c ∈ List.replicate v '0' ++ Nat.toDigits 16 n →
      ∃ d < 16, c = Nat.digitChar d := by
    intro v n hc
    rcases List.mem_append.mp hc with hc | hc
    · exact ⟨0, by decide, List.eq_of_mem_replicate hc⟩
    · exact mem_toDigits_sixteen hc
  cases i with
  | ofNat n => exact Or.inr (hdigits _ n h)
  | negSucc n =>
      rcases List.mem_cons.mp h with h | h
      · exact Or.inl ⟨h, Int.negSucc_lt_zero n⟩
      · exact Or.inr (hdigits _ (n + 1) h)

/-- Different numbers have different hexadecimal numerals. -/
theorem hex_injective (w : Nat) : Function.Injective (hex w) := by
  have hsign : ∀ m n, hex w (Int.ofNat m) ≠ hex w (Int.negSucc n) := by
    intro m n h
    have hmem : '-' ∈ hex w (Int.ofNat m) := h ▸ List.mem_cons_self
    rcases mem_hex hmem with ⟨-, hneg⟩ | ⟨d, hd, hc⟩
    · exact absurd hneg (Int.not_lt.mpr (Int.natCast_nonneg m))
    · have hnot : ∀ d < 16, '-' ≠ Nat.digitChar d := by decide
      exact hnot d hd hc
  have hvalue : ∀ v n, hexValue 0 (List.replicate v '0' ++ Nat.toDigits 16 n) =
      n := fun v n =>
    (hexValue_replicate v _).trans (hexValue_toDigits n)
  intro i j h
  cases i with
  | ofNat m =>
      cases j with
      | negSucc n => exact absurd h (hsign m n)
      | ofNat n =>
          have heq := congrArg (hexValue 0) h
          rw [hex, hex, hvalue, hvalue] at heq
          rw [heq]
  | negSucc m =>
      cases j with
      | ofNat n => exact absurd h.symm (hsign n m)
      | negSucc n =>
          have heq := congrArg (hexValue 0) (List.cons.inj h).2
          rw [hvalue, hvalue] at heq
          rw [Nat.succ.inj heq]

/-! ### Reading integers -/

variable [UnicodeDb]

/-- The class `\d`. -/
def isDecimal (c : Char) : Bool := (UnicodeDb.decimal c).isSome

/-- The class `\w`. -/
def isWord (c : Char) : Bool := UnicodeDb.isAlnum c || c == '_'

/-- The value of a row of decimal digits. -/
def digitsValue (ds : PyText) : Nat :=
  ds.foldl (fun n c => 10 * n + (UnicodeDb.decimal c).getD 0) 0

/-- The value of a text of the form `-?\d+`. -/
def intValue : PyText → Int
  | '-' :: ds => -(digitsValue ds : Int)
  | ds => digitsValue ds

/-- `int(s)` for a text of the form `-?\d+`. -/
def pyInt (s : PyText) : Except PyError Int :=
  if maxStrDigits < (unsign s).length then .error .valueError
    else .ok (intValue s)

/-- `int(s)`: spaces around it, a sign, and groups of digits between
underscores. -/
def intOfText (s : PyText) : Except PyError Int :=
  let (negative, body) := match strip s with
    | '-' :: t => (true, t)
    | '+' :: t => (false, t)
    | t => (false, t)
  let groups := splitOn ['_'] body
  let digits := groups.flatten
  if groups.all (fun g => g != [] && g.all isDecimal) then
    if maxStrDigits < digits.length then .error .valueError
    else .ok (if negative then -(digitsValue digits : Int)
      else digitsValue digits)
  else .error .valueError

/-- `float(s)` for a text of digits and points. -/
def floatOfText (s : PyText) : Except PyError ℚ :=
  match splitOn ['.'] s with
  | [whole] =>
      if whole = [] then .error .valueError else .ok (digitsValue whole)
  | [whole, fraction] =>
      if whole = [] ∧ fraction = [] then .error .valueError
      else .ok (digitsValue whole + digitsValue fraction / 10 ^ fraction.length)
  | _ => .error .valueError

/-- A computation that goes on with an integer it has read. -/
theorem succeeds_pyInt_bind {α : Type} (s : PyText)
    (f : Int → Except PyError α) :
    PyError.Succeeds (pyInt s >>= f) ↔
      (unsign s).length ≤ maxStrDigits ∧ PyError.Succeeds (f (intValue s)) := by
  unfold pyInt
  split
  case isTrue h =>
    exact ⟨fun ⟨_, heq⟩ => absurd heq (by simp [bind, Except.bind]), fun hle =>
      absurd hle.1 (by omega)⟩
  case isFalse h => exact ⟨fun hf => ⟨by omega, hf⟩, fun hf => hf.2⟩

/-! ### Character classes on ASCII -/

/-- Of ASCII the decimals are the digits. -/
theorem isDecimal_ascii {c : Char} (h : c.toNat < 128) :
    isDecimal c = c.isDigit := by
  unfold isDecimal
  rw [UnicodeDb.decimal_ascii c h]
  split
  case isTrue hd => simp [hd]
  case isFalse hd => simp [hd]

/-- Of ASCII the word characters are letters, digits and the underscore. -/
theorem isWord_ascii {c : Char} (h : c.toNat < 128) :
    isWord c = (c.isAlphanum || c == '_') := by
  unfold isWord
  rw [UnicodeDb.isAlnum_ascii c h]

/-- A digit is a decimal. -/
theorem isDecimal_of_isDigit {c : Char} (h : c.isDigit = true) :
    isDecimal c = true := by
  rw [isDecimal_ascii (lt_of_isDigit h), h]

/-! ### Numerals -/

/-- A numeral has the value it was made from. -/
theorem digitsValue_ofNat (n : Nat) : digitsValue (ofNat n) = n := by
  have hfold : ∀ (ds : PyText) (acc : Nat), (∀ c ∈ ds, c.isDigit = true) →
      ds.foldl (fun n c => 10 * n + (UnicodeDb.decimal c).getD 0) acc
        = Nat.ofDigitChars 10 ds acc := by
    intro ds
    induction ds with
    | nil => exact fun _ _ => rfl
    | cons d ds ih =>
        intro acc h
        have hd : d.isDigit = true := h d List.mem_cons_self
        rw [List.foldl_cons, ih _ (fun c hc => h c (List.mem_cons_of_mem _ hc)),
          UnicodeDb.decimal_ascii d (lt_of_isDigit hd), if_pos hd]
        rfl
  unfold digitsValue
  rw [hfold _ _ (fun c hc => isDigit_of_mem_ofNat hc)]
  exact Nat.ofDigitChars_ten_toDigits

/-- A numeral is read back. -/
theorem intOfText_ofNat {n : Nat} (h : n < 10 ^ maxStrDigits) :
    intOfText (ofNat n) = .ok (n : Int) := by
  have hdigit : ∀ c ∈ ofNat n, c.isDigit = true :=
    fun c hc => isDigit_of_mem_ofNat hc
  have hlen : (ofNat n).length ≤ maxStrDigits :=
    (length_ofNat_le_iff (by decide)).mpr h
  have hvalue := digitsValue_ofNat n
  have hne := ofNat_ne_nil n
  generalize ofNat n = ds at hdigit hlen hvalue hne
  obtain ⟨c, t, rfl⟩ := List.exists_cons_of_ne_nil hne
  have hstrip : strip (c :: t) = c :: t :=
    strip_of_ends rfl (List.getLast?_eq_some_getLast hne)
      (isSpace_of_isDigit (hdigit c List.mem_cons_self))
      (isSpace_of_isDigit (hdigit _ (List.getLast_mem hne)))
  have hsplit : splitOn ['_'] (c :: t) = [c :: t] := by
    refine splitOn_eq_singleton fun hin => ?_
    have := hdigit '_' (hin.subset List.mem_cons_self)
    exact absurd this (by decide)
  have hall : (c :: t).all isDecimal = true :=
    List.all_eq_true.mpr fun d hd => isDecimal_of_isDigit (hdigit d hd)
  have hminus : c ≠ '-' :=
    fun heq => absurd (hdigit c List.mem_cons_self) (by rw [heq]; decide)
  have hplus : c ≠ '+' :=
    fun heq => absurd (hdigit c List.mem_cons_self) (by rw [heq]; decide)
  unfold intOfText
  rw [hstrip]
  split
  rename_i negative body hbody
  obtain ⟨rfl, rfl⟩ : negative = false ∧ body = c :: t := by
    split at hbody
    case h_1 heq => exact absurd (List.cons.inj heq).1 hminus
    case h_2 heq => exact absurd (List.cons.inj heq).1 hplus
    case h_3 => exact ⟨(Prod.mk.inj hbody).1.symm, (Prod.mk.inj hbody).2.symm⟩
  rw [hsplit]
  simp only [List.all_cons, List.all_nil, Bool.and_true, List.flatten_cons,
    List.flatten_nil,
    List.append_nil, Bool.false_eq_true, if_false] at hall ⊢
  rw [if_pos (by simpa using hall), if_neg (Nat.not_lt.mpr hlen), hvalue]

/-- So has one with a sign. -/
theorem intValue_ofInt (i : Int) : intValue (ofInt i) = i := by
  cases i with
  | ofNat n =>
      have hnat : intValue (ofNat n) = (digitsValue (ofNat n) : Int) := by
        have hsign := unsign_ofNat n
        unfold intValue
        split
        case h_1 ds heq =>
          rw [heq] at hsign
          exact absurd (congrArg List.length hsign) (by simp [unsign])
        case h_2 => rfl
      exact hnat.trans (congrArg Int.ofNat (digitsValue_ofNat n))
  | negSucc n =>
      show -(digitsValue (ofNat (n + 1)) : Int) = Int.negSucc n
      rw [digitsValue_ofNat]
      rfl

/-- What `int()` does with the text of an integer. -/
theorem pyInt_ofInt (i : Int) :
    pyInt (ofInt i) = if i.natAbs < 10 ^ maxStrDigits then .ok i
      else .error .valueError := by
  have hlen :=
    length_ofNat_le_iff (n := i.natAbs) (k := maxStrDigits) (by decide)
  unfold pyInt
  rw [unsign_ofInt, intValue_ofInt]
  by_cases h : i.natAbs < 10 ^ maxStrDigits
  · rw [if_pos h, if_neg (Nat.not_lt.mpr (hlen.mpr h))]
  · rw [if_neg h, if_pos (Nat.lt_of_not_le (fun hle => h (hlen.mp hle)))]

/-- A numeral is read back, unless it is too long. -/
theorem pyInt_ofInt_eq_ok {i j : Int} :
    pyInt (ofInt i) = .ok j ↔ i.natAbs < 10 ^ maxStrDigits ∧ j = i := by
  rw [pyInt_ofInt]
  split
  case isTrue h =>
    exact ⟨fun heq => ⟨h, (Except.ok.inj heq).symm⟩, fun heq => by rw [heq.2]⟩
  case isFalse h =>
    exact ⟨fun heq => absurd heq (by simp), fun heq => absurd heq.1 h⟩

/-- A machine word is read back. -/
theorem pyInt_ofInt_word {i : Int} (h : i.natAbs < 2 ^ 64) :
    pyInt (ofInt i) = .ok i :=
  pyInt_ofInt_eq_ok.mpr ⟨lt_maxStrDigits_of_lt h, rfl⟩

omit [UnicodeDb] in
/-- Different integers have different numerals. -/
theorem ofInt_injective : Function.Injective ofInt := by
  intro i j h
  have hvalue := congrArg (@intValue UnicodeDb.ascii) h
  rwa [@intValue_ofInt UnicodeDb.ascii, @intValue_ofInt UnicodeDb.ascii]
    at hvalue

end PyText
