import Telemetryd.Lib.PyNumber
import Telemetryd.Lib.Utf8
import Telemetryd.NvmeConst

/-!
# Hexdumps

The bytes of a page are shown sixteen in a line, on the command line by
`_hexdump` and on the web page by `hexdump`, which gets them as the text of
`bytes.hex()`.  Both dumps can be read back: they say the address and the bytes
of every line.
-/

namespace Telemetryd

open PyText Utf8

/-! ### The dumps -/

/-- `data.hex()` -/
def bytesHex (data : Bytes) : PyText := data.flatMap fun b => hex 2 b.toNat

/-- The character of a byte, or a dot. -/
def dumpChar (b : UInt8) : Char :=
  if 32 ≤ b ∧ b < 127 then Char.ofNat b.toNat else '.'

/-- The two digits of each byte, padded to the width of sixteen. -/
def dumpColumn (chunk : Bytes) : PyText :=
  let hexs := join " ".toList (chunk.map fun b => hex 2 b.toNat)
  hexs ++ List.replicate (47 - hexs.length) ' '

/-- A line behind its address. -/
def dumpLine (address : PyText) (chunk : Bytes) : PyText :=
  address ++ "  ".toList ++ dumpColumn chunk ++ "  |".toList ++
    chunk.map dumpChar ++ ['|']

/-- The offsets of the lines. -/
def dumpOffsets (data : Bytes) : List Nat :=
  (List.range ((data.length + 15) / 16)).map fun i => 16 * i

/-- The bytes of the line at an offset. -/
def dumpChunk (data : Bytes) (off : Nat) : Bytes := (data.drop off).take 16

/-- `_hexdump` -/
def hexdump (data : Bytes) (baseAddr : Nat) : PyText :=
  join ['\n'] ((dumpOffsets data).map fun off =>
    dumpLine ("  ".toList ++ hex0x 8 (baseAddr + off : Nat))
      (dumpChunk data off))

/-- A number of the web page: 53 bits are kept of it. -/
def jsNumber (n : Nat) : Nat :=
  let unit : Nat := 2 ^ (n.log2 - 52)
  roundHalfEven (n / unit) * unit

/-- The loop that reads pairs of digits. -/
def bytesOfHex : PyText → Bytes
  | a :: b :: rest => UInt8.ofNat (hexValue 0 [a, b]) :: bytesOfHex rest
  | _ => []

/-- The `hexdump` of the web page. -/
def pageHexdump (dataHex : PyText) (physAddr : Nat) : PyText :=
  let baseAddr := jsNumber physAddr
  let bytes := bytesOfHex dataHex
  join ['\n'] ((dumpOffsets bytes).map fun off =>
    dumpLine (hex0x 10 (jsNumber (baseAddr + off))) (dumpChunk bytes off))

/-! ### Reading -/

/-- The address and the bytes of a line. -/
def readDumpLine (line : PyText) : Nat × Bytes :=
  let line := line.dropWhile (· == ' ')
  let address := line.takeWhile (· != ' ')
  let column := (line.drop (address.length + 2)).take 47
  (hexValue 0 (address.drop 2), (splitWords column).map fun w =>
    UInt8.ofNat (hexValue 0 w))

/-- The addresses and the bytes of the lines. -/
def readHexdump (text : PyText) : List (Nat × Bytes) :=
  if text = [] then [] else (splitOn ['\n'] text).map readDumpLine

/-- What the lines of a dump say. -/
def dumpRows (data : Bytes) (baseAddr : Nat) : List (Nat × Bytes) :=
  (dumpOffsets data).map fun off => (baseAddr + off, dumpChunk data off)

/-! ### Bytes in hexadecimal -/

/-- A hexadecimal numeral has the value it was made from. -/
theorem hexValue_hex (w n : Nat) : hexValue 0 (hex w n) = n := by
  show hexValue 0 (List.replicate _ '0' ++ Nat.toDigits 16 n) = n
  rw [hexValue_replicate, hexValue_toDigits]

/-- A byte is two digits. -/
theorem length_hex_byte (b : UInt8) : (hex 2 b.toNat).length = 2 := by
  have hlt := b.toNat_lt
  show (List.replicate (2 - (Nat.toDigits 16 b.toNat).length) '0' ++
    Nat.toDigits 16 b.toNat).length = 2
  have hlen : 1 ≤ (Nat.toDigits 16 b.toNat).length ∧
      (Nat.toDigits 16 b.toNat).length ≤ 2 := by
    by_cases hsmall : b.toNat < 16
    · rw [Nat.toDigits_of_lt_base hsmall]
      exact ⟨Nat.le_refl 1, Nat.le_succ 1⟩
    · have hsplit := Nat.toDigits_append_toDigits (b := 16) (by decide)
        (Nat.div_pos (Nat.le_of_not_lt hsmall) (by decide))
          (Nat.mod_lt b.toNat (by decide))
      rw [Nat.div_add_mod] at hsplit
      rw [← hsplit, Nat.toDigits_of_lt_base (by omega),
        Nat.toDigits_of_lt_base (by omega)]
      exact ⟨Nat.le_succ 1, Nat.le_refl 2⟩
  simp only [List.length_append, List.length_replicate]
  omega

/-- A hexadecimal numeral has no blank. -/
theorem notMem_hex_of_space {w n : Nat} {c : Char} (h : isSpace c = true) :
    c ∉ hex w (n : Int) := by
  intro hc
  rcases mem_hex hc with ⟨-, hneg⟩ | ⟨d, hd, rfl⟩
  · exact absurd hneg (Int.not_lt.mpr (Int.natCast_nonneg n))
  · have hall : ∀ d < 16, isSpace (Nat.digitChar d) ≠ true := by decide
    exact hall d hd h

/-- The bytes that were sent are received. -/
theorem bytesOfHex_bytesHex (data : Bytes) :
    bytesOfHex (bytesHex data) = data := by
  induction data with
  | nil => rfl
  | cons b data ih =>
      obtain ⟨x, y, hxy⟩ := List.length_eq_two.mp (length_hex_byte b)
      have hvalue := hexValue_hex 2 b.toNat
      rw [bytesHex, List.flatMap_cons, hxy]
      rw [hxy] at hvalue
      show UInt8.ofNat (hexValue 0 [x, y]) :: bytesOfHex (bytesHex data) =
        b :: data
      rw [hvalue, ih, UInt8.ofNat_toNat]

/-! ### The numbers of the web page -/

/-- A number is rounded to itself. -/
theorem roundHalfEven_natCast (n : Nat) : roundHalfEven n = n := by
  have hfloor : (n : ℚ).floor.toNat = n := by
    have hint : (n : ℚ) = ((n : Int) : ℚ) := rfl
    rw [hint, Rat.floor_intCast, Int.toNat_natCast]
  simp only [roundHalfEven]
  rw [hfloor, sub_self, if_pos (by norm_num)]

/-- Below 2^53 a number is exact in the page. -/
theorem jsNumber_of_lt {n : Nat} (h : n < 2 ^ 53) : jsNumber n = n := by
  have hlog : n.log2 - 52 = 0 := by
    rcases Nat.eq_zero_or_pos n with rfl | hpos
    · rfl
    · have := (Nat.log2_lt hpos.ne').mpr h
      omega
  simp only [jsNumber]
  rw [hlog, pow_zero, Nat.cast_one, div_one, roundHalfEven_natCast, mul_one]

/-! ### A line -/

/-- Separators at the end make no word. -/
theorem wordsGo_append_seps {isSep : Char → Bool} {t : PyText}
    (h : ∀ c ∈ t, isSep c = true)
    (cur s : PyText) : wordsGo isSep cur (s ++ t) = wordsGo isSep cur s := by
  have hend : ∀ cur, wordsGo isSep cur t = if cur = [] then [] else [cur] := by
    intro cur
    induction t generalizing cur with
    | nil => rfl
    | cons c t ih =>
        obtain ⟨hc, ht⟩ := List.forall_mem_cons.mp h
        rw [wordsGo, if_pos hc, ih ht, if_pos rfl]
  induction s generalizing cur with
  | nil => exact hend cur
  | cons c s ih =>
      rw [List.cons_append, wordsGo, wordsGo]
      simp only [ih]

/-- The width of some pairs with blanks between them. -/
theorem length_join_pairs {l : List PyText} (hne : l ≠ [])
    (h : ∀ w ∈ l, w.length = 2) :
    (join " ".toList l).length + 1 = 3 * l.length := by
  induction l with
  | nil => exact absurd rfl hne
  | cons w l ih =>
      obtain ⟨hw, hl⟩ := List.forall_mem_cons.mp h
      cases l with
      | nil =>
          rw [join_singleton, hw]
          rfl
      | cons v l =>
          have hrest := ih (List.cons_ne_nil _ _) hl
          rw [join_cons_cons, List.length_append, List.length_append, hw,
            List.length_cons]
          show 2 + (1 + _) + 1 = _
          omega

/-- The column of bytes is 47 wide, also in the last line. -/
theorem length_dumpColumn {chunk : Bytes} (h : chunk.length ≤ 16) :
    (dumpColumn chunk).length = 47 := by
  have hpairs : ∀ w ∈ chunk.map fun b => hex 2 b.toNat, w.length = 2 := by
    intro w hw
    obtain ⟨b, -, rfl⟩ := List.mem_map.mp hw
    exact length_hex_byte b
  have hle : (join " ".toList (chunk.map fun b => hex 2 b.toNat)).length ≤
      47 := by
    cases chunk with
    | nil => decide
    | cons b chunk =>
        have hne : (b :: chunk).map (fun b => hex 2 b.toNat) ≠ [] :=
          List.cons_ne_nil _ _
        have := length_join_pairs hne hpairs
        rw [List.length_map] at this
        omega
  simp only [dumpColumn, List.length_append, List.length_replicate]
  omega

/-- The words of the column are the digits of the bytes. -/
theorem splitWords_dumpColumn (chunk : Bytes) :
    splitWords (dumpColumn chunk) = chunk.map fun b => hex 2 b.toNat := by
  have hspace : ∀ n, ∀ c ∈ List.replicate n ' ', isSpace c = true := by
    intro n c hc
    rw [List.eq_of_mem_replicate hc]
    decide
  rw [dumpColumn, splitWords, wordsBy, wordsGo_append_seps (hspace _)]
  refine wordsBy_join (by decide) fun w hw => ?_
  obtain ⟨b, -, rfl⟩ := List.mem_map.mp hw
  constructor
  · rw [← List.length_pos_iff_ne_nil, length_hex_byte]
    decide
  · exact fun c hc => Bool.eq_false_iff.mpr fun hsp =>
      notMem_hex_of_space hsp hc

/-- **A line** says its address and its bytes. -/
theorem readDumpLine_dumpLine (spaces w n : Nat) {chunk : Bytes}
    (h : chunk.length ≤ 16) :
    readDumpLine (dumpLine (List.replicate spaces ' ' ++ hex0x w n) chunk) =
      (n, chunk) := by
  have hskip :
      (dumpLine (List.replicate spaces ' ' ++ hex0x w n) chunk).dropWhile
      (· == ' ') =
      hex0x w n ++ ' ' :: ' ' ::
        (dumpColumn chunk ++
        ("  |".toList ++ chunk.map dumpChar ++ ['|'])) := by
    simp only [dumpLine, List.append_assoc]
    rw [List.dropWhile_append_of_pos (by simp)]
    rfl
  have haddress : ∀ rest, (hex0x w n ++ ' ' :: rest).takeWhile (· != ' ') =
      hex0x w n := by
    intro rest
    rw [List.takeWhile_append_of_pos, List.takeWhile_cons_of_neg (by decide),
      List.append_nil]
    intro c hc
    rw [bne_iff_ne]
    rintro rfl
    rcases List.mem_append.mp hc with hc | hc
    · exact absurd hc (by decide)
    · exact notMem_hex_of_space (by decide) hc
  have hcolumn :
      ∀ rest, ((hex0x w n ++ ' ' :: ' ' :: (dumpColumn chunk ++ rest)).drop
      ((hex0x w n).length + 2)).take 47 = dumpColumn chunk := by
    intro rest
    rw [List.drop_append, List.drop_of_length_le (by omega), List.nil_append,
      Nat.add_sub_cancel_left]
    exact List.take_left' (length_dumpColumn h)
  have hvalue : hexValue 0 ((hex0x w n).drop 2) = n := hexValue_hex w n
  simp only [readDumpLine]
  rw [hskip, haddress, hcolumn, hvalue, splitWords_dumpColumn, List.map_map]
  refine Prod.ext rfl ?_
  show chunk.map _ = chunk
  refine (List.map_congr_left fun b _ => ?_).trans (List.map_id _)
  rw [Function.comp_apply, hexValue_hex, UInt8.ofNat_toNat]
  rfl

/-! ### A dump -/

/-- The column of characters has no line feed. -/
theorem dumpChar_ne_newline (b : UInt8) : dumpChar b ≠ '\n' := by
  unfold dumpChar
  split
  · next h =>
    intro heq
    have hlow : 32 ≤ b.toNat := UInt8.le_iff_toNat_le.mp h.1
    have hhigh : b.toNat < 127 := UInt8.lt_iff_toNat_lt.mp h.2
    have hvalid : b.toNat.isValidChar := Or.inl (by omega)
    have hnat : b.toNat = 10 := by
      have := congrArg Char.toNat heq
      rwa [Char.ofNat, dif_pos hvalid] at this
    omega
  · decide

/-- Nor has a line. -/
theorem newline_notMem_dumpLine (spaces w n : Nat) (chunk : Bytes) :
    '\n' ∉ dumpLine (List.replicate spaces ' ' ++ hex0x w n) chunk := by
  have hspaces : ∀ k, '\n' ∉ List.replicate k ' ' := fun k h =>
    absurd (List.eq_of_mem_replicate h) (by decide)
  have hcolumn : '\n' ∉ join " ".toList (chunk.map fun b => hex 2 b.toNat) := by
    intro h
    rcases of_mem_join h with h | ⟨w, hw, h⟩
    · exact absurd h (by decide)
    · obtain ⟨b, -, rfl⟩ := List.mem_map.mp hw
      exact notMem_hex_of_space (by decide) h
  have hhex : '\n' ∉ hex w (n : Int) := notMem_hex_of_space (by decide)
  have hchars : '\n' ∉ chunk.map dumpChar := by
    intro h
    obtain ⟨b, -, heq⟩ := List.mem_map.mp h
    exact dumpChar_ne_newline b heq
  simp only [dumpLine, dumpColumn, hex0x, List.mem_append, not_or]
  have hsep : '\n' ∉ "  ".toList ∧ '\n' ∉ "  |".toList ∧ '\n' ∉ "0x".toList ∧
    '\n' ∉ ['|'] := by decide
  exact ⟨⟨⟨⟨⟨⟨hspaces _, hsep.2.2.1, hhex⟩, hsep.1⟩, hcolumn, hspaces _⟩,
    hsep.2.1⟩, hchars⟩, hsep.2.2.2⟩

/-- A dump is read line by line. -/
theorem readHexdump_join {offsets : List Nat} {line : Nat → PyText}
    {row : Nat → Nat × Bytes}
    (h : ∀ off ∈ offsets, line off ≠ [] ∧ '\n' ∉ line off ∧
      readDumpLine (line off) = row off) :
    readHexdump (join ['\n'] (offsets.map line)) = offsets.map row := by
  have hsplit : ∀ off offsets, (∀ o ∈ off :: offsets, '\n' ∉ line o) →
      splitOn ['\n'] (join ['\n'] ((off :: offsets).map line)) =
        (off :: offsets).map line := by
    intro off offsets
    induction offsets generalizing off with
    | nil =>
        intro h
        rw [List.map_singleton, join_singleton]
        refine splitOn_eq_singleton fun hin => ?_
        exact h off List.mem_cons_self (hin.subset List.mem_cons_self)
    | cons o offsets ih =>
        intro h
        obtain ⟨hoff, hrest⟩ := List.forall_mem_cons.mp h
        rw [List.map_cons, List.map_cons, join_cons_cons, List.singleton_append,
          splitOn_char hoff,
          ← List.map_cons, ih o hrest]
  cases offsets with
  | nil => rfl
  | cons off offsets =>
      have hne : join ['\n'] ((off :: offsets).map line) ≠ [] := by
        obtain ⟨c, t, hline⟩ :=
          List.exists_cons_of_ne_nil (h off List.mem_cons_self).1
        refine List.ne_nil_of_mem
          (mem_join (List.mem_map_of_mem List.mem_cons_self) (c := c) ?_)
        rw [hline]
        exact List.mem_cons_self
      rw [readHexdump, if_neg hne, hsplit off offsets fun o ho => (h o ho).2.1,
        List.map_map]
      exact List.map_congr_left fun o ho => (h o ho).2.2

/-- The lines hold all of the bytes. -/
theorem dumpRows_data (data : Bytes) (baseAddr : Nat) :
    (dumpRows data baseAddr).flatMap Prod.snd = data := by
  have htake :
      ∀ n, ((List.range n).map fun i => 16 * i).flatMap (dumpChunk data) =
      data.take (16 * n) := by
    intro n
    induction n with
    | zero => simp
    | succ n ih =>
        rw [List.range_succ, List.map_append, List.flatMap_append, ih,
          Nat.mul_succ, List.take_add]
        simp [dumpChunk]
  have hall :=
    (htake ((data.length + 15) / 16)).trans (List.take_of_length_le (by omega))
  rw [dumpRows, dumpOffsets, List.flatMap_map]
  exact hall

/-- **Both dumps** can be read back. -/
theorem readHexdump_dumps (data : Bytes) (baseAddr : Nat) :
    readHexdump (hexdump data baseAddr) = dumpRows data baseAddr ∧
    (baseAddr + data.length ≤ 2 ^ 53 →
      readHexdump (pageHexdump (bytesHex data) baseAddr) =
        dumpRows data baseAddr) ∧
    (dumpRows data baseAddr).flatMap Prod.snd = data := by
  have hline : ∀ spaces w off,
        dumpLine (List.replicate spaces ' ' ++ hex0x w (baseAddr + off : Nat))
        (dumpChunk data off) ≠ [] ∧
      '\n' ∉ dumpLine (List.replicate spaces ' ' ++
        hex0x w (baseAddr + off : Nat)) (dumpChunk data off) ∧
      readDumpLine (dumpLine (List.replicate spaces ' ' ++
        hex0x w (baseAddr + off : Nat))
        (dumpChunk data off)) =
          (baseAddr + off, dumpChunk data off) := fun spaces w off =>
    ⟨by simp [dumpLine], newline_notMem_dumpLine _ _ _ _,
      readDumpLine_dumpLine _ _ _ (List.length_take_le _ _)⟩
  refine ⟨readHexdump_join fun off _ => hline 2 8 off, fun hbase =>
    ?_, dumpRows_data data baseAddr⟩
  unfold pageHexdump
  simp only [bytesOfHex_bytesHex]
  refine readHexdump_join fun off hoff => ?_
  obtain ⟨i, hi, rfl⟩ := List.mem_map.mp hoff
  have hi := List.mem_range.mp hi
  rw [jsNumber_of_lt (n := baseAddr) (by omega), jsNumber_of_lt (by omega)]
  exact hline 0 10 (16 * i)

end Telemetryd
