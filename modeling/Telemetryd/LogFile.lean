import Telemetryd.Lib.Runs
import Telemetryd.Lib.Utf8

/-!
# The collector's log file

`platform/ebpf/logfile.py`: a cursor that returns the complete lines appended
since it was last read, and the two ways of reading the file at once.  A file
is its bytes, and `none` when it cannot be opened.

A cursor holds one number, the offset of the first byte it has not returned.
The lines it returns are those of the file as long as the offset belongs to
the content it is applied to.  After a truncation it does not, and the cursor
notices only if the new content is shorter than the old offset.
-/

namespace Telemetryd

open PyText Utf8

/-! ### The cursor -/

/-- The byte that ends a line. -/
def newline : UInt8 := 10

/-- `chunk.rfind(b"\n")`. -/
def rfindNewline : Bytes → Option Nat
  | [] => none
  | b :: bs => match rfindNewline bs with
      | some i => some (i + 1)
      | none => if b = newline then some 0 else none

/-- `_FileCursor`: where in the file the next read begins. -/
structure FileCursor where
  offset : Nat := 0

/-- `read_new_lines`: the complete lines after the offset, and the cursor moved
behind them. -/
def FileCursor.readNewLines (file : Option Bytes) (cursor : FileCursor) :
    List PyText × FileCursor :=
  match file with
  | none => ([], cursor)
  | some content =>
      let offset := if content.length < cursor.offset then 0 else cursor.offset
      let chunk := content.drop offset
      match rfindNewline chunk with
      | none => ([], ⟨offset⟩)
      | some lastNl =>
          (splitOn ['\n'] (decode (chunk.take lastNl)), ⟨offset + (lastNl + 1)⟩)

/-! ### Reading at once -/

/-- `read_all`, in text mode. -/
def readAll (file : Option Bytes) : PyText :=
  match file with
  | none => []
  | some content => universalNewlines (decode content)

/-- A whole file is decoded and its newlines are translated. -/
@[simp] theorem readAll_some (content : Bytes) :
    readAll (some content) = universalNewlines (decode content) := rfl

/-- `read_tail`: the last `maxBytes` bytes. -/
def readTail (maxBytes : Nat) (file : Option Bytes) : PyText :=
  match file with
  | none => []
  | some content =>
      decode (if content.length > maxBytes
        then content.drop (content.length - maxBytes)
        else content)

/-! ### Complete lines -/

/-- The lines of `bs` that a newline ends, where `line` is what has been read
of the first. -/
def cutLines (line : Bytes) : Bytes → List Bytes
  | [] => []
  | b :: bs =>
      if b = newline then line :: cutLines [] bs else cutLines (line ++ [b]) bs

/-- The newline-terminated lines of a file, without their newlines. -/
def completeLines (bs : Bytes) : List Bytes := cutLines [] bs

/-- The lines of two pieces that meet after a line end. -/
theorem cutLines_append (line a b : Bytes) :
    cutLines line (a ++ newline :: b) = cutLines line (a ++ [newline]) ++
      completeLines b := by
  induction a generalizing line with
  | nil => simp [cutLines, completeLines]
  | cons x a ih =>
      simp only [List.cons_append, cutLines]
      split
      · rw [ih, List.cons_append]
      · rw [ih]

/-- Lines may be counted separately on both sides of a newline. -/
theorem completeLines_append (a b : Bytes) :
    completeLines (a ++ newline :: b) = completeLines (a ++ [newline]) ++
      completeLines b :=
  cutLines_append [] a b

/-- Without a line feed there is no complete line. -/
theorem cutLines_of_no_newline {bs : Bytes} (h : newline ∉ bs) (line : Bytes) :
    cutLines line bs = [] := by
  induction bs generalizing line with
  | nil => rfl
  | cons b bs ih =>
      simp only [List.mem_cons, not_or] at h
      rw [cutLines, if_neg (fun heq => h.1 heq.symm), ih h.2]

/-- Without a line feed there is no complete line. -/
theorem completeLines_of_no_newline {bs : Bytes} (h : newline ∉ bs) :
    completeLines bs = [] :=
  cutLines_of_no_newline h []

/-- A line without a newline inside is one line. -/
theorem completeLines_line {l : Bytes} (h : newline ∉ l) :
    completeLines (l ++ [newline]) = [l] := by
  have hcut : ∀ line : Bytes, cutLines line (l ++ [newline]) = [line ++ l] := by
    induction l with
    | nil =>
        intro line
        simp [cutLines]
    | cons b l ih =>
        intro line
        simp only [List.mem_cons, not_or] at h
        rw [List.cons_append, cutLines, if_neg (fun heq => h.1 heq.symm),
          ih h.2]
        simp
  exact hcut []

/-- What `rfind` finds: the file up to its last newline. -/
theorem rfindNewline_spec (bs : Bytes) :
    (rfindNewline bs = none ∧ newline ∉ bs) ∨
      ∃ a b, bs = a ++ newline :: b ∧ newline ∉ b ∧
        rfindNewline bs = some a.length := by
  induction bs with
  | nil => exact Or.inl ⟨rfl, List.not_mem_nil⟩
  | cons x bs ih =>
      rcases ih with ⟨hnone, hno⟩ | ⟨a, b, rfl, hb, hsome⟩
      · by_cases hx : x = newline
        · subst hx
          refine Or.inr ⟨[], bs, rfl, hno, ?_⟩
          simp [rfindNewline, hnone]
        · refine Or.inl ⟨?_, ?_⟩
          · simp [rfindNewline, hnone, hx]
          · simp only [List.mem_cons, not_or]
            exact ⟨fun h => hx h.symm, hno⟩
      · refine Or.inr ⟨x :: a, b, rfl, hb, ?_⟩
        rw [rfindNewline, hsome]
        rfl

/-- The line feed is ASCII. -/
theorem toNat_newline : newline.toNat < 0x80 := by decide

/-- A text without its byte has no line feed. -/
theorem newline_notMem_decode {bs : Bytes} (h : newline ∉ bs) :
    '\n' ∉ decode bs := by
  intro hmem
  exact h (mem_decode (by decide) (by decide) hmem)

/-- Nor has the byte a text without it. -/
theorem newline_notMem_ascii {t : PyText} (ht : IsAscii t) (h : '\n' ∉ t) :
    newline ∉ ascii t := by
  intro hmem
  obtain ⟨c, hc, hbyte⟩ := List.mem_map.mp hmem
  have hten : c.toNat = 10 := by
    rw [← toNat_ofNat_toNat (ht c hc), hbyte]
    rfl
  have hnl : c = '\n' := by
    rw [← Char.ofNat_toNat c, hten]
  exact h (hnl ▸ hc)

/-- A line of ASCII text, printed at the start of a log. -/
theorem completeLines_ascii {t : PyText} (ht : IsAscii t) (h : '\n' ∉ t)
    (rest : Bytes) :
    (completeLines (ascii t ++ newline :: rest)).map decode
      = t :: (completeLines rest).map decode := by
  rw [completeLines_append, completeLines_line (newline_notMem_ascii ht h),
    List.singleton_append,
    List.map_cons, decode_ascii ht]

/-- Splitting the decoded text at its line feeds gives the decoded lines. -/
theorem splitOn_decode (a : Bytes) :
    splitOn ['\n'] (decode a) =
      (completeLines (a ++ [newline])).map decode := by
  by_cases h : newline ∈ a
  · obtain ⟨l, r, hlr, hl⟩ := List.eq_append_cons_of_mem h
    have hshorter : r.length < a.length := by
      rw [hlr, List.length_append, List.length_cons]
      omega
    have hdecode : decode a = decode l ++ '\n' :: decode r := by
      rw [hlr]
      exact decode_ascii_cut toNat_newline l r
    have hlines :
        completeLines (a ++ [newline]) =
        l :: completeLines (r ++ [newline]) := by
      rw [hlr, List.append_assoc, List.cons_append, completeLines_append,
        completeLines_line hl]
      rfl
    rw [hdecode, splitOn_char (newline_notMem_decode hl), splitOn_decode r,
      hlines, List.map_cons]
  · have hno : ¬ ['\n'] <:+: decode a := by
      intro hi
      exact newline_notMem_decode h (hi.subset List.mem_cons_self)
    rw [splitOn_eq_singleton hno, completeLines_line h]
    rfl
termination_by a.length

/-! ### What the cursor returns -/

/-- The end of whole lines: the start of the file or just after a newline. -/
def AtLineStart (read : Bytes) : Prop := read = [] ∨ ∃ a, read = a ++ [newline]

/-- A cut keeps what comes after at the start of a line. -/
theorem AtLineStart.drop {b : Bytes} (h : AtLineStart b) (i : Nat) :
    AtLineStart (b.drop i) := by
  rcases h with rfl | ⟨a, rfl⟩
  · exact Or.inl (List.drop_nil)
  · by_cases hi : i ≤ a.length
    · rw [List.drop_append_of_le_length hi]
      exact Or.inr ⟨_, rfl⟩
    · exact Or.inl (List.drop_eq_nil_of_le (by simp; omega))

/-- So does putting two pieces together. -/
theorem AtLineStart.append {a b : Bytes} (ha : AtLineStart a)
    (hb : AtLineStart b) : AtLineStart (a ++ b) := by
  rcases hb with rfl | ⟨c, rfl⟩
  · rw [List.append_nil]
    exact ha
  · exact Or.inr ⟨a ++ c, (List.append_assoc _ _ _).symm⟩

/-- What ends with a line is decoded on its own. -/
theorem decode_atLineStart {a : Bytes} (h : AtLineStart a) (b : Bytes) :
    decode (a ++ b) = decode a ++ decode b := by
  rcases h with rfl | ⟨c, rfl⟩
  · rfl
  · rw [List.append_assoc, List.singleton_append,
      decode_ascii_cut toNat_newline,
      decode_ascii_cut toNat_newline]
    simp [decode, decodeFrom]

/-- The lines that follow a line end are read by themselves. -/
theorem completeLines_atLineStart {read : Bytes} (h : AtLineStart read)
    (rest : Bytes) :
    completeLines (read ++ rest) = completeLines read ++
      completeLines rest := by
  rcases h with rfl | ⟨a, rfl⟩
  · rfl
  · rw [List.append_assoc, List.singleton_append, completeLines_append]

/-- The cursor has returned exactly the complete lines of `read`. -/
structure CursorAt (read : Bytes) (cursor : FileCursor) : Prop where
  offset_le : cursor.offset ≤ read.length
  lineStart : AtLineStart (read.take cursor.offset)
  rest : newline ∉ read.drop cursor.offset

/-- At first the cursor is at the start. -/
theorem CursorAt.start : CursorAt [] ⟨0⟩ :=
  ⟨le_rfl, Or.inl rfl, List.not_mem_nil⟩

/-- The lines before the cursor are all that were complete. -/
theorem CursorAt.lines_eq {read : Bytes} {cursor : FileCursor}
    (h : CursorAt read cursor) :
    completeLines (read.take cursor.offset) = completeLines read := by
  conv_rhs => rw [← List.take_append_drop cursor.offset read]
  rw [completeLines_atLineStart h.lineStart, completeLines_of_no_newline h.rest,
    List.append_nil]

/-- A read at the start of a line returns the complete lines from there on. -/
private theorem readNewLines_lineStart {content : Bytes} {cursor : FileCursor}
    (h : cursor.offset ≤ content.length)
    (hstart : AtLineStart (content.take cursor.offset)) :
    CursorAt content (cursor.readNewLines (some content)).2 ∧
      (cursor.readNewLines (some content)).1
        = (completeLines (content.drop cursor.offset)).map decode := by
  have hout : cursor.readNewLines (some content) =
      match rfindNewline (content.drop cursor.offset) with
      | none => ([], cursor)
      | some lastNl =>
          (splitOn ['\n'] (decode ((content.drop cursor.offset).take lastNl)),
          ⟨cursor.offset + (lastNl + 1)⟩) := by
    simp only [FileCursor.readNewLines, if_neg (Nat.not_lt.mpr h)]
  rw [hout]
  rcases rfindNewline_spec (content.drop cursor.offset)
    with ⟨hnone, hno⟩ | ⟨a, b, hab, hb, hsome⟩
  · rw [hnone, completeLines_of_no_newline hno]
    exact ⟨⟨h, hstart, hno⟩, rfl⟩
  · have hlen : content.length =
        cursor.offset + (a.length + (b.length + 1)) := by
      have := congrArg List.length hab
      rw [List.length_drop, List.length_append, List.length_cons] at this
      omega
    have hdrop : content.drop (cursor.offset + (a.length + 1)) = b := by
      rw [← List.drop_drop, hab, ← List.drop_drop, List.drop_left]
      rfl
    have htake : content.take (cursor.offset + (a.length + 1))
        = content.take cursor.offset ++ a ++ [newline] := by
      rw [List.take_add, hab, List.take_length_add_append, List.append_assoc]
      rfl
    rw [hsome, hab]
    refine ⟨⟨?_, ?_, ?_⟩, ?_⟩
    · show cursor.offset + (a.length + 1) ≤ content.length
      omega
    · show AtLineStart (content.take (cursor.offset + (a.length + 1)))
      rw [htake]
      exact Or.inr ⟨_, rfl⟩
    · show newline ∉ content.drop (cursor.offset + (a.length + 1))
      rw [hdrop]
      exact hb
    · show splitOn ['\n'] (decode ((a ++ newline :: b).take a.length)) = _
      rw [List.take_left, splitOn_decode, completeLines_append a b,
        completeLines_of_no_newline hb, List.append_nil]

/-- **One read of the cursor.**  When the file has grown, the cursor returns the
complete lines it has not returned before, and no others. -/
theorem CursorAt.readNewLines {read content : Bytes} {cursor : FileCursor}
    (h : CursorAt read cursor)
    (hgrow : read <+: content) :
    CursorAt content (cursor.readNewLines (some content)).2 ∧
      (completeLines content).map decode
        = (completeLines read).map decode ++
          (cursor.readNewLines (some content)).1 := by
  obtain ⟨more, rfl⟩ := hgrow
  have htake : (read ++ more).take cursor.offset = read.take cursor.offset :=
    List.take_append_of_le_length h.offset_le
  have hlen : cursor.offset ≤ (read ++ more).length := by
    have := h.offset_le
    rw [List.length_append]
    omega
  have hstart : AtLineStart ((read ++ more).take cursor.offset) := by
    rw [htake]
    exact h.lineStart
  obtain ⟨hat, hlines⟩ := readNewLines_lineStart hlen hstart
  refine ⟨hat, ?_⟩
  rw [hlines, ← h.lines_eq, ← htake, ← List.map_append, ← completeLines_atLineStart hstart,
    List.take_append_drop]

/-- A cursor whose offset is past the end starts over. -/
theorem readNewLines_restart {content : Bytes} {cursor : FileCursor}
    (h : cursor.offset = 0 ∨ content.length < cursor.offset) :
    CursorAt content (cursor.readNewLines (some content)).2 ∧
      (cursor.readNewLines (some content)).1 =
        (completeLines content).map decode := by
  have hzero : cursor.readNewLines (some content)
      = (⟨0⟩ : FileCursor).readNewLines (some content) := by
    rcases h with h | h
    · obtain ⟨offset⟩ := cursor
      rw [show offset = 0 from h]
    · simp only [FileCursor.readNewLines, if_pos h, Nat.not_lt_zero, if_false]
  rw [hzero]
  obtain ⟨hat, hlines⟩ :=
    CursorAt.start.readNewLines (List.nil_prefix (l := content))
  exact ⟨hat, hlines.symm⟩

/-- A file without a complete line has none to return. -/
theorem readNewLines_of_no_newline {content : Bytes} (hno : newline ∉ content)
    (cursor : FileCursor) : (cursor.readNewLines (some content)).1 = [] := by
  have hnone : ∀ k, rfindNewline (content.drop k) = none := by
    intro k
    rcases rfindNewline_spec (content.drop k) with ⟨h, -⟩ | ⟨a, b, hab, -⟩
    · exact h
    · have hmem : newline ∈ content.drop k := by
        rw [hab]
        simp
      exact absurd (List.mem_of_mem_drop hmem) hno
  simp only [FileCursor.readNewLines, hnone]

end Telemetryd
