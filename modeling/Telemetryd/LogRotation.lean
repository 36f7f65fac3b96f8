import Telemetryd.LogFile

/-!
# A cursor on a log that is restarted

The collector may be restarted, or the log rotated: the file is cut to nothing
and written again.  The cursor is not told.  It compares the size of the file
with the offset it kept, and starts over only if the file is shorter.  Until
then its offset is *stale*, a position in a content that is gone.

The main theorem says when nothing is lost: at every poll the offset is not
stale, or zero, or larger than the file, or there is no complete line to lose.
-/

namespace Telemetryd

open PyText Utf8

/-- What may happen to a log and its cursor. -/
inductive RotationStep where
  | append (bytes : Bytes)
  | truncate
  | poll

/-- A log and a cursor on it.  The last three fields record history: the lines
returned since the last truncation, the content at the last poll after it, and
whether the offset is from before it. -/
structure RotatedLog where
  file : Bytes
  cursor : FileCursor
  since : List PyText
  polled : Bytes
  stale : Bool

/-- A new cursor on a log with some content. -/
def RotatedLog.start (content : Bytes) : RotatedLog :=
  ⟨content, ⟨0⟩, [], [], false⟩

/-- The offset is that of the start of the file, or the cursor will make it
so. -/
def RotatedLog.Restarts (s : RotatedLog) : Prop :=
  s.cursor.offset = 0 ∨ s.file.length < s.cursor.offset

instance (s : RotatedLog) : Decidable s.Restarts :=
  inferInstanceAs (Decidable (_ ∨ _))

/-- One step of a log that is rotated. -/
def RotatedLog.step (s : RotatedLog) : RotationStep → RotatedLog
  | .append bytes => { s with file := s.file ++ bytes }
  | .truncate => { s with file := [], since := [], polled := [], stale := true }
  | .poll =>
      let out := s.cursor.readNewLines (some s.file)
      { s with
        cursor := out.2
        since := s.since ++ out.1
        polled := s.file
        stale := s.stale && !decide s.Restarts }

/-- Nothing is lost and nothing is torn: the lines returned since the last
truncation are the complete lines the file had at the last poll. -/
def LinesKept (s : RotatedLog) : Prop :=
  s.since = (completeLines s.polled).map decode

/-- A poll does not apply a stale offset to a file with complete lines. -/
def Noticed (s : RotatedLog) : RotationStep → Prop
  | .poll => s.stale = false ∨ s.Restarts ∨ newline ∉ s.file
  | _ => True

/-- The invariant: the lines returned are those of the content at the last
poll, and the offset ends them, unless it is stale and there were none. -/
structure RotatedLog.Sound (s : RotatedLog) : Prop where
  kept : s.polled <+: s.file
  linesKept : LinesKept s
  cursorAt : s.stale = false → CursorAt s.polled s.cursor
  none_yet : s.stale = true → newline ∉ s.polled

section Step

variable {s : RotatedLog}

theorem sound_append (h : s.Sound) (bytes : Bytes) :
    (s.step (.append bytes)).Sound :=
  ⟨h.kept.trans (List.prefix_append _ _), h.linesKept, h.cursorAt, h.none_yet⟩

theorem sound_truncate (s : RotatedLog) : (s.step .truncate).Sound :=
  ⟨List.prefix_rfl, rfl, fun h => absurd h (by simp [RotatedLog.step]), fun _ =>
    List.not_mem_nil⟩

theorem sound_poll (h : s.Sound) (hn : Noticed s .poll) :
    (s.step .poll).Sound := by
  have hlines := h.linesKept
  unfold LinesKept at hlines
  by_cases hst : s.stale = true
  · have hnone : s.since = [] := by
      rw [hlines, completeLines_of_no_newline (h.none_yet hst)]
      rfl
    by_cases hr : s.Restarts
    · obtain ⟨hat, hall⟩ := readNewLines_restart hr
      have hfresh : (s.step .poll).stale = false := by
        simp [RotatedLog.step, hr]
      refine ⟨List.prefix_rfl, ?_, fun _ => hat, fun hs =>
        absurd hs (by rw [hfresh]; decide)⟩
      show s.since ++ (s.cursor.readNewLines (some s.file)).1 =
        (completeLines s.file).map decode
      rw [hnone, hall]
      rfl
    · have hno : newline ∉ s.file := by
        rcases hn with hn | hn | hn
        · rw [hst] at hn
          exact absurd hn (by decide)
        · exact absurd hn hr
        · exact hn
      have hstale : (s.step .poll).stale = true := by
        simp [RotatedLog.step, hr, hst]
      refine ⟨List.prefix_rfl, ?_, fun hs => absurd hs (by rw [hstale]; decide),
        fun _ => hno⟩
      show s.since ++ (s.cursor.readNewLines (some s.file)).1 =
        (completeLines s.file).map decode
      rw [hnone, readNewLines_of_no_newline hno,
        completeLines_of_no_newline hno]
      rfl
  · have hst' : s.stale = false := by simpa using hst
    have hfresh : (s.step .poll).stale = false := by
      simp [RotatedLog.step, hst']
    obtain ⟨hat, hall⟩ := (h.cursorAt hst').readNewLines h.kept
    refine ⟨List.prefix_rfl, ?_, fun _ => hat, fun hs =>
      absurd hs (by rw [hfresh]; decide)⟩
    show s.since ++ (s.cursor.readNewLines (some s.file)).1 =
      (completeLines s.file).map decode
    rw [hall, hlines]

end Step

/-- **When no line is lost over a restart of the log.**  In every run in which
no poll applies a stale offset to a file with complete lines, the lines
returned since the last truncation are, at every point, exactly the complete
lines the file had at the last poll. -/
theorem lines_kept_of_noticed (content : Bytes) (steps : List RotationStep)
    (h : Runs.Each RotatedLog.step Noticed (RotatedLog.start content) steps) :
    Runs.Always RotatedLog.step LinesKept (RotatedLog.start content) steps := by
  have hstart : (RotatedLog.start content).Sound :=
    ⟨List.nil_prefix, rfl, fun _ => CursorAt.start, fun _ => List.not_mem_nil⟩
  refine Runs.always_of_each (I := RotatedLog.Sound) (fun _ h => h.linesKept)
    ?_ hstart h
  intro s step hs hn
  cases step with
  | append bytes => exact sound_append hs bytes
  | truncate => exact sound_truncate s
  | poll => exact sound_poll hs hn

/-- A restarted log that is still short when it is polled. -/
theorem lines_kept_shorter :
    Runs.Always RotatedLog.step LinesKept
      (RotatedLog.start (ascii "a\nb\nc\n".toList))
      [.poll, .truncate, .append (ascii "x\n".toList), .poll] :=
  lines_kept_of_noticed _ _ ⟨Or.inl rfl, trivial, trivial,
    Or.inr (Or.inl (by decide)), trivial⟩

/-- A log of three lines, read, then restarted with three other lines before
the next poll. -/
def rewritten : List RotationStep :=
  [.poll, .truncate, .append (ascii "x\ny\nz\n".toList), .poll]

/-- The cursor returns none of the new lines. -/
theorem rewritten_lines_lost :
    let s := rewritten.foldl RotatedLog.step
      (RotatedLog.start (ascii "a\nb\nc\n".toList))
    s.since = [] ∧ (completeLines s.polled).map decode = [['x'], ['y'], ['z']] ∧
      ¬ Runs.Always RotatedLog.step LinesKept
        (RotatedLog.start (ascii "a\nb\nc\n".toList))
        rewritten := by
  have hsince : (rewritten.foldl RotatedLog.step
      (RotatedLog.start (ascii "a\nb\nc\n".toList))).since =
        [] := by decide +kernel
  have hlines : (completeLines (rewritten.foldl RotatedLog.step
      (RotatedLog.start (ascii "a\nb\nc\n".toList))).polled).map decode =
        [['x'], ['y'], ['z']] := by
    decide +kernel
  refine ⟨hsince, hlines, fun h => ?_⟩
  have hkept := h.last
  unfold LinesKept at hkept
  rw [hsince, hlines] at hkept
  exact absurd hkept (by decide)

end Telemetryd
