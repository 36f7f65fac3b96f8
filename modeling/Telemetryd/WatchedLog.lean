import Mathlib.Data.List.DropRight
import Telemetryd.EventReader
import Telemetryd.TimeoutRoundTrip

/-!
# A log under any schedule of appends and polls

The collector appends bytes, in pieces that end anywhere, and a cursor and an
event reader on the file are polled in between.  What the cursor has returned
is always the complete lines of the file at the last poll.  The ring of the
reader holds the last events among these lines exactly as long as no poll
meets a line whose integers Python cannot convert.
-/

namespace Telemetryd

open PyText Utf8 PyError Regex

/-- What may happen to a log that is never truncated. -/
inductive LogStep where
  | append (bytes : Bytes)
  | poll (clock : Nat → ℚ)

/-- A log with a cursor and a reader on it.  `returned` is everything the
cursor has returned, `reply` what the reader's last poll returned or raised,
and `polled` the content at the last poll. -/
structure WatchedLog where
  file : Option Bytes
  cursor : FileCursor
  returned : List PyText
  reader : EventReader
  reply : Except PyError (List NvmeEvent)
  polled : Bytes

/-- A new cursor and a new reader, on a log that may not be there yet. -/
def WatchedLog.start (file : Option Bytes) (maxEvents : Nat) : WatchedLog :=
  ⟨file, ⟨0⟩, [], EventReader.init maxEvents, .ok [], []⟩

/-- What is in the file, nothing if it is not there. -/
def WatchedLog.content (s : WatchedLog) : Bytes := s.file.getD []

/-- One step of the log and its reader. -/
def WatchedLog.step (p : LineParser) (s : WatchedLog) : LogStep → WatchedLog
  | .append bytes => { s with file := some (s.content ++ bytes) }
  | .poll clock =>
      let out := s.cursor.readNewLines s.file
      let answer := s.reader.poll p clock s.file
      { s with
        cursor := out.2
        returned := s.returned ++ out.1
        reader := answer.2
        reply := answer.1
        polled := s.content }

/-- The lines of the file at the last poll. -/
def WatchedLog.lines (s : WatchedLog) : List PyText :=
  (completeLines s.polled).map decode

/-- The cursor has returned every complete line once, in order. -/
def CursorExact (s : WatchedLog) : Prop := s.returned = s.lines

/-- The ring is the last events accepted among the lines, their times of
observation apart, and the last poll returned it. -/
def RingExact (p : LineParser) (s : WatchedLog) : Prop :=
  s.reply = .ok s.reader.events ∧
    s.reader.events.map (NvmeEvent.stamp 0)
      = (s.lines.filterMap p.accepts).rtake s.reader.maxEvents

/-- What holds of the cursors after any steps. -/
structure WatchedLog.Followed (s : WatchedLog) : Prop where
  grown : s.polled <+: s.content
  cursorAt : CursorAt s.polled s.cursor
  returns : CursorExact s
  same : s.reader.cursor = s.cursor

section Step

variable {p : LineParser} {s : WatchedLog}

/-- **One poll of a cursor** that has followed the log. -/
theorem WatchedLog.Followed.read (h : s.Followed) :
    CursorAt s.content (s.cursor.readNewLines s.file).2 ∧
      (completeLines s.content).map decode =
        s.lines ++ (s.cursor.readNewLines s.file).1 := by
  unfold WatchedLog.content
  cases hf : s.file with
  | none =>
      have hempty : s.polled = [] := by
        have := h.grown
        rw [WatchedLog.content, hf] at this
        exact List.prefix_nil.mp this
      have hat := h.cursorAt
      unfold WatchedLog.lines
      rw [hempty] at hat ⊢
      exact ⟨hat, rfl⟩
  | some content =>
      have hgrown := h.grown
      rw [WatchedLog.content, hf] at hgrown
      exact h.cursorAt.readNewLines hgrown

/-- The cursor follows the log through a step. -/
theorem followed_step (h : s.Followed) (step : LogStep) :
    (s.step p step).Followed := by
  cases step with
  | append bytes =>
      exact ⟨h.grown.trans (List.prefix_append _ _), h.cursorAt,
        h.returns, h.same⟩
  | poll clock =>
      obtain ⟨hat, hlines⟩ := h.read
      refine ⟨List.prefix_rfl, hat, ?_, ?_⟩
      · show s.returned ++ (s.cursor.readNewLines s.file).1 =
          (completeLines s.content).map decode
        rw [hlines, show s.returned = s.lines from h.returns]
      · show (s.reader.poll p clock s.file).2.cursor =
          (s.cursor.readNewLines s.file).2
        rw [(poll_cursor clock).1, h.same]

/-- It does so from the start. -/
theorem followed_start (file : Option Bytes) (maxEvents : Nat) :
    (WatchedLog.start file maxEvents).Followed :=
  ⟨List.nil_prefix, CursorAt.start, rfl, rfl⟩

/-- At a poll, every line of the file is read without an exception. -/
def Reads (p : LineParser) (s : WatchedLog) : LogStep → Prop
  | .append _ => True
  | .poll _ => ∀ l ∈ completeLines s.content, Succeeds (p.parse 0 (decode l))

/-- The invariant under that condition. -/
structure WatchedLog.Sound (p : LineParser) (s : WatchedLog) : Prop where
  followed : s.Followed
  ring : RingExact p s
  read : ∀ line ∈ s.lines, Succeeds (p.parse 0 line)
  keeps : 1 ≤ s.reader.maxEvents

/-- Taking from the end is the slice from `-k` on, if `k` is not 0. -/
theorem rtake_eq_lastSlice {α : Type*} {k : Nat} (hk : 1 ≤ k) (l : List α) :
    l.rtake k = lastSlice k l := by
  rw [lastSlice, if_neg (by omega), List.rtake]

/-- A reader that has just started is sound. -/
theorem sound_start (p : LineParser) (file : Option Bytes) {maxEvents : Nat}
    (h : 1 ≤ maxEvents) :
    (WatchedLog.start file maxEvents).Sound p := by
  refine ⟨followed_start file maxEvents, ⟨rfl, ?_⟩, ?_, h⟩
  · exact (List.rtake_nil _).symm
  · intro line hline
    exact absurd hline List.not_mem_nil

/-- A step whose lines are read keeps it sound. -/
theorem sound_step (h : s.Sound p) {step : LogStep} (hreads : Reads p s step) :
    (s.step p step).Sound p := by
  cases step with
  | append bytes => exact ⟨followed_step h.followed _, h.ring, h.read, h.keeps⟩
  | poll clock =>
      obtain ⟨-, hlines⟩ := h.followed.read
      have hall : ∀ line ∈ (completeLines s.content).map decode,
          Succeeds (p.parse 0 line) := by
        intro line hline
        obtain ⟨l, hl, rfl⟩ := List.mem_map.mp hline
        exact hreads l hl
      have hnew : ∀ line ∈ (s.reader.cursor.readNewLines s.file).1,
          Succeeds (p.parse 0 line) := by
        intro line hline
        rw [h.followed.same] at hline
        refine hall line ?_
        rw [hlines]
        exact List.mem_append_right _ hline
      have hkeeps : (s.reader.poll p clock s.file).2.maxEvents =
        s.reader.maxEvents := (poll_cursor clock).2
      obtain ⟨hreply, hring⟩ := poll_of_reads clock hnew
      refine ⟨followed_step h.followed _, ⟨hreply, ?_⟩, hall, ?_⟩
      · show (s.reader.poll p clock s.file).2.events.map (NvmeEvent.stamp 0)
          = (((completeLines s.content).map decode).filterMap p.accepts).rtake
            (s.reader.poll p clock s.file).2.maxEvents
        rw [hring, hkeeps, hlines, h.ring.2, rtake_eq_lastSlice h.keeps,
          rtake_eq_lastSlice h.keeps,
          lastSlice_lastSlice_append, List.filterMap_append, h.followed.same]
      · show 1 ≤ (s.reader.poll p clock s.file).2.maxEvents
        rw [hkeeps]
        exact h.keeps

/-- Where the ring is exact the lines have been read. -/
theorem reads_of_ring (h : s.Sound p) {step : LogStep}
    (hring : RingExact p (s.step p step)) :
    Reads p s step := by
  cases step with
  | append bytes => trivial
  | poll clock =>
      intro l hl
      obtain ⟨-, hlines⟩ := h.followed.read
      have hline : decode l ∈ s.lines ++ (s.cursor.readNewLines s.file).1 := by
        rw [← hlines]
        exact List.mem_map_of_mem hl
      rcases List.mem_append.mp hline with hold | hnew
      · exact h.read _ hold
      · by_contra hbad
        rw [← h.followed.same] at hnew
        obtain ⟨e, he⟩ := poll_raises (p := p) clock ⟨_, hnew, hbad⟩
        have hreply : (s.reader.poll p clock s.file).1 = .ok _ := hring.1
        rw [he] at hreply
        exact absurd hreply (by simp)

end Step

/-! ### The two readers -/

/-- The two readers. -/
inductive ReaderKind where
  | timeout
  | error

section

variable [UnicodeDb]

/-- The `_parse_line` of a reader. -/
def ReaderKind.parser : ReaderKind → LineParser
  | .timeout => ⟨TimeoutEvents.parseLine, fun now line => by
      unfold TimeoutEvents.parseLine
      rcases TimeoutEvents.parseDetail line with e | found
      · rfl
      · cases found <;> rfl⟩
  | .error => ⟨ErrorEvents.parseLine, fun now line => by
      unfold ErrorEvents.parseLine
      rcases ErrorEvents.parseDetail line with e | found
      · rfl
      · cases found <;> rfl⟩

/-- The line is in another format, or each integer that is read from it has at
most 4300 digits and the elapsed time is within the range of a float. -/
def ReaderKind.Readable : ReaderKind → PyText → Prop
  | .timeout => TimeoutEvents.Readable
  | .error => ErrorEvents.Readable

/-- A line can be parsed exactly if it is readable. -/
theorem succeeds_parse_iff (kind : ReaderKind) (line : PyText) :
    Succeeds (kind.parser.parse 0 line) ↔ kind.Readable line := by
  cases kind with
  | timeout =>
      rw [ReaderKind.Readable, ← TimeoutEvents.succeeds_parseDetail]
      exact succeeds_map _ _
  | error =>
      rw [ReaderKind.Readable, ← ErrorEvents.succeeds_parseDetail]
      exact succeeds_map _ _

/-- At a poll, every complete line of the file has integers Python can
convert. -/
def AllReadable (kind : ReaderKind) (s : WatchedLog) : LogStep → Prop
  | .append _ => True
  | .poll _ => ∀ l ∈ completeLines s.content, kind.Readable (decode l)

/-- A poll succeeds exactly if all of its lines are readable. -/
theorem reads_iff_allReadable (kind : ReaderKind) (s : WatchedLog)
    (step : LogStep) :
    Reads kind.parser s step ↔ AllReadable kind s step := by
  cases step with
  | append bytes => exact Iff.rfl
  | poll clock =>
      exact forall₂_congr (fun l _ => succeeds_parse_iff kind (decode l))

/-- **The cursor and the ring under any schedule.**  The cursor returns every
complete line once, whatever the schedule.  The ring is the last events among
these lines throughout a run exactly if at each poll every complete line of
the file has integers Python can convert. -/
theorem ring_exact_iff (kind : ReaderKind) (file : Option Bytes)
    (maxEvents : Nat)
    (h : 1 ≤ maxEvents) (steps : List LogStep) :
    Runs.Always (WatchedLog.step kind.parser) CursorExact
      (.start file maxEvents) steps ∧
      (Runs.Always (WatchedLog.step kind.parser) (RingExact kind.parser)
          (.start file maxEvents)
          steps ↔
        Runs.Each (WatchedLog.step kind.parser) (AllReadable kind)
          (.start file maxEvents)
          steps) := by
  constructor
  · exact Runs.always_of_step (I := WatchedLog.Followed) (fun _ hs =>
      hs.returns)
      (fun s step hs =>
        followed_step hs step) steps (followed_start file maxEvents)
  · refine Runs.always_iff_each (I := WatchedLog.Sound kind.parser) (fun _ hs =>
      hs.ring) ?_ ?_
      (sound_start kind.parser file h)
    · intro s step hs hC
      exact sound_step hs ((reads_iff_allReadable kind s step).mpr hC)
    · intro s step hs hring
      exact (reads_iff_allReadable kind s step).mp (reads_of_ring hs hring)

/-- The line of a timeout is readable exactly if the timeout is. -/
theorem readable_line (c : TimedOut) :
    ReaderKind.timeout.Readable c.line ↔ c.Readable := by
  rw [← succeeds_parse_iff]
  constructor
  · intro ⟨found, hfound⟩
    exact ((TimedOut.parseLine_line_eq_ok 0 c).mp hfound).1
  · intro hread
    exact ⟨_, (TimedOut.parseLine_line_eq_ok 0 c).mpr ⟨hread, rfl⟩⟩

end

/-! ### A log of two timeouts -/

/-- The lines of a log of timeouts. -/
theorem completeLines_timeout (c : TimedOut) (rest : Bytes) :
    (completeLines (ascii c.line ++ newline :: rest)).map decode
      = c.line :: (completeLines rest).map decode :=
  completeLines_ascii (fun x hx => (c.ascii_line x hx).1) (fun h =>
    (c.ascii_line _ h).2 rfl) rest

/-- The sample is readable. -/
theorem broadcastFlush_readable : broadcastFlush.Readable :=
  ⟨lt_maxStrDigits_of_lt (by decide), lt_maxStrDigits_of_lt (by decide),
    lt_maxStrDigits_of_lt (by decide), lt_floatLimit_of_lt (by decide)⟩

section

attribute [local instance] UnicodeDb.ascii

/-- A log with one timeout, polled once. -/
theorem ring_exact_flush :
    Runs.Always (WatchedLog.step (ReaderKind.parser .timeout))
      (RingExact (ReaderKind.parser .timeout)) (.start none 200)
      [.append (ascii broadcastFlush.line ++ [newline]),
        .poll (fun _ => 0)] := by
  refine (ring_exact_iff .timeout none 200 (by decide) _).2.mpr
    ⟨trivial, ?_, trivial⟩
  intro l hl
  have hline : decode l ∈ [broadcastFlush.line] := by
    rw [← show _ =
      [broadcastFlush.line] from completeLines_timeout broadcastFlush []]
    exact List.mem_map_of_mem hl
  rw [List.mem_singleton.mp hline]
  exact (readable_line broadcastFlush).mpr broadcastFlush_readable

/-- A timeout with an elapsed time beyond the floats. -/
@[irreducible] def endless : TimedOut :=
  { broadcastFlush with elapsedNs := 2 ^ 1024 }

/-- A log of this timeout and a plain one. -/
def endlessLog : Bytes :=
  ascii endless.line ++ newline :: (ascii broadcastFlush.line ++ [newline])

/-- The other sample has two lines. -/
theorem completeLines_endlessLog :
    (completeLines endlessLog).map decode =
      [endless.line, broadcastFlush.line] := by
  rw [endlessLog, completeLines_timeout, completeLines_timeout]
  rfl

/-- The first cannot be parsed. -/
theorem not_succeeds_endless :
    ¬ Succeeds ((ReaderKind.parser .timeout).parse 0 endless.line) := by
  rw [succeeds_parse_iff, readable_line]
  intro hread
  have hlt := hread.elapsedNs
  rw [endless] at hlt
  exact absurd (hlt.trans_le floatLimit_le) (lt_irrefl _)

/-- The plain one is accepted among the lines, but it is not in the ring after
the poll. -/
theorem event_after_endless_lost :
    let p := ReaderKind.parser .timeout
    let s := (WatchedLog.start (some endlessLog) 200).step p
      (.poll (fun _ => 0))
    s.reader.events = [] ∧ s.lines = [endless.line, broadcastFlush.line] ∧
      (p.accepts broadcastFlush.line).isSome = true ∧
      ¬ Runs.Always (WatchedLog.step p) (RingExact p)
        (.start (some endlessLog) 200)
        [.poll (fun _ => 0)] := by
  intro p s
  have hread : ((⟨0⟩ : FileCursor).readNewLines (some endlessLog)).1
      = [endless.line, broadcastFlush.line] := by
    rw [(readNewLines_restart (Or.inl rfl)).2, completeLines_endlessLog]
  obtain ⟨e, he⟩ :=
    poll_first_raises (r := EventReader.init 200) (fun _ => 0) hread
    not_succeeds_endless
  have hreader : s.reader.events = [] := by
    show ((EventReader.init 200).poll p (fun _ => 0)
      (some endlessLog)).2.events = _
    rw [he]
    rfl
  have hreply : s.reply = .error e := by
    show ((EventReader.init 200).poll p (fun _ => 0) (some endlessLog)).1 = _
    rw [he]
  refine ⟨hreader, completeLines_endlessLog, ?_, ?_⟩
  · have hflush := (TimedOut.parseLine_line_eq_ok 0 broadcastFlush).mpr
      ⟨broadcastFlush_readable, rfl⟩
    have hparse : p.parse 0 broadcastFlush.line = .ok (some _) := hflush
    rw [LineParser.accepts, hparse]
    rfl
  · intro hall
    have hring : s.reply = .ok _ := hall.last.1
    rw [hreply] at hring
    exact absurd hring (by simp)

end

end Telemetryd
