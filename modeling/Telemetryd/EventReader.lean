import Telemetryd.ErrorEvents
import Telemetryd.LogFile
import Telemetryd.TimeoutEvents

/-!
# The event readers

`TimeoutEventReader` and `ErrorEventReader` follow the collector's log with a
cursor of their own and keep the last events in a ring.  They differ in
nothing but `_parse_line`, so a reader is given by its line parser.

The cursor alone is exact for every schedule of appends and polls.  The ring is
exact as long as no line makes `_parse_line` raise: the cursor has moved past
the whole batch by then, so the lines after the one that raised are never
looked at again.
-/

namespace Telemetryd

open PyText Utf8 PyError

/-- The event with another time of observation. -/
def NvmeEvent.stamp (now : ℚ) (e : NvmeEvent) : NvmeEvent :=
  { e with observedAt := now }

/-- A `_parse_line`: the clock is read for the time of observation only. -/
structure LineParser where
  parse : ℚ → PyText → Except PyError (Option NvmeEvent)
  timed : ∀ now line, parse now line = Option.map (NvmeEvent.stamp now) <$>
    parse 0 line

/-- The event a line is accepted as, its time of observation apart. -/
def LineParser.accepts (p : LineParser) (line : PyText) : Option NvmeEvent :=
  match p.parse 0 line with
  | .ok found => found.map (NvmeEvent.stamp 0)
  | .error _ => none

/-! ### The reader -/

/-- A reader: its cursor, how many events it keeps, and those. -/
structure EventReader where
  cursor : FileCursor
  maxEvents : Nat
  events : List NvmeEvent

/-- A reader that has read nothing. -/
def EventReader.init (maxEvents : Nat) : EventReader := ⟨⟨0⟩, maxEvents, []⟩

/-- The loop of `poll`: the events with those of the lines appended, and the
exception that ended the loop, if one did.  The clock is read once a line. -/
def appendEvents (p : LineParser) (clock : Nat → ℚ) :
    List NvmeEvent → List PyText → List NvmeEvent × Option PyError
  | events, [] => (events, none)
  | events, line :: lines => match p.parse (clock lines.length) line with
      | .error e => (events, some e)
      | .ok none => appendEvents p clock events lines
      | .ok (some ev) => appendEvents p clock (events ++ [ev]) lines

/-- The end of `poll`: the ring is cut to its size, unless the loop raised. -/
def EventReader.settle (r : EventReader) (cursor : FileCursor) :
    List NvmeEvent × Option PyError →
      Except PyError (List NvmeEvent) × EventReader
  | (events, some e) =>
      (.error e, { r with cursor := cursor, events := events })
  | (events, none) =>
      let kept := if events.length > r.maxEvents
        then lastSlice r.maxEvents events else events
      (.ok kept, { r with cursor := cursor, events := kept })

/-- `poll`: what it returns or raises, and the reader after it. -/
def EventReader.poll (p : LineParser) (clock : Nat → ℚ) (file : Option Bytes)
    (r : EventReader) :
    Except PyError (List NvmeEvent) × EventReader :=
  let out := r.cursor.readNewLines file
  r.settle out.2 (appendEvents p clock r.events out.1)

section Loop

variable (p : LineParser) (clock : Nat → ℚ)

theorem appendEvents_of_reads {lines : List PyText} (events : List NvmeEvent)
    (h : ∀ line ∈ lines, Succeeds (p.parse 0 line)) :
    (appendEvents p clock events lines).2 = none ∧
      (appendEvents p clock events lines).1.map (NvmeEvent.stamp 0)
        = events.map (NvmeEvent.stamp 0) ++ lines.filterMap p.accepts := by
  induction lines generalizing events with
  | nil => exact ⟨rfl, by simp [appendEvents]⟩
  | cons line lines ih =>
      obtain ⟨found, hfound⟩ := h line List.mem_cons_self
      have hrest : ∀ l ∈ lines, Succeeds (p.parse 0 l) :=
        fun l hl => h l (List.mem_cons_of_mem _ hl)
      have hparse : p.parse (clock lines.length) line
          = .ok (found.map (NvmeEvent.stamp (clock lines.length))) := by
        rw [p.timed, hfound]
        rfl
      have haccepts : p.accepts line = found.map (NvmeEvent.stamp 0) := by
        rw [LineParser.accepts, hfound]
      cases found with
      | none =>
          obtain ⟨hnone, hevents⟩ := ih events hrest
          rw [appendEvents, hparse, List.filterMap_cons_none haccepts]
          exact ⟨hnone, hevents⟩
      | some ev =>
          obtain ⟨hnone, hevents⟩ :=
            ih (events ++ [ev.stamp (clock lines.length)]) hrest
          rw [appendEvents, hparse, List.filterMap_cons_some haccepts]
          refine ⟨hnone, hevents.trans ?_⟩
          rw [List.map_append, List.append_assoc]
          rfl

/-- A line that raises ends the loop. -/
theorem appendEvents_cons_raises {line : PyText} (events : List NvmeEvent)
    (lines : List PyText)
    (h : ¬ Succeeds (p.parse 0 line)) :
    ∃ e, appendEvents p clock events (line :: lines) = (events, some e) := by
  rw [appendEvents]
  cases hparse : p.parse (clock lines.length) line with
  | error e => exact ⟨e, rfl⟩
  | ok found =>
      rw [p.timed] at hparse
      exact absurd ((succeeds_map _ _).mp ⟨_, hparse⟩) h

theorem appendEvents_raises {lines : List PyText} (events : List NvmeEvent)
    (h : ∃ line ∈ lines, ¬ Succeeds (p.parse 0 line)) :
    ∃ e, (appendEvents p clock events lines).2 = some e := by
  induction lines generalizing events with
  | nil =>
      obtain ⟨line, hmem, -⟩ := h
      exact absurd hmem List.not_mem_nil
  | cons line lines ih =>
      by_cases hline : Succeeds (p.parse 0 line)
      · have hrest : ∃ l ∈ lines, ¬ Succeeds (p.parse 0 l) := by
          obtain ⟨bad, hmem, hbad⟩ := h
          rcases List.mem_cons.mp hmem with rfl | hmem
          · exact absurd hline hbad
          · exact ⟨bad, hmem, hbad⟩
        rw [appendEvents]
        split
        case h_1 e _ => exact ⟨e, rfl⟩
        case h_2 => exact ih events hrest
        case h_3 ev _ => exact ih (events ++ [ev]) hrest
      · obtain ⟨e, he⟩ := appendEvents_cons_raises p clock events lines hline
        exact ⟨e, by rw [he]⟩

end Loop

/-- Cutting a list that is not too long does nothing. -/
theorem ite_lastSlice {α : Type*} (k : Nat) (l : List α) :
    (if l.length > k then lastSlice k l else l) = lastSlice k l := by
  split
  · rfl
  · rw [lastSlice_of_length_le (by omega)]

section Poll

variable {p : LineParser} (clock : Nat → ℚ) {file : Option Bytes}
    {r : EventReader}

theorem settle_cursor (r : EventReader) (cursor : FileCursor)
    (out : List NvmeEvent × Option PyError) :
    (r.settle cursor out).2.cursor = cursor ∧
      (r.settle cursor out).2.maxEvents = r.maxEvents := by
  rcases out with ⟨events, _ | e⟩
  · exact ⟨rfl, rfl⟩
  · exact ⟨rfl, rfl⟩

/-- A poll moves the cursor, whether it raises or not. -/
theorem poll_cursor :
    (r.poll p clock file).2.cursor = (r.cursor.readNewLines file).2 ∧
      (r.poll p clock file).2.maxEvents = r.maxEvents :=
  settle_cursor r _ _

/-- **A poll whose lines are read** returns the ring, and the ring has moved by
the accepted events. -/
theorem poll_of_reads
    (h : ∀ line ∈ (r.cursor.readNewLines file).1, Succeeds (p.parse 0 line)) :
    (r.poll p clock file).1 = .ok (r.poll p clock file).2.events ∧
      (r.poll p clock file).2.events.map (NvmeEvent.stamp 0)
        = lastSlice r.maxEvents (r.events.map (NvmeEvent.stamp 0) ++
          (r.cursor.readNewLines file).1.filterMap p.accepts) := by
  obtain ⟨hnone, hevents⟩ := appendEvents_of_reads p clock r.events h
  have hpair : appendEvents p clock r.events (r.cursor.readNewLines file).1
      = ((appendEvents p clock r.events (r.cursor.readNewLines file).1).1,
        none) := by
    rw [← hnone]
  unfold EventReader.poll
  dsimp only
  rw [hpair]
  refine ⟨rfl, ?_⟩
  simp only [EventReader.settle, ite_lastSlice]
  rw [map_lastSlice, hevents]

/-- A poll with a line that raises, raises. -/
theorem poll_raises
    (h : ∃ line ∈ (r.cursor.readNewLines file).1, ¬ Succeeds (p.parse 0 line)) :
    ∃ e, (r.poll p clock file).1 = .error e := by
  obtain ⟨e, he⟩ := appendEvents_raises p clock r.events h
  have hpair : appendEvents p clock r.events (r.cursor.readNewLines file).1
      = ((appendEvents p clock r.events (r.cursor.readNewLines file).1).1,
        some e) := by
    rw [← he]
  refine ⟨e, ?_⟩
  unfold EventReader.poll
  dsimp only
  rw [hpair]
  rfl

/-- A poll whose first line raises leaves the ring as it was, and moves the
cursor past the lines it has not looked at. -/
theorem poll_first_raises {line : PyText} {lines : List PyText}
    (hread : (r.cursor.readNewLines file).1 = line :: lines)
    (h : ¬ Succeeds (p.parse 0 line)) :
    ∃ e, r.poll p clock file
      = (.error e, { r with cursor := (r.cursor.readNewLines file).2 }) := by
  obtain ⟨e, he⟩ := appendEvents_cons_raises p clock r.events lines h
  refine ⟨e, ?_⟩
  unfold EventReader.poll
  dsimp only
  rw [hread, he]
  rfl

end Poll

end Telemetryd
