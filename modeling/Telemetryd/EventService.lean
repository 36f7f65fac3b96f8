import Mathlib.Data.List.Sort
import Telemetryd.WatchedLog

/-!
# The event service

`services/events/service.py`: one reader for the timeouts and one for the
errors, each with its own cursor on the same log.  A call polls the two one
after the other and sorts what they keep of the device by the time at which the
lines were read.

The collector may append to the log at any time, also between the two polls of
one call.  The clock is read once a line; `time` is what it shows at each
reading, so its `n`-th value belongs to the `n`-th line that is read.
-/

namespace Telemetryd

open PyText Utf8 PyError Regex

/-- `max_events` -/
def maxEvents : Nat := 200

/-- `events_for_device` -/
def EventReader.eventsForDevice (p : LineParser) (clock : Nat → ℚ)
    (file : Option Bytes)
    (device : PyText) (r : EventReader) :
    Except PyError (List NvmeEvent) × EventReader :=
  let out := r.poll p clock file
  ((fun _ => out.2.events.filter (fun e => decide (e.device = device))) <$>
    out.1, out.2)

/-- The lines a poll reads. -/
def EventReader.fresh (file : Option Bytes) (r : EventReader) : List PyText :=
  (r.cursor.readNewLines file).1

/-- The readings of a poll of `total` lines, after `done` others. -/
def readings (time : Nat → ℚ) (done total : Nat) : Nat → ℚ :=
  fun left => time (done + (total - left))

/-- `EbpfEventService`: the readers are made at the first call. -/
structure EventService where
  readers : Option (EventReader × EventReader) := none

/-- `_sources` -/
def EventService.sources (s : EventService) : EventReader × EventReader :=
  s.readers.getD (EventReader.init maxEvents, EventReader.init maxEvents)

/-- `events.sort(key=lambda e: e.observed_at)` -/
def sortEvents (events : List NvmeEvent) : List NvmeEvent :=
  events.insertionSort (fun a b => a.observedAt ≤ b.observedAt)

section

variable [UnicodeDb]

/-- `get_events`: what it returns or raises, the service and the number of
readings of the clock after it.  The second reader finds the file as it is by
then. -/
def EventService.getEvents (time : Nat → ℚ) (reads : Nat)
    (file later : Option Bytes)
    (device : PyText) (s : EventService) :
    Except PyError (List NvmeEvent) × EventService × Nat :=
  if file = none then (.ok [], s, reads)
  else
    let timeouts := s.sources.1
    let errors := s.sources.2
    let new := (timeouts.fresh file).length
    let out := timeouts.eventsForDevice (ReaderKind.parser .timeout)
      (readings time reads new) file device
    match out.1 with
    | .error e => (.error e, ⟨some (out.2, errors)⟩, reads + new)
    | .ok found =>
        let new' := (errors.fresh later).length
        let out' := errors.eventsForDevice (ReaderKind.parser .error)
          (readings time (reads + new) new') later device
        ((fun found' => sortEvents (found ++ found')) <$> out'.1,
          ⟨some (out.2, out'.2)⟩,
          reads + new + new')

/-- What may happen to a log that is served.  While `get_events` is between its
polls, the collector may append. -/
inductive ServiceStep where
  | append (bytes : Bytes)
  | getEvents (device : PyText) (between : Bytes)

/-- A log and the service on it.  `answer` is the last call and what it returned
or raised, and `asked` the content when it was made. -/
structure ServedLog where
  file : Option Bytes
  service : EventService := {}
  reads : Nat := 0
  answer : Option (PyText × Except PyError (List NvmeEvent)) := none
  asked : Bytes := []

/-- What is in the file, nothing if it is not there. -/
def ServedLog.content (s : ServedLog) : Bytes := s.file.getD []

/-- One step of the log and its service. -/
def ServedLog.step (time : Nat → ℚ) (s : ServedLog) : ServiceStep → ServedLog
  | .append bytes => { s with file := some (s.content ++ bytes) }
  | .getEvents device between =>
      let later := s.file.map (· ++ between)
      let out := s.service.getEvents time s.reads s.file later device
      { file := later
        service := out.2.1
        reads := out.2.2
        answer := some (device, out.1)
        asked := s.content }

end

/-- The complete lines of a log, as they are read. -/
def logLines (content : Bytes) : List PyText :=
  (completeLines content).map decode

theorem cutLines_mono (line a b : Bytes) :
    cutLines line a <+: cutLines line (a ++ b) := by
  induction a generalizing line with
  | nil => exact List.nil_prefix
  | cons x a ih =>
      simp only [List.cons_append, cutLines]
      split
      · exact List.cons_prefix_cons.mpr ⟨rfl, ih _⟩
      · exact ih _

/-- A log that grows keeps its lines. -/
theorem logLines_mono {a b : Bytes} (h : a <+: b) :
    logLines a <+: logLines b := by
  obtain ⟨c, rfl⟩ := h
  exact (cutLines_mono [] a c).map decode

/-! ### What a poll takes -/

/-- The events a poll takes from its lines, each with the number of its line.
It stops at a line that raises. -/
def taken (p : LineParser) (clock : Nat → ℚ) :
    Nat → List PyText → List (Nat × NvmeEvent)
  | _, [] => []
  | n, line :: lines => match p.parse (clock lines.length) line with
      | .error _ => []
      | .ok none => taken p clock (n + 1) lines
      | .ok (some ev) => (n, ev) :: taken p clock (n + 1) lines

section Taken

variable (p : LineParser) (clock : Nat → ℚ)

theorem appendEvents_fst (events : List NvmeEvent) (n : Nat)
    (lines : List PyText) :
    (appendEvents p clock events lines).1 =
      events ++ (taken p clock n lines).map Prod.snd := by
  induction lines generalizing events n with
  | nil => simp [appendEvents, taken]
  | cons line lines ih =>
      rw [appendEvents, taken]
      cases p.parse (clock lines.length) line with
      | error e => simp
      | ok found =>
          cases found with
          | none => exact ih events (n + 1)
          | some ev => simpa using ih (events ++ [ev]) (n + 1)

theorem mem_taken {n : Nat} {lines : List PyText} {a : Nat × NvmeEvent}
    (h : a ∈ taken p clock n lines) :
    ∃ i line, lines[i]? = some line ∧ a.1 = n + i ∧
      p.parse (clock (lines.length - (i + 1))) line = .ok (some a.2) := by
  induction lines generalizing n with
  | nil => exact absurd h List.not_mem_nil
  | cons line lines ih =>
      have hrest : a ∈ taken p clock (n + 1) lines →
          ∃ i l, (line :: lines)[i]? = some l ∧
          a.1 = n + i ∧ p.parse (clock ((line :: lines).length - (i + 1))) l =
            .ok (some a.2) := by
        intro hmem
        obtain ⟨i, l, hl, ha, hparse⟩ := ih hmem
        refine ⟨i + 1, l, hl, by omega, ?_⟩
        rw [List.length_cons, Nat.add_sub_add_right]
        exact hparse
      rw [taken] at h
      cases hparse : p.parse (clock lines.length) line with
      | error e =>
          rw [hparse] at h
          exact absurd h List.not_mem_nil
      | ok found =>
          rw [hparse] at h
          cases found with
          | none => exact hrest h
          | some ev =>
              rcases List.mem_cons.mp h with rfl | h
              · exact ⟨0, line, rfl, rfl, hparse⟩
              · exact hrest h

theorem pairwise_taken (n : Nat) (lines : List PyText) :
    (taken p clock n lines).Pairwise (fun a b => a.1 < b.1) := by
  induction lines generalizing n with
  | nil => exact List.Pairwise.nil
  | cons line lines ih =>
      rw [taken]
      cases p.parse (clock lines.length) line with
      | error e => exact List.Pairwise.nil
      | ok found =>
          cases found with
          | none => exact ih (n + 1)
          | some ev =>
              refine List.Pairwise.cons (fun a ha => ?_) (ih (n + 1))
              obtain ⟨i, _, _, hpos, _⟩ := mem_taken p clock ha
              rw [hpos]
              omega

end Taken

/-- What is read when the clock shows `now` is stamped with it, and the line is
accepted as the event. -/
theorem LineParser.accepts_of_parse {p : LineParser} {now : ℚ} {line : PyText}
    {ev : NvmeEvent}
    (h : p.parse now line = .ok (some ev)) :
    p.accepts line = some (ev.stamp 0) ∧ ev.observedAt = now := by
  rw [p.timed] at h
  unfold LineParser.accepts
  cases hparse : p.parse 0 line with
  | error e =>
      rw [hparse] at h
      exact absurd h (by simp)
  | ok found =>
      rw [hparse] at h
      have hfound : found.map (NvmeEvent.stamp now) = some ev := Except.ok.inj h
      obtain ⟨ev', rfl, rfl⟩ := Option.map_eq_some_iff.mp hfound
      exact ⟨rfl, rfl⟩

/-! ### A reader that follows a log -/

/-- A reader has read the complete lines of `polled`, when the clock has been
read `reads` times.  The ring is some of their events, each with the number of
its line in the log. -/
structure Tracks (p : LineParser) (time : Nat → ℚ) (reads : Nat)
    (r : EventReader) (polled : Bytes)
    (ring : List (Nat × NvmeEvent)) : Prop where
  cursorAt : CursorAt polled r.cursor
  events : r.events = ring.map Prod.snd
  sorted : ring.Pairwise (fun a b => a.1 < b.1 ∧
    a.2.observedAt ≤ b.2.observedAt)
  line : ∀ a ∈ ring, ∃ l, (logLines polled)[a.1]? = some l ∧
    p.accepts l = some (a.2.stamp 0)
  past : ∀ a ∈ ring, a.2.observedAt ≤ time reads

section Tracks

variable {p : LineParser} {time : Nat → ℚ} {reads : Nat} {r : EventReader}
    {polled : Bytes}
  {ring : List (Nat × NvmeEvent)}

theorem tracks_start (p : LineParser) (time : Nat → ℚ) (reads : Nat)
    (max : Nat) :
    Tracks p time reads (EventReader.init max) [] [] :=
  ⟨CursorAt.start, rfl, List.Pairwise.nil, fun _ h => absurd h List.not_mem_nil,
    fun _ h => absurd h List.not_mem_nil⟩

theorem Tracks.position_lt (h : Tracks p time reads r polled ring)
    {a : Nat × NvmeEvent}
    (ha : a ∈ ring) : a.1 < (logLines polled).length := by
  obtain ⟨l, hl, _⟩ := h.line a ha
  exact (List.getElem?_eq_some_iff.mp hl).1

/-- The clock moves on while others read. -/
theorem Tracks.wait (h : Tracks p time reads r polled ring)
    (htime : Monotone time) {later : Nat}
    (hle : reads ≤ later) : Tracks p time later r polled ring :=
  ⟨h.cursorAt, h.events, h.sorted, h.line, fun a ha =>
    (h.past a ha).trans (htime hle)⟩

/-- The events of the lines a poll has taken. -/
theorem mem_taken_readings {n : Nat} {lines : List PyText} {a : Nat × NvmeEvent}
    (ha : a ∈ taken p (readings time reads lines.length) n lines) :
    ∃ i l, lines[i]? = some l ∧ a.1 = n + i ∧ p.accepts l = some (a.2.stamp 0) ∧
      a.2.observedAt = time (reads + (i + 1)) := by
  obtain ⟨i, l, hl, hpos, hparse⟩ := mem_taken _ _ ha
  obtain ⟨haccepts, hstamp⟩ := LineParser.accepts_of_parse hparse
  have hlt := (List.getElem?_eq_some_iff.mp hl).1
  refine ⟨i, l, hl, hpos, haccepts, ?_⟩
  rw [hstamp]
  unfold readings
  congr 2
  omega

/-- The ring after a poll: some of what was there and some of what was taken. -/
theorem events_poll (clock : Nat → ℚ) (file : Option Bytes) (n : Nat)
    (hevents : r.events = ring.map Prod.snd) :
    ∃ ring' : List (Nat × NvmeEvent), (r.poll p clock file).2.events =
      ring'.map Prod.snd ∧
      ring'.Sublist (ring ++ taken p clock n (r.fresh file)) := by
  have hfst := appendEvents_fst p clock r.events n (r.fresh file)
  rw [hevents, ← List.map_append] at hfst
  unfold EventReader.poll
  change ∃ ring' : List (Nat × NvmeEvent),
    (r.settle _ (appendEvents p clock r.events (r.fresh file))).2.events = _ ∧ _
  rw [hevents]
  cases hout : appendEvents p clock (ring.map Prod.snd) (r.fresh file) with
  | mk events error =>
      rw [hout] at hfst
      change events = _ at hfst
      subst hfst
      cases error with
      | some e => exact ⟨_, rfl, List.Sublist.refl _⟩
      | none =>
          refine ⟨lastSlice r.maxEvents (ring ++
            taken p clock n (r.fresh file)), ?_,
            (lastSlice_suffix _ _).sublist⟩
          simp only [EventReader.settle, ite_lastSlice]
          exact (map_lastSlice _ _ _).symm

/-- **One poll of a reader** that has followed the log. -/
theorem Tracks.poll (h : Tracks p time reads r polled ring)
    (htime : Monotone time) {content : Bytes}
    (hgrown : polled <+: content) :
    logLines content = logLines polled ++ r.fresh (some content) ∧
    ∃ ring', ring'.Sublist (ring ++
      taken p (readings time reads (r.fresh (some content)).length)
        (logLines polled).length (r.fresh (some content))) ∧
      Tracks p time (reads + (r.fresh (some content)).length)
        (r.poll p (readings time reads (r.fresh (some content)).length)
          (some content)).2 content
        ring' := by
  obtain ⟨hat, hlines⟩ := h.cursorAt.readNewLines hgrown
  have hall : logLines content = logLines polled ++ r.fresh (some content) :=
    hlines
  obtain ⟨ring', hevents, hsub⟩ := events_poll (p := p)
    (readings time reads (r.fresh (some content)).length) (some content)
      (logLines polled).length h.events
  refine ⟨hall, ring', hsub, ?_, hevents, ?_, ?_, ?_⟩
  · rw [(poll_cursor _).1]
    exact hat
  · refine List.Pairwise.sublist hsub
      (List.pairwise_append.mpr ⟨h.sorted, ?_, ?_⟩)
    · refine (pairwise_taken p _ _ _).imp_of_mem fun {a b} ha hb hlt =>
        ⟨hlt, ?_⟩
      obtain ⟨i, _, _, hi, _, hstamp⟩ := mem_taken_readings ha
      obtain ⟨j, _, _, hj, _, hstamp'⟩ := mem_taken_readings hb
      rw [hstamp, hstamp']
      exact htime (by omega)
    · intro a ha b hb
      obtain ⟨i, _, _, hi, _, hstamp⟩ := mem_taken_readings hb
      refine ⟨?_, ?_⟩
      · have := h.position_lt ha
        omega
      · rw [hstamp]
        exact (h.past a ha).trans (htime (by omega))
  · intro a ha
    rcases List.mem_append.mp (hsub.subset ha) with hold | hnew
    · obtain ⟨l, hl, haccepts⟩ := h.line a hold
      refine ⟨l, ?_, haccepts⟩
      rw [hall, List.getElem?_append_left (h.position_lt hold)]
      exact hl
    · obtain ⟨i, l, hl, hpos, haccepts, _⟩ := mem_taken_readings hnew
      refine ⟨l, ?_, haccepts⟩
      rw [hall, hpos, List.getElem?_append_right (by omega),
        Nat.add_sub_cancel_left]
      exact hl
  · intro a ha
    rcases List.mem_append.mp (hsub.subset ha) with hold | hnew
    · exact (h.past a hold).trans (htime (by omega))
    · obtain ⟨i, l, hl, _, _, hstamp⟩ := mem_taken_readings hnew
      have hlt := (List.getElem?_eq_some_iff.mp hl).1
      rw [hstamp]
      exact htime (by omega)

end Tracks

end Telemetryd
