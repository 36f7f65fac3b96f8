import Telemetryd.EventRetention

/-!
# The readings of the events

The clock is read for every line, so each event that the service has ever
returned has a reading of its own, whichever client asked and whatever the rings
have lost since.  What one call returns are such events, none of them twice.
-/

namespace Telemetryd

open PyText Utf8 PyError Regex

section

variable [UnicodeDb] {time : Nat → ℚ} {seen : List (Nat × NvmeEvent)}

/-- Events with the numbers of their readings, when the clock has been read
`reads` times. -/
structure Observed (time : Nat → ℚ) (reads : Nat)
    (seen : List (Nat × NvmeEvent)) : Prop where
  sorted : seen.Pairwise fun a b => a.1 < b.1
  past : ∀ a ∈ seen, a.1 ≤ reads
  stamped : ∀ a ∈ seen, a.2.observedAt = time a.1
  kind : ∀ a ∈ seen, ∃ kind, isKind kind a.2 = true

omit [UnicodeDb] in
/-- Nothing has been observed. -/
theorem observed_nil (time : Nat → ℚ) (reads : Nat) :
    Observed time reads [] where
  sorted := List.Pairwise.nil
  past := fun _ h => absurd h List.not_mem_nil
  stamped := fun _ h => absurd h List.not_mem_nil
  kind := fun _ h => absurd h List.not_mem_nil

omit [UnicodeDb] in
/-- The reading tells the events apart. -/
theorem Observed.eq_of_reading {reads : Nat} (h : Observed time reads seen)
    {a b : Nat × NvmeEvent}
    (ha : a ∈ seen) (hb : b ∈ seen) (heq : a.1 = b.1) : a = b := by
  have hnodup : (seen.map Prod.fst).Nodup :=
    List.pairwise_map.mpr (h.sorted.imp fun hlt => Nat.ne_of_lt hlt)
  exact List.inj_on_of_nodup_map hnodup ha hb heq

/-- An event that a poll takes. -/
theorem reading_of_taken {kind : ReaderKind} {reads : Nat} {lines : List PyText}
    {a : Nat × NvmeEvent}
    (ha : a ∈ taken kind.parser (readings time reads lines.length)
      (reads + 1) lines) :
    reads < a.1 ∧ a.1 ≤ reads + lines.length ∧ a.2.observedAt = time a.1 ∧
      isKind kind a.2 = true := by
  obtain ⟨i, l, hl, hi, haccepts, hstamp⟩ := mem_taken_readings ha
  have hlt := (List.getElem?_eq_some_iff.mp hl).1
  have hkind : isKind kind (a.2.stamp 0) = true := isKind_of_accepts haccepts
  refine ⟨by omega, by omega, ?_, hkind⟩
  rw [hstamp, hi]
  congr 1
  omega

/-- The events of the lines of a poll come after those before. -/
theorem Observed.taken {reads : Nat} (h : Observed time reads seen)
    (kind : ReaderKind)
    (lines : List PyText) : Observed time (reads + lines.length)
      (seen ++ taken kind.parser (readings time reads lines.length) (reads + 1)
        lines) := by
  refine ⟨List.pairwise_append.mpr ⟨h.sorted, pairwise_taken _ _ _ _,
    fun a ha b hb => ?_⟩,
    fun a ha => ?_, fun a ha => ?_, fun a ha => ?_⟩
  · exact Nat.lt_of_le_of_lt (h.past a ha) (reading_of_taken hb).1
  · rcases List.mem_append.mp ha with ha | ha
    · exact (h.past a ha).trans (Nat.le_add_right _ _)
    · exact (reading_of_taken ha).2.1
  · rcases List.mem_append.mp ha with ha | ha
    · exact h.stamped a ha
    · exact (reading_of_taken ha).2.2.1
  · rcases List.mem_append.mp ha with ha | ha
    · exact h.kind a ha
    · exact ⟨kind, (reading_of_taken ha).2.2.2⟩

/-- A ring of events of its kind that have been seen. -/
structure Held (kind : ReaderKind) (r : EventReader)
    (seen : List (Nat × NvmeEvent)) : Prop where
  events : r.events.Sublist (seen.map Prod.snd)
  kind : ∀ e ∈ r.events, isKind kind e = true

omit [UnicodeDb] in
/-- A new reader holds nothing. -/
theorem held_init (kind : ReaderKind) (max : Nat)
    (seen : List (Nat × NvmeEvent)) :
    Held kind (EventReader.init max) seen where
  events := List.nil_sublist _
  kind := fun _ h => absurd h List.not_mem_nil

omit [UnicodeDb] in
/-- What is held was observed, also when more is. -/
theorem Held.append {kind : ReaderKind} {r : EventReader} (h : Held kind r seen)
    (more : List (Nat × NvmeEvent)) : Held kind r (seen ++ more) where
  events := by
    rw [List.map_append]
    exact h.events.trans (List.sublist_append_left _ _)
  kind := h.kind

/-- The ring after a poll. -/
theorem Held.poll {kind : ReaderKind} {r : EventReader} (h : Held kind r seen)
    (time : Nat → ℚ)
    (reads : Nat) (file : Option Bytes) :
    Held kind (r.poll kind.parser (readings time reads (r.fresh file).length)
      file).2
      (seen ++ taken kind.parser (readings time reads (r.fresh file).length)
        (reads + 1)
        (r.fresh file)) := by
  have hring : r.events = (r.events.map fun e => (0, e)).map Prod.snd := by simp
  obtain ⟨ring, hevents, hsub⟩ := events_poll (p := kind.parser)
    (readings time reads (r.fresh file).length) file (reads + 1) hring
  have hmap := hsub.map Prod.snd
  rw [← hevents, List.map_append, ← hring] at hmap
  refine ⟨?_, fun e he => ?_⟩
  · rw [List.map_append]
    exact hmap.trans (h.events.append_right _)
  · rcases List.mem_append.mp (hmap.subset he) with he | he
    · exact h.kind e he
    · obtain ⟨a, ha, rfl⟩ := List.mem_map.mp he
      exact (reading_of_taken ha).2.2.2

/-- What the rings hold has been seen. -/
structure ServedLog.Dated (time : Nat → ℚ) (s : ServedLog)
    (seen : List (Nat × NvmeEvent)) : Prop where
  observed : Observed time s.reads seen
  timeouts : Held .timeout s.service.sources.1 seen
  errors : Held .error s.service.sources.2 seen

omit [UnicodeDb] in
/-- A service that has just started is dated. -/
theorem ServedLog.dated_start (time : Nat → ℚ) (file : Option Bytes) :
    ServedLog.Dated time { file := file } [] where
  observed := observed_nil time 0
  timeouts := held_init .timeout maxEvents []
  errors := held_init .error maxEvents []

/-- Events that have been seen, none of them twice. -/
structure Answered (seen : List (Nat × NvmeEvent)) (events : List NvmeEvent) :
    Prop where
  seen : events ⊆ seen.map Prod.snd
  nodup : events.Nodup

omit [UnicodeDb] in
/-- No events are answered. -/
theorem answered_nil (seen : List (Nat × NvmeEvent)) : Answered seen [] :=
  ⟨List.nil_subset _, List.nodup_nil⟩

omit [UnicodeDb] in
/-- What was answered was observed, also when more is. -/
theorem Answered.append {events : List NvmeEvent} (h : Answered seen events)
    (more : List (Nat × NvmeEvent)) : Answered (seen ++ more) events := by
  refine ⟨fun e he => ?_, h.nodup⟩
  rw [List.map_append]
  exact List.mem_append_left _ (h.seen he)

omit [UnicodeDb] in
/-- What is picked from the rings and sorted. -/
theorem answered_of_held {reads : Nat} (hseen : Observed time reads seen)
    (htime : Function.Injective time) {timeouts errors : EventReader}
    (ht : Held .timeout timeouts seen) (he : Held .error errors seen)
    (device : PyText) :
    Answered seen (sortEvents (timeouts.events.filter (fun e =>
      decide (e.device = device)) ++
      errors.events.filter (fun e => decide (e.device = device)))) := by
  have hnodup : (seen.map Prod.snd).Nodup := by
    refine List.pairwise_map.mpr
      (hseen.sorted.imp_of_mem fun {a b} ha hb hlt heq => ?_)
    have htimes : time a.1 = time b.1 := by
      rw [← hseen.stamped a ha, ← hseen.stamped b hb, heq]
    exact Nat.ne_of_lt hlt (htime htimes)
  have hperm :=
    List.perm_insertionSort (fun a b : NvmeEvent => a.observedAt ≤ b.observedAt)
    (timeouts.events.filter (fun e => decide (e.device = device)) ++
      errors.events.filter (fun e => decide (e.device = device)))
  refine ⟨fun e hmem =>
    ?_, hperm.nodup_iff.mpr (List.nodup_append.mpr ⟨?_, ?_, ?_⟩)⟩
  · rcases List.mem_append.mp (hperm.subset hmem) with hmem | hmem
    · exact ht.events.subset (List.mem_of_mem_filter hmem)
    · exact he.events.subset (List.mem_of_mem_filter hmem)
  · exact (hnodup.sublist ht.events).filter _
  · exact (hnodup.sublist he.events).filter _
  · rintro a ha b hb rfl
    have htimeout := ht.kind a (List.mem_of_mem_filter ha)
    rw [isKind_error a (he.kind a (List.mem_of_mem_filter hb))] at htimeout
    exact Bool.noConfusion htimeout

/-- **A step of the service.**  It only adds to what has been seen, and a call
returns of that. -/
theorem ServedLog.Dated.step {s : ServedLog} (h : s.Dated time seen)
    (htime : Function.Injective time)
    (step : ServiceStep) :
    ∃ more, (s.step time step).Dated time (seen ++ more) ∧
      ∀ asked between device events, step = .getEvents asked between →
        (s.step time step).answer = some (device, .ok events) →
          Answered (seen ++ more) events := by
  cases step with
  | append bytes =>
      refine ⟨[], ?_, fun _ _ _ _ hstep => ServiceStep.noConfusion hstep⟩
      rw [List.append_nil]
      exact ⟨h.observed, h.timeouts, h.errors⟩
  | getEvents asked between =>
      unfold ServedLog.step
      cases hfile : s.file with
      | none =>
          have hout : s.service.getEvents time s.reads none none asked =
              (.ok [], s.service, s.reads) :=
            if_pos rfl
          simp only [Option.map_none, hout]
          refine ⟨[], ?_, ?_⟩
          · rw [List.append_nil]
            exact ⟨h.observed, h.timeouts, h.errors⟩
          · rintro _ _ device events - hanswer
            rw [← Except.ok.inj (Prod.mk.inj (Option.some.inj hanswer)).2]
            exact answered_nil _
      | some content =>
          simp only [Option.map_some]
          have hseenT :=
            h.observed.taken .timeout (s.service.sources.1.fresh (some content))
          have hheldT := h.timeouts.poll time s.reads (some content)
          cases hout : (s.service.pollTimeouts time s.reads content).1 with
          | error e =>
              rw [getEvents_of_error time s.reads content _ asked
                s.service hout]
              refine ⟨_, ⟨hseenT, hheldT, h.errors.append _⟩, ?_⟩
              rintro _ _ device events - hanswer
              exact absurd (Prod.mk.inj (Option.some.inj hanswer)).2 (by simp)
          | ok found =>
              rw [getEvents_of_ok time s.reads content _ asked s.service hout]
              have hseenE := hseenT.taken .error
                (s.service.sources.2.fresh (some (content ++ between)))
              have hheldE := (h.errors.append
                (Telemetryd.taken (ReaderKind.parser .timeout)
                  (readings time s.reads
                    (s.service.sources.1.fresh (some content)).length)
                  (s.reads + 1)
                    (s.service.sources.1.fresh (some content)))).poll time
                (s.reads + (s.service.sources.1.fresh (some content)).length)
                (some (content ++ between))
              rw [List.append_assoc] at hseenE hheldE
              have hheldT' :=
                hheldT.append (Telemetryd.taken (ReaderKind.parser .error)
                (readings time (s.reads +
                  (s.service.sources.1.fresh (some content)).length)
                  (s.service.sources.2.fresh
                    (some (content ++ between))).length)
                (s.reads + (s.service.sources.1.fresh (some content)).length +
                  1)
                (s.service.sources.2.fresh (some (content ++ between))))
              rw [List.append_assoc] at hheldT'
              refine ⟨_, ⟨hseenE, hheldT', hheldE⟩, ?_⟩
              rintro _ _ device events - hanswer
              obtain ⟨-, hreply⟩ := Prod.mk.inj (Option.some.inj hanswer)
              rw [← ok_of_map_const hreply]
              exact answered_of_held hseenE htime hheldT' hheldE asked

end

end Telemetryd
