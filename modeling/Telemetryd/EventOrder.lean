import Telemetryd.EventService
import Telemetryd.SubmissionCache

/-!
# The order of the events

What `get_events` returns is sorted by the time at which the lines were read,
and each call reads all new timeouts before it reads any new error.  So an
error that is followed by a timeout in the log comes out behind it when one
call reads both, or when the clock has not moved in between.

A call that leaves the events of a device in order is one where none of this
happens.  In a run of such calls every answer lists the events in the order of
their lines.
-/

namespace Telemetryd

open PyText Utf8 PyError Regex

/-- Sorting by a relation that agrees with the order `q`, wherever one element
stands before another, gives a list in this order. -/
theorem pairwise_sort_of_agrees {α : Type*} {r q : α → α → Prop}
    [DecidableRel r]
    (htrans : ∀ a b c, q a b → q b c → q a c) {l : List α}
    (h : l.Pairwise (fun a b => (r a b → q a b) ∧ (¬ r a b → q b a))) :
    (l.insertionSort r).Pairwise q := by
  have hinsert : ∀ (a : α) (l : List α), l.Pairwise q →
      (∀ b ∈ l, (r a b → q a b) ∧ (¬ r a b → q b a)) →
        (l.orderedInsert r a).Pairwise q := by
    intro a l hl
    induction l with
    | nil => simp
    | cons b l ih =>
        intro hagrees
        obtain ⟨hb, hl⟩ := List.pairwise_cons.mp hl
        rw [List.orderedInsert_cons]
        split_ifs with hab
        · have hq := (hagrees b List.mem_cons_self).1 hab
          refine List.pairwise_cons.mpr ⟨fun c hc =>
            ?_, List.pairwise_cons.mpr ⟨hb, hl⟩⟩
          rcases List.mem_cons.mp hc with rfl | hc
          · exact hq
          · exact htrans a b c hq (hb c hc)
        · refine List.pairwise_cons.mpr ⟨fun c hc => ?_, ?_⟩
          · rcases List.mem_cons.mp
              ((List.perm_orderedInsert r a l).mem_iff.mp hc) with rfl | hc
            · exact (hagrees b List.mem_cons_self).2 hab
            · exact hb c hc
          · exact ih hl (fun c hc => hagrees c (List.mem_cons_of_mem _ hc))
  induction l with
  | nil => simp
  | cons a l ih =>
      obtain ⟨ha, hl⟩ := List.pairwise_cons.mp h
      rw [List.insertionSort_cons]
      refine hinsert a _ (ih hl) fun b hb => ha b ?_
      exact (List.perm_insertionSort r l).mem_iff.mp hb

/-- Two places of the end of a list are not in the wrong order. -/
theorem not_pair_of_pairwise {α : Type*} {P Q : α → Prop} {front back : List α}
    (h : back.Pairwise (fun a b => ¬ (P a ∧ Q b))) {i j : Nat}
    (hi : front.length ≤ i) (hij : i < j)
    (hP : ∃ l, (front ++ back)[i]? = some l ∧ P l) :
    ¬ ∃ l, (front ++ back)[j]? = some l ∧ Q l := by
  intro ⟨b, hb, hQ⟩
  obtain ⟨a, ha, hP⟩ := hP
  rw [List.getElem?_append_right (by omega)] at ha hb
  obtain ⟨hi', rfl⟩ := List.getElem?_eq_some_iff.mp ha
  obtain ⟨hj', rfl⟩ := List.getElem?_eq_some_iff.mp hb
  exact List.pairwise_iff_getElem.mp h _ _ hi' hj' (by omega) ⟨hP, hQ⟩

/-- A success with a value has that value. -/
theorem ok_of_map_const {α β : Type} {x : Except PyError α} {b c : β}
    (h : (fun _ => b) <$> x = .ok c) : b = c := by
  cases x with
  | error e => exact absurd h (by simp)
  | ok a => exact Except.ok.inj h

section

variable [UnicodeDb]

/-! ### Lines of events -/

/-- The line is accepted as an event of the device. -/
def ReaderKind.On (kind : ReaderKind) (device line : PyText) : Prop :=
  ∃ ev, kind.parser.accepts line = some ev ∧ ev.device = device

instance (kind : ReaderKind) (device line : PyText) :
    Decidable (kind.On device line) :=
  decidable_of_iff ((kind.parser.accepts line).any (fun ev =>
    decide (ev.device = device)) = true) (by
    unfold ReaderKind.On
    cases kind.parser.accepts line <;> simp)

/-- The line with this number is accepted as an event of the device. -/
def ReaderKind.OnAt (kind : ReaderKind) (device : PyText) (content : Bytes)
    (i : Nat) : Prop :=
  ∃ l, (logLines content)[i]? = some l ∧ kind.On device l

/-- A timeout begins with its mark. -/
theorem prefix_of_timeout {line : PyText} {ev : NvmeEvent}
    (h : (ReaderKind.parser .timeout).accepts line = some ev) :
    "TIMEOUT_EVENT ts_ns=".toList <+: strip line := by
  cases hmatch : match? TimeoutEvents.eventRe (strip line) with
  | some groups =>
      obtain ⟨r, hr, _⟩ := mem_run_text (List.mem_of_mem_head? hmatch)
      exact ⟨r, hr.symm⟩
  | none =>
      have hparse : (ReaderKind.parser .timeout).parse 0 line = .ok none := by
        change TimeoutEvents.parseLine 0 line = _
        unfold TimeoutEvents.parseLine TimeoutEvents.parseDetail
        rw [hmatch]
        rfl
      rw [LineParser.accepts, hparse] at h
      exact absurd h (by simp)

/-- So does an error. -/
theorem prefix_of_error {line : PyText} {ev : NvmeEvent}
    (h : (ReaderKind.parser .error).accepts line = some ev) :
    "ERROR_EVENT ts_ns=".toList <+: strip line := by
  cases hmatch : match? ErrorEvents.eventRe (strip line) with
  | some groups =>
      obtain ⟨r, hr, _⟩ := mem_run_text (List.mem_of_mem_head? hmatch)
      exact ⟨r, hr.symm⟩
  | none =>
      have hparse : (ReaderKind.parser .error).parse 0 line = .ok none := by
        change ErrorEvents.parseLine 0 line = _
        unfold ErrorEvents.parseLine ErrorEvents.parseDetail
        rw [hmatch]
        rfl
      rw [LineParser.accepts, hparse] at h
      exact absurd h (by simp)

/-- No line is a timeout and an error. -/
theorem not_timeout_and_error {line : PyText} {ev ev' : NvmeEvent}
    (h : (ReaderKind.parser .timeout).accepts line = some ev) :
    (ReaderKind.parser .error).accepts line ≠ some ev' := by
  intro h'
  obtain ⟨r, hr⟩ := prefix_of_timeout h
  obtain ⟨r', hr'⟩ := prefix_of_error h'
  have heq := hr.trans hr'.symm
  exact absurd (List.cons.inj heq).1 (by decide)

/-- Lines that are there stay what they are. -/
theorem onAt_grown {kind : ReaderKind} {device : PyText} {a b : Bytes} {i : Nat}
    (hgrown : a <+: b) (hi : i < (logLines a).length) :
    kind.OnAt device b i ↔ kind.OnAt device a i := by
  obtain ⟨more, hmore⟩ := logLines_mono hgrown
  unfold ReaderKind.OnAt
  rw [← hmore, List.getElem?_append_left hi]

/-! ### Two readers on one log -/

/-- What the readers have read, and the numbers of the lines their rings came
from. -/
structure Rings where
  polledT : Bytes
  ringT : List (Nat × NvmeEvent)
  polledE : Bytes
  ringE : List (Nat × NvmeEvent)

/-- The events of a device are observed in the order of their lines.  When one
reader is ahead, no events stand the other way round in the lines that the
other has yet to read. -/
structure Aligned (time : Nat → ℚ) (device : PyText) (reads : Nat)
    (content : Bytes)
    (timeouts errors : EventReader) (g : Rings) : Prop where
  grownT : g.polledT <+: content
  grownE : g.polledE <+: content
  tracksT : Tracks (ReaderKind.parser .timeout) time reads timeouts
    g.polledT g.ringT
  tracksE : Tracks (ReaderKind.parser .error) time reads errors
    g.polledE g.ringE
  errorFirst : ∀ t ∈ g.ringT, ∀ e ∈ g.ringE, t.2.device = device →
    e.2.device = device →
    e.1 < t.1 → e.2.observedAt < t.2.observedAt
  timeoutFirst : ∀ t ∈ g.ringT, ∀ e ∈ g.ringE, t.2.device = device →
    e.2.device = device →
    t.1 < e.1 → t.2.observedAt ≤ e.2.observedAt
  aheadE : ∀ i j, (logLines g.polledT).length ≤ i → i < j →
    j < (logLines g.polledE).length →
    ReaderKind.timeout.OnAt device content i →
      ¬ ReaderKind.error.OnAt device content j
  aheadT : ∀ i j, (logLines g.polledE).length ≤ i → i < j →
    j < (logLines g.polledT).length →
    ReaderKind.error.OnAt device content i →
      ¬ ReaderKind.timeout.OnAt device content j

section Aligned

variable {time : Nat → ℚ} {device : PyText} {reads : Nat} {content : Bytes}
  {timeouts errors : EventReader} {g : Rings}

/-- At first the two readers are aligned. -/
theorem aligned_start (time : Nat → ℚ) (device : PyText) (reads : Nat)
    (content : Bytes) (max max' : Nat) :
    Aligned time device reads content (EventReader.init max)
      (EventReader.init max') ⟨[], [], [], []⟩ where
  grownT := List.nil_prefix
  grownE := List.nil_prefix
  tracksT := tracks_start _ _ _ _
  tracksE := tracks_start _ _ _ _
  errorFirst := fun _ h => absurd h List.not_mem_nil
  timeoutFirst := fun _ h => absurd h List.not_mem_nil
  aheadE := fun _ j _ _ hj => absurd hj (Nat.not_lt_zero j)
  aheadT := fun _ j _ _ hj => absurd hj (Nat.not_lt_zero j)

/-- The log grows. -/
theorem Aligned.grow (h : Aligned time device reads content timeouts errors g)
    {later : Bytes}
    (hgrown : content <+: later) :
    Aligned time device reads later timeouts errors g := by
  have hlen : ∀ {polled : Bytes}, polled <+: content →
      (logLines polled).length ≤ (logLines content).length :=
    fun hp => (logLines_mono hp).length_le
  refine ⟨h.grownT.trans hgrown, h.grownE.trans hgrown, h.tracksT, h.tracksE,
    h.errorFirst,
    h.timeoutFirst, ?_, ?_⟩
  · intro i j hi hij hj ht he
    have hlt := hj.trans_le (hlen h.grownE)
    exact h.aheadE i j hi hij hj ((onAt_grown hgrown (hij.trans hlt)).mp ht)
      ((onAt_grown hgrown hlt).mp he)
  · intro i j hi hij hj he ht
    have hlt := hj.trans_le (hlen h.grownT)
    exact h.aheadT i j hi hij hj ((onAt_grown hgrown (hij.trans hlt)).mp he)
      ((onAt_grown hgrown hlt).mp ht)

/-- A line that a reader has taken is one of the device if its event is. -/
theorem onAt_of_line {kind : ReaderKind} {a : Nat × NvmeEvent}
    (h : ∃ l, (logLines content)[a.1]? = some l ∧
      kind.parser.accepts l = some (a.2.stamp 0))
    (hdevice : a.2.device = device) : kind.OnAt device content a.1 := by
  obtain ⟨l, hl, haccepts⟩ := h
  exact ⟨l, hl, _, haccepts, hdevice⟩

/-- **The timeouts are polled.** -/
theorem Aligned.pollTimeouts
    (h : Aligned time device reads content timeouts errors g)
    (htime : Monotone time)
    (hfresh : ∀ i j, (logLines g.polledE).length ≤ i → i < j →
      ReaderKind.error.OnAt device content i →
        ¬ ReaderKind.timeout.OnAt device content j)
    (hclock : ∀ i l, (timeouts.fresh (some content))[i]? = some l →
      ReaderKind.timeout.On device l →
      ∀ e ∈ errors.events, e.device = device →
        e.observedAt < time (reads + (i + 1))) :
    ∃ ringT, Aligned time device (reads +
      (timeouts.fresh (some content)).length) content
      (timeouts.poll (ReaderKind.parser .timeout)
        (readings time reads (timeouts.fresh (some content)).length)
          (some content)).2 errors
      ⟨content, ringT, g.polledE, g.ringE⟩ := by
  obtain ⟨hlines, ringT, hsub, htracks⟩ := h.tracksT.poll htime h.grownT
  have hle : (logLines g.polledT).length ≤ (logLines content).length :=
    (logLines_mono h.grownT).length_le
  refine ⟨ringT, List.prefix_rfl, h.grownE, htracks,
    h.tracksE.wait htime (by omega), ?_, ?_, ?_, ?_⟩
  · intro t ht e he hdt hde hlt
    rcases List.mem_append.mp (hsub.subset ht) with hold | hnew
    · exact h.errorFirst t hold e he hdt hde hlt
    · obtain ⟨i, l, hl, _, haccepts, hstamp⟩ := mem_taken_readings hnew
      have hmem : e.2 ∈ errors.events := by
        rw [h.tracksE.events]
        exact List.mem_map_of_mem he
      rw [hstamp]
      exact hclock i l hl ⟨_, haccepts, hdt⟩ e.2 hmem hde
  · intro t ht e he hdt hde hlt
    rcases List.mem_append.mp (hsub.subset ht) with hold | hnew
    · exact h.timeoutFirst t hold e he hdt hde hlt
    · -- the errors are ahead, and this timeout stands before one they have read
      obtain ⟨i, l, hl, hpos, _, _⟩ := mem_taken_readings hnew
      have hread := h.tracksE.position_lt he
      have htimeout := onAt_of_line (htracks.line t ht) hdt
      have herror : ReaderKind.error.OnAt device content e.1 :=
        (onAt_grown h.grownE hread).mpr (onAt_of_line (h.tracksE.line e he) hde)
      exact absurd herror (h.aheadE t.1 e.1 (by omega) hlt hread htimeout)
  · intro i j hi hij hj
    exact h.aheadE i j (hle.trans hi) hij hj
  · intro i j hi hij _ he
    exact hfresh i j hi hij he

/-- **The errors are polled**, when the timeouts have just been. -/
theorem Aligned.pollErrors
    (h : Aligned time device reads content timeouts errors g)
    (htime : Monotone time) {before : Bytes} (hpolled : g.polledT = before)
    (hbetween : ∀ i j, (logLines before).length ≤ i → i < j →
      ReaderKind.timeout.OnAt device content i →
        ¬ ReaderKind.error.OnAt device content j) :
    ∃ ringE, Aligned time device (reads + (errors.fresh (some content)).length)
      content timeouts
      (errors.poll (ReaderKind.parser .error)
        (readings time reads (errors.fresh (some content)).length)
          (some content)).2
      ⟨g.polledT, g.ringT, content, ringE⟩ := by
  subst hpolled
  obtain ⟨hlines, ringE, hsub, htracks⟩ := h.tracksE.poll htime h.grownE
  have hle : (logLines g.polledE).length ≤ (logLines content).length :=
    (logLines_mono h.grownE).length_le
  refine ⟨ringE, h.grownT, List.prefix_rfl, h.tracksT.wait htime (by omega),
    htracks, ?_, ?_, ?_, ?_⟩
  · intro t ht e he hdt hde hlt
    rcases List.mem_append.mp (hsub.subset he) with hold | hnew
    · exact h.errorFirst t ht e hold hdt hde hlt
    · -- the timeouts are ahead, and this error stands before one they have read
      obtain ⟨i, l, hl, hpos, _, _⟩ := mem_taken_readings hnew
      have hread := h.tracksT.position_lt ht
      have herror := onAt_of_line (htracks.line e he) hde
      have htimeout : ReaderKind.timeout.OnAt device content t.1 :=
        (onAt_grown h.grownT hread).mpr (onAt_of_line (h.tracksT.line t ht) hdt)
      exact absurd htimeout (h.aheadT e.1 t.1 (by omega) hlt hread herror)
  · intro t ht e he hdt hde hlt
    rcases List.mem_append.mp (hsub.subset he) with hold | hnew
    · exact h.timeoutFirst t ht e hold hdt hde hlt
    · obtain ⟨i, _, _, _, _, hstamp⟩ := mem_taken_readings hnew
      rw [hstamp]
      exact (h.tracksT.past t ht).trans (htime (by omega))
  · intro i j hi hij _ ht
    exact hbetween i j hi hij ht
  · intro i j hi hij hj
    exact h.aheadT i j (hle.trans hi) hij hj

/-- The event is the one of this line. -/
def EventAt (content : Bytes) (i : Nat) (ev : NvmeEvent) : Prop :=
  ∃ (kind : ReaderKind) (l : PyText), (logLines content)[i]? = some l ∧
    kind.parser.accepts l = some (ev.stamp 0)

/-- A line of a log stays its line. -/
theorem EventAt.grow {later : Bytes} (hgrown : content <+: later) {i : Nat}
    {ev : NvmeEvent}
    (h : EventAt content i ev) : EventAt later i ev := by
  obtain ⟨kind, l, hl, haccepts⟩ := h
  obtain ⟨more, hmore⟩ := logLines_mono hgrown
  refine ⟨kind, l, ?_, haccepts⟩
  rw [← hmore, List.getElem?_append_left (List.getElem?_eq_some_iff.mp hl).1]
  exact hl

/-- The events are those of some lines, in the order of the lines. -/
def InLogOrder (content : Bytes) (events : List NvmeEvent) : Prop :=
  ∃ numbers : List Nat, numbers.Pairwise (· < ·) ∧
    List.Forall₂ (EventAt content) numbers events

/-- The events of a ring are lines of the log. -/
theorem Tracks.eventAt {kind : ReaderKind} {r : EventReader} {polled : Bytes}
    {ring : List (Nat × NvmeEvent)}
    (h : Tracks kind.parser time reads r polled ring)
    (hgrown : polled <+: content) : ∀ a ∈ ring, EventAt content a.1 a.2 := by
  intro a ha
  obtain ⟨l, hl, haccepts⟩ := h.line a ha
  exact EventAt.grow hgrown ⟨kind, l, hl, haccepts⟩

/-- **What a call returns is in order**, if the rings are. -/
theorem Aligned.inLogOrder
    (h : Aligned time device reads content timeouts errors g) :
    InLogOrder content (sortEvents (timeouts.events.filter (fun e =>
      decide (e.device = device)) ++
      errors.events.filter (fun e => decide (e.device = device)))) := by
  have hof : ∀ ring : List (Nat × NvmeEvent),
      (ring.map Prod.snd).filter (fun e => decide (e.device = device))
        = (ring.filter (fun a => decide (a.2.device = device))).map Prod.snd :=
    fun ring => List.filter_map
  have hmem : ∀ {ring : List (Nat × NvmeEvent)} {a : Nat × NvmeEvent},
      a ∈ ring.filter (fun a => decide (a.2.device = device)) → a ∈ ring ∧
        a.2.device = device :=
    fun ha => ⟨(List.mem_filter.mp ha).1,
      of_decide_eq_true (List.mem_filter.mp ha).2⟩
  have hself : ∀ {ring : List (Nat × NvmeEvent)},
      ring.Pairwise (fun a b => a.1 < b.1 ∧ a.2.observedAt ≤ b.2.observedAt) →
      (ring.filter (fun a => decide (a.2.device = device))).Pairwise (fun a b =>
        (a.2.observedAt ≤ b.2.observedAt → a.1 < b.1) ∧
          (¬ a.2.observedAt ≤ b.2.observedAt → b.1 < a.1)) :=
    fun hring => (hring.filter _).imp fun hab =>
      ⟨fun _ => hab.1, fun hno => absurd hab.2 hno⟩
  rw [h.tracksT.events, h.tracksE.events, hof, hof, ← List.map_append]
  set merged := g.ringT.filter (fun a => decide (a.2.device = device)) ++
    g.ringE.filter (fun a => decide (a.2.device = device)) with hmerged
  have hagrees :
      merged.Pairwise (fun a b =>
      (a.2.observedAt ≤ b.2.observedAt → a.1 < b.1) ∧
      (¬ a.2.observedAt ≤ b.2.observedAt → b.1 < a.1)) := by
    refine List.pairwise_append.mpr ⟨hself h.tracksT.sorted,
      hself h.tracksE.sorted, ?_⟩
    intro t ht e he
    obtain ⟨ht, hdt⟩ := hmem ht
    obtain ⟨he, hde⟩ := hmem he
    have hne : t.1 ≠ e.1 := by
      intro heq
      obtain ⟨l, hl, haccepts⟩ := h.tracksT.line t ht
      obtain ⟨l', hl', haccepts'⟩ := h.tracksE.line e he
      obtain ⟨more, hmore⟩ := logLines_mono h.grownT
      obtain ⟨more', hmore'⟩ := logLines_mono h.grownE
      have hfirst : (logLines content)[t.1]? = some l := by
        rw [← hmore, List.getElem?_append_left (h.tracksT.position_lt ht)]
        exact hl
      have hsecond : (logLines content)[t.1]? = some l' := by
        rw [heq, ← hmore', List.getElem?_append_left (h.tracksE.position_lt he)]
        exact hl'
      rw [Option.some.inj (hfirst.symm.trans hsecond)] at haccepts
      exact not_timeout_and_error haccepts haccepts'
    refine ⟨fun hle => ?_, fun hnot => ?_⟩
    · by_contra hlt
      exact absurd hle (not_le.mpr (h.errorFirst t ht e he hdt hde (by omega)))
    · by_contra hlt
      exact hnot (h.timeoutFirst t ht e he hdt hde (by omega))
  have hsorted :=
    pairwise_sort_of_agrees (q := fun a b : Nat × NvmeEvent => a.1 < b.1)
    (fun _ _ _ => Nat.lt_trans) hagrees
  have hmap : sortEvents (merged.map Prod.snd)
      = (merged.insertionSort (fun a b => a.2.observedAt ≤ b.2.observedAt)).map
        Prod.snd :=
    (List.map_insertionSort (fun a b : Nat × NvmeEvent =>
      a.2.observedAt ≤ b.2.observedAt)
      (fun a b : NvmeEvent => a.observedAt ≤ b.observedAt) Prod.snd merged
      (fun _ _ _ _ => Iff.rfl)).symm
  refine ⟨(merged.insertionSort (fun a b =>
    a.2.observedAt ≤ b.2.observedAt)).map Prod.fst,
    List.pairwise_map.mpr hsorted, ?_⟩
  rw [hmap, List.forall₂_map_left_iff, List.forall₂_map_right_iff,
    List.forall₂_same]
  intro a ha
  rw [(List.perm_insertionSort _ merged).mem_iff, hmerged] at ha
  rcases List.mem_append.mp ha with ha | ha
  · exact h.tracksT.eventAt h.grownT a (hmem ha).1
  · exact h.tracksE.eventAt h.grownE a (hmem ha).1

end Aligned

/-! ### Calls -/

section Call

variable (time : Nat → ℚ) (reads : Nat) (content : Bytes) (later : Option Bytes)
    (device : PyText)
  (s : EventService)

/-- The poll of the timeouts in a call. -/
def EventService.pollTimeouts : Except PyError (List NvmeEvent) × EventReader :=
  s.sources.1.poll (ReaderKind.parser .timeout)
    (readings time reads (s.sources.1.fresh (some content)).length)
      (some content)

/-- The poll of the errors in a call, after that of the timeouts. -/
def EventService.pollErrors : Except PyError (List NvmeEvent) × EventReader :=
  s.sources.2.poll (ReaderKind.parser .error)
    (readings time (reads + (s.sources.1.fresh (some content)).length)
      (s.sources.2.fresh later).length)
    later

/-- A call whose first poll raises does not poll the errors. -/
theorem getEvents_of_error {e : PyError}
    (h : (s.pollTimeouts time reads content).1 = .error e) :
    s.getEvents time reads (some content) later device = (.error e,
      ⟨some ((s.pollTimeouts time reads content).2, s.sources.2)⟩,
      reads + (s.sources.1.fresh (some content)).length) := by
  unfold EventService.pollTimeouts at h
  unfold EventService.getEvents EventReader.eventsForDevice
  rw [if_neg (by simp)]
  dsimp only
  rw [h]
  rfl

/-- **What a call does** otherwise. -/
theorem getEvents_of_ok {found : List NvmeEvent}
    (h : (s.pollTimeouts time reads content).1 = .ok found) :
    s.getEvents time reads (some content) later device
      = ((fun _ => sortEvents
          ((s.pollTimeouts time reads content).2.events.filter (fun e =>
            decide (e.device = device)) ++
            (s.pollErrors time reads content later).2.events.filter
              (fun e => decide (e.device = device)))) <$>
                (s.pollErrors time reads content later).1,
        ⟨some ((s.pollTimeouts time reads content).2,
          (s.pollErrors time reads content later).2)⟩,
        reads + (s.sources.1.fresh (some content)).length +
          (s.sources.2.fresh later).length) := by
  unfold EventService.pollTimeouts at h
  unfold EventService.getEvents EventReader.eventsForDevice
  rw [if_neg (by simp)]
  dsimp only
  rw [h]
  cases hout : (s.pollErrors time reads content later).1 with
  | error e =>
      unfold EventService.pollErrors at hout
      simp only [Functor.map, Except.map]
      rw [hout]
      rfl
  | ok found' =>
      unfold EventService.pollErrors at hout
      simp only [Functor.map, Except.map]
      rw [hout]
      rfl

end Call

/-- No timeout of the device stands behind an error of it in the lines that the
errors have yet to read, no error behind a timeout in the lines that are
completed between the polls, and the clock has moved since the errors in the
ring were observed, when a timeout is read. -/
structure KeepsOrder (time : Nat → ℚ) (device : PyText) (s : ServedLog)
    (between : Bytes) : Prop where
  fresh : (s.service.sources.2.fresh s.file).Pairwise
    (fun a b => ¬ (ReaderKind.error.On device a ∧
      ReaderKind.timeout.On device b))
  between : ((logLines (s.content ++ between)).drop
    (logLines s.content).length).Pairwise
    (fun a b => ¬ (ReaderKind.timeout.On device a ∧
      ReaderKind.error.On device b))
  clock : ∀ a ∈ (s.service.sources.1.fresh s.file).zipIdx,
    ReaderKind.timeout.On device a.1 →
    ∀ e ∈ s.service.sources.2.events, e.device = device →
      e.observedAt < time (s.reads + (a.2 + 1))

instance (time : Nat → ℚ) (device : PyText) (s : ServedLog) (between : Bytes) :
    Decidable (KeepsOrder time device s between) :=
  decidable_of_iff (_ ∧ _ ∧ _) ⟨fun h => ⟨h.1, h.2.1, h.2.2⟩, fun h =>
    ⟨h.1, h.2, h.3⟩⟩

/-- A step that leaves the events of the device in order. -/
def Undisturbed (time : Nat → ℚ) (device : PyText) (s : ServedLog) :
    ServiceStep → Prop
  | .append _ => True
  | .getEvents _ between => KeepsOrder time device s between

instance (time : Nat → ℚ) (device : PyText) (s : ServedLog)
    (step : ServiceStep) :
    Decidable (Undisturbed time device s step) :=
  match step with
  | .append _ => isTrue trivial
  | .getEvents _ between =>
      inferInstanceAs (Decidable (KeepsOrder time device s between))

/-- If the last call was for the device, its answer lists the events in the
order of their lines. -/
def AnswersInOrder (device : PyText) (s : ServedLog) : Prop :=
  ∀ events, s.answer = some (device, .ok events) → InLogOrder s.content events

/-- The invariant of a run. -/
structure Orderly (time : Nat → ℚ) (device : PyText) (s : ServedLog) :
    Prop where
  aligned : ∃ g,
    Aligned time device s.reads s.content s.service.sources.1
    s.service.sources.2 g
  answers : AnswersInOrder device s

/-- No events are in order. -/
theorem inLogOrder_nil (content : Bytes) : InLogOrder content [] :=
  ⟨[], List.Pairwise.nil, List.Forall₂.nil⟩

/-- Events in order stay so when the log grows. -/
theorem InLogOrder.grow {content later : Bytes} (hgrown : content <+: later)
    {events : List NvmeEvent}
    (h : InLogOrder content events) : InLogOrder later events := by
  obtain ⟨numbers, hsorted, hall⟩ := h
  exact ⟨numbers, hsorted, hall.imp fun _ _ => EventAt.grow hgrown⟩

section Step

variable {time : Nat → ℚ} {device : PyText} {s : ServedLog}

/-- A call keeps the answers orderly, if nothing disturbs it. -/
theorem orderly_getEvents (h : Orderly time device s) (htime : Monotone time)
    (asked : PyText)
    {between : Bytes} (hkeeps : KeepsOrder time device s between) :
    Orderly time device (s.step time (.getEvents asked between)) := by
  obtain ⟨g, halign⟩ := h.aligned
  unfold ServedLog.step
  cases hfile : s.file with
  | none =>
      have hout : s.service.getEvents time s.reads none none asked =
          (.ok [], s.service, s.reads) :=
        if_pos rfl
      have hcontent : s.content = [] := by rw [ServedLog.content, hfile]; rfl
      simp only [Option.map_none, hout]
      refine ⟨⟨g, ?_⟩, ?_⟩
      · rw [hcontent] at halign
        exact halign
      · intro events hevents
        obtain ⟨-, hnil⟩ := Prod.mk.inj (Option.some.inj hevents)
        rw [← Except.ok.inj hnil]
        exact inLogOrder_nil _
  | some content =>
      have hcontent : s.content = content := by
        rw [ServedLog.content, hfile]; rfl
      obtain ⟨hfresh, hbetween, hclock⟩ := hkeeps
      rw [hfile] at hfresh hclock
      rw [hcontent] at halign hbetween
      have hgrown : content <+: content ++ between := List.prefix_append _ _
      have hlines := (halign.tracksE.poll htime halign.grownE).1
      obtain ⟨ringT, hpolled⟩ := halign.pollTimeouts htime
        (by
          intro i j hi hij
          unfold ReaderKind.OnAt
          rw [hlines]
          exact not_pair_of_pairwise hfresh hi hij)
        (fun i l hl => hclock (l, i) (List.mem_zipIdx_iff_getElem?.mpr hl))
      obtain ⟨more, hmore⟩ := logLines_mono hgrown
      obtain ⟨ringE, hdone⟩ := (hpolled.grow hgrown).pollErrors htime rfl
        (by
          rw [← hmore, List.drop_left] at hbetween
          intro i j hi hij
          unfold ReaderKind.OnAt
          rw [← hmore]
          exact not_pair_of_pairwise hbetween hi hij)
      simp only [Option.map_some]
      cases hout : (s.service.pollTimeouts time s.reads content).1 with
      | error e =>
          rw [getEvents_of_error time s.reads content _ asked s.service hout]
          refine ⟨⟨_, hpolled.grow hgrown⟩, ?_⟩
          intro events hevents
          exact absurd (Prod.mk.inj (Option.some.inj hevents)).2 (by simp)
      | ok found =>
          rw [getEvents_of_ok time s.reads content _ asked s.service hout]
          refine ⟨⟨_, hdone⟩, ?_⟩
          intro events hevents
          obtain ⟨hasked, hreply⟩ := Prod.mk.inj (Option.some.inj hevents)
          rw [← ok_of_map_const hreply, hasked]
          exact hdone.inLogOrder

/-- **A step** keeps the answers orderly, if nothing disturbs it. -/
theorem orderly_step (h : Orderly time device s) (htime : Monotone time)
    {step : ServiceStep}
    (hstep : Undisturbed time device s step) :
    Orderly time device (s.step time step) := by
  cases step with
  | append bytes =>
      have hgrown : s.content <+: s.content ++ bytes := List.prefix_append _ _
      obtain ⟨g, halign⟩ := h.aligned
      exact ⟨⟨g, halign.grow hgrown⟩, fun events hevents =>
        (h.answers events hevents).grow hgrown⟩
  | getEvents asked between => exact orderly_getEvents h htime asked hstep

/-- A service that has just started is orderly. -/
theorem orderly_start (time : Nat → ℚ) (device : PyText) (file : Option Bytes) :
    Orderly time device { file := file } :=
  ⟨⟨_, aligned_start time device 0 _ _ _⟩, fun _ h => absurd h (by simp)⟩

end Step

/-- **The events of a device in the order of the log.**  In every run whose
calls leave its events in order, every answer for the device lists events in
the order of their lines, whatever is appended when, and for whatever device
the other calls are. -/
theorem events_in_log_order {time : Nat → ℚ} (htime : Monotone time)
    (device : PyText)
    (file : Option Bytes) {steps : List ServiceStep}
    (hsteps : Runs.Each (ServedLog.step time) (Undisturbed time device)
      { file := file } steps) :
    Runs.Always (ServedLog.step time) (AnswersInOrder device)
      { file := file } steps :=
  Runs.always_of_each (I := Orderly time device) (fun _ h => h.answers)
    (fun _ _ h hstep =>
      orderly_step h htime hstep) (orderly_start time device file) hsteps

end

section

attribute [local instance] UnicodeDb.ascii

/-- A command fails, and the next one times out. -/
def failsThenTimesOut : List Probe :=
  [.setupCmd (readOf2048 1000 5), .completeRq (completionOf 5 0x281),
    .setupCmd (readOf2048 4000 6),
    .nvmeTimeout ⟨5000, 0, 1, 6⟩]

/-- The log of it. -/
def failsThenTimesOutLog : Bytes :=
  logBytes (runOutput .inserted failsThenTimesOut)

/-- The sample log has an error and then a timeout. -/
theorem kinds_failsThenTimesOut :
    (logLines failsThenTimesOutLog).map (fun l =>
      ((ReaderKind.parser .timeout).accepts l).map NvmeEvent.kind)
        = [none, none, some "timeout".toList] ∧
    (logLines failsThenTimesOutLog).map (fun l =>
      ((ReaderKind.parser .error).accepts l).map NvmeEvent.kind) =
        [none, some "error".toList, none] ∧
    ((ServedLog.step (fun n => n) { file := some failsThenTimesOutLog }
      (.getEvents "nvme0".toList [])).answer.map
        (fun a => a.2.toOption.map (List.map NvmeEvent.kind)))
      = some (some ["timeout".toList, "error".toList]) := by
  decide +kernel

/-- The bytes of the log of a failed command. -/
def failureLog : Bytes :=
  logBytes (runOutput .inserted (failsThenTimesOut.take 2))

/-- The failure is read by one call and the timeout by the next. -/
def readApart : List ServiceStep :=
  [.getEvents "nvme0".toList [],
    .append (failsThenTimesOutLog.drop failureLog.length),
    .getEvents "nvme0".toList []]

theorem events_in_log_order_readApart :
    Runs.Each (ServedLog.step (fun n => n))
      (Undisturbed (fun n => n) "nvme0".toList)
      { file := some failureLog } readApart ∧
    Runs.Always (ServedLog.step (fun n => n)) (AnswersInOrder "nvme0".toList)
      { file := some failureLog } readApart := by
  have heach :
      Runs.Each (ServedLog.step (fun n => n))
      (Undisturbed (fun n => n) "nvme0".toList)
      { file := some failureLog } readApart := by decide +kernel
  exact ⟨heach,
    events_in_log_order (fun _ _ h => by exact_mod_cast h) _ _ heach⟩

/-- The events of the sample log. -/
theorem kind_of_eventAt {i : Nat} {ev : NvmeEvent}
    (h : EventAt failsThenTimesOutLog i ev) :
    (i = 1 ∧ ev.kind = "error".toList) ∨
      (i = 2 ∧ ev.kind = "timeout".toList) := by
  obtain ⟨htimeouts, herrors, -⟩ := kinds_failsThenTimesOut
  obtain ⟨kind, l, hl, haccepts⟩ := h
  have hkind : ((logLines failsThenTimesOutLog).map (fun l =>
      (kind.parser.accepts l).map NvmeEvent.kind))[i]? =
        some (some ev.kind) := by
    rw [List.getElem?_map, hl, Option.map_some, haccepts]
    rfl
  cases kind with
  | timeout =>
      rw [htimeouts] at hkind
      generalize ev.kind = k at hkind ⊢
      rcases i with _ | _ | _ | i
      · exact absurd hkind (by simp)
      · exact absurd hkind (by simp)
      · exact Or.inr ⟨rfl, (Option.some.inj (Option.some.inj hkind)).symm⟩
      · exact absurd hkind (by simp)
  | error =>
      rw [herrors] at hkind
      generalize ev.kind = k at hkind ⊢
      rcases i with _ | _ | _ | i
      · exact absurd hkind (by simp)
      · exact Or.inl ⟨rfl, (Option.some.inj (Option.some.inj hkind)).symm⟩
      · exact absurd hkind (by simp)
      · exact absurd hkind (by simp)

/-- Read by one call, the timeout comes out before the failure. -/
theorem failure_listed_after_timeout :
    ¬ Runs.Always (ServedLog.step (fun n => n)) (AnswersInOrder "nvme0".toList)
      { file := some failsThenTimesOutLog } [.getEvents "nvme0".toList []] := by
  intro hall
  obtain ⟨-, -, hkinds⟩ := kinds_failsThenTimesOut
  obtain ⟨⟨device, reply⟩, hanswer, hreply⟩ := Option.map_eq_some_iff.mp hkinds
  cases reply with
  | error e => exact absurd hreply (by simp [Except.toOption])
  | ok events =>
      have hlist :
          events.map NvmeEvent.kind = ["timeout".toList, "error".toList] :=
        Option.some.inj hreply
      obtain ⟨first, rest, rfl, hfirst, hrest⟩ := List.map_eq_cons_iff.mp hlist
      obtain ⟨second, rest', rfl, hsecond, hnil⟩ :=
        List.map_eq_cons_iff.mp hrest
      have hdevice : device = "nvme0".toList := by
        have : some device = some "nvme0".toList :=
          congrArg (Option.map Prod.fst) hanswer.symm
        exact Option.some.inj this
      rw [hdevice] at hanswer
      have hordered : AnswersInOrder "nvme0".toList (ServedLog.step (fun n => n)
        { file := some failsThenTimesOutLog } (.getEvents "nvme0".toList [])) :=
          hall.2
      have hcontent :
        (ServedLog.step (fun n => n) { file := some failsThenTimesOutLog }
        (.getEvents "nvme0".toList [])).content =
          failsThenTimesOutLog := List.append_nil _
      obtain ⟨numbers, hsorted, hevents⟩ := hordered _ hanswer
      rw [hcontent] at hevents
      cases hevents with
      | cons hone htail =>
          cases htail with
          | cons htwo _ =>
              have hlt := (List.pairwise_cons.mp hsorted).1 _ List.mem_cons_self
              rcases kind_of_eventAt hone with ⟨rfl, hkind⟩ | ⟨rfl, hkind⟩
              · exact absurd (hfirst.symm.trans hkind) (by decide)
              · rcases kind_of_eventAt htwo with ⟨rfl, hkind'⟩ | ⟨rfl, hkind'⟩
                · exact absurd hlt (by decide)
                · exact absurd hlt (by decide)

end

end Telemetryd
