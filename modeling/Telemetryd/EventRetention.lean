import Telemetryd.EventOrder

/-!
# How many events are kept

Each reader keeps the last 200 events of its kind, of all devices, and a call
picks those of one device.  The contract is the last 200 events of the device,
of both kinds.  The two agree exactly if no event of the device is inside one
of these windows and outside the other.
-/

namespace Telemetryd

open PyText Utf8 PyError Regex

/-! ### Two windows on a list -/

section Windows

variable {α : Type*} (p q : α → Bool) (n : Nat)

/-- An element that satisfies both predicates is among the last `n` of the one
if and only if it is among the last `n` of the other. -/
def WindowsAgree (l : List α) : Prop :=
  ∀ front a rest, l = front ++ a :: rest → p a = true → q a = true →
    (rest.countP p < n ↔ rest.countP q < n)

/-- The windows agree on a list if they do on its head and on its tail. -/
theorem windowsAgree_cons (a : α) (l : List α) : WindowsAgree p q n (a :: l) ↔
    (p a = true → q a = true → (l.countP p < n ↔ l.countP q < n)) ∧
      WindowsAgree p q n l := by
  constructor
  · intro h
    refine ⟨h [] a l rfl, fun front b rest hl => ?_⟩
    exact h (a :: front) b rest (by rw [hl, List.cons_append])
  · intro ⟨hhead, hrest⟩ front b rest hl
    cases front with
    | nil =>
        obtain ⟨rfl, rfl⟩ := List.cons.inj hl
        exact hhead
    | cons c front =>
        obtain ⟨rfl, rfl⟩ := List.cons.inj hl
        exact hrest front b rest rfl

/-- The end of a short list is the list. -/
theorem rtake_of_length_le {l : List α} {n : Nat} (h : l.length ≤ n) :
    l.rtake n = l := by
  rw [List.rtake, Nat.sub_eq_zero_of_le h, List.drop_zero]

/-- An element is in the end of a list if the rest is short. -/
theorem rtake_cons (a : α) (l : List α) (n : Nat) :
    (a :: l).rtake n = if l.length < n then a :: l.rtake n else l.rtake n := by
  by_cases h : l.length < n
  · rw [if_pos h, rtake_of_length_le (by rw [List.length_cons]; omega),
      rtake_of_length_le h.le]
  · rw [if_neg h, List.rtake, List.rtake, List.length_cons,
      show l.length + 1 - n = (l.length - n) + 1 by omega, List.drop_succ_cons]

/-- The last `n` elements that satisfy the first predicate, among them those
that satisfy the second. -/
def shared (l : List α) : List α := ((l.filter p).rtake n).filter q

/-- What is shared of a list, by its head. -/
theorem shared_cons (a : α) (l : List α) : shared p q n (a :: l)
    = if p a = true ∧ q a = true ∧ l.countP p < n then a :: shared p q n l
      else shared p q n l := by
  unfold shared
  by_cases hp : p a = true
  · rw [List.filter_cons_of_pos hp, rtake_cons, ← List.countP_eq_length_filter]
    by_cases hlt : l.countP p < n
    · by_cases hq : q a = true
      · rw [if_pos hlt, List.filter_cons_of_pos hq, if_pos ⟨hp, hq, hlt⟩]
      · rw [if_pos hlt, List.filter_cons_of_neg hq, if_neg (fun h => hq h.2.1)]
    · rw [if_neg hlt, if_neg (fun h => hlt h.2.2)]
  · rw [List.filter_cons_of_neg hp, if_neg (fun h => hp h.1)]

/-- No more is shared than has both properties. -/
theorem length_shared_le (l : List α) :
    (shared p q n l).length ≤ l.countP (fun a => p a && q a) := by
  unfold shared
  have hsub : (((l.filter p).rtake n).filter q).Sublist
      ((l.filter p).filter q) :=
    ((l.filter p).drop_sublist _).filter q
  refine hsub.length_le.trans ?_
  rw [List.filter_filter, List.countP_eq_length_filter]
  simp only [Bool.and_comm, le_refl]

/-- Of a list that fits, all that has both properties is shared. -/
theorem length_shared_of_le {l : List α} (h : l.countP p ≤ n) :
    (shared p q n l).length = l.countP (fun a => p a && q a) := by
  unfold shared
  rw [rtake_of_length_le (by rw [← List.countP_eq_length_filter]; exact h),
    List.filter_filter,
    List.countP_eq_length_filter]
  simp only [Bool.and_comm]

/-- The windows agree, then they share the same elements. -/
theorem shared_eq_of_agree {l : List α} (h : WindowsAgree p q n l) :
    shared p q n l = shared q p n l := by
  induction l with
  | nil => simp [shared]
  | cons a l ih =>
      obtain ⟨hhead, hrest⟩ := (windowsAgree_cons p q n a l).mp h
      rw [shared_cons, shared_cons, ih hrest]
      by_cases hp : p a = true
      · by_cases hq : q a = true
        · simp only [hp, hq, hhead hp hq]
        · simp only [hq, Bool.false_eq_true, false_and, and_false]
      · simp only [hp, Bool.false_eq_true, false_and, and_false]

/-- **Windows that share equally many elements agree.** -/
theorem agree_of_length {l : List α}
    (h : (shared p q n l).length = (shared q p n l).length) :
    WindowsAgree p q n l := by
  have hswap : ∀ l : List α, l.countP (fun a => q a && p a) =
      l.countP (fun a => p a && q a) := by
    intro l
    simp only [Bool.and_comm]
  induction l with
  | nil => exact fun front a rest hl => absurd hl (by simp)
  | cons a l ih =>
      have hpq := length_shared_le p q n l
      have hqp := length_shared_le q p n l
      rw [hswap] at hqp
      -- a head inside one window has all the later ones inside it, so it is in the other too
      have hhead : p a = true → q a = true →
          (l.countP p < n ↔ l.countP q < n) := by
        intro hp hq
        rw [shared_cons, shared_cons] at h
        simp only [hp, hq, true_and] at h
        constructor
        · intro hlt
          by_contra hnot
          have hall := length_shared_of_le p q n hlt.le
          rw [if_pos hlt, if_neg hnot, List.length_cons] at h
          omega
        · intro hlt
          by_contra hnot
          have hall := length_shared_of_le q p n hlt.le
          rw [hswap] at hall
          rw [if_neg hnot, if_pos hlt, List.length_cons] at h
          omega
      refine (windowsAgree_cons p q n a l).mpr ⟨hhead, ih ?_⟩
      rw [shared_cons, shared_cons] at h
      by_cases hboth : p a = true ∧ q a = true
      · simp only [hboth, true_and, hhead hboth.1 hboth.2] at h
        split_ifs at h
        · simpa using h
        · exact h
      · have hnone : ∀ b : Prop, ¬ (p a = true ∧ q a = true ∧ b) :=
          fun b hb => hboth ⟨hb.1, hb.2.1⟩
        have hnone' : ∀ b : Prop, ¬ (q a = true ∧ p a = true ∧ b) :=
          fun b hb => hboth ⟨hb.2.1, hb.1⟩
        rw [if_neg (hnone _), if_neg (hnone' _)] at h
        exact h

end Windows

/-! ### The events of a log -/

section

variable [UnicodeDb]

/-- The event a line is, of one kind or the other. -/
def acceptsEvent (line : PyText) : Option NvmeEvent :=
  ((ReaderKind.parser .timeout).accepts line).or
    ((ReaderKind.parser .error).accepts line)

/-- The events of a log, in order. -/
def logEvents (content : Bytes) : List NvmeEvent :=
  (logLines content).filterMap acceptsEvent

/-- The `KIND` of a reader's events. -/
def ReaderKind.label : ReaderKind → PyText
  | .timeout => TimeoutEvents.kind
  | .error => ErrorEvents.kind

/-- The event is of a kind. -/
def isKind (kind : ReaderKind) (e : NvmeEvent) : Bool :=
  decide (e.kind = kind.label)

/-- The event is of a device. -/
def onDevice (device : PyText) (e : NvmeEvent) : Bool :=
  decide (e.device = device)

omit [UnicodeDb] in
/-- An error is no timeout. -/
theorem isKind_error (e : NvmeEvent) (h : isKind .error e = true) :
    isKind .timeout e = false := by
  unfold isKind at h ⊢
  rw [of_decide_eq_true h]
  decide

/-- A line that is an event is parsed as that event. -/
theorem parse_of_accepts {kind : ReaderKind} {line : PyText} {ev : NvmeEvent}
    (h : kind.parser.accepts line = some ev) :
    ∃ found, kind.parser.parse 0 line = .ok (some found) ∧
      found.stamp 0 = ev := by
  unfold LineParser.accepts at h
  cases hparse : kind.parser.parse 0 line with
  | error e =>
      rw [hparse] at h
      exact absurd h (by simp)
  | ok found =>
      rw [hparse] at h
      obtain ⟨e, rfl, hstamp⟩ := Option.map_eq_some_iff.mp h
      exact ⟨e, rfl, hstamp⟩

/-- The events of a reader are of its kind. -/
theorem isKind_of_accepts {kind : ReaderKind} {line : PyText} {ev : NvmeEvent}
    (h : kind.parser.accepts line = some ev) : isKind kind ev = true := by
  obtain ⟨found, hparse, rfl⟩ := parse_of_accepts h
  cases kind with
  | timeout =>
      have hline : TimeoutEvents.parseLine 0 line = .ok (some found) := hparse
      unfold TimeoutEvents.parseLine at hline
      cases hdetail : TimeoutEvents.parseDetail line with
      | error e =>
          rw [hdetail] at hline
          exact absurd hline (by simp [bind, Except.bind])
      | ok detail =>
          rw [hdetail] at hline
          obtain ⟨f, -, rfl⟩ := Option.map_eq_some_iff.mp (Except.ok.inj hline)
          rfl
  | error =>
      have hline : ErrorEvents.parseLine 0 line = .ok (some found) := hparse
      unfold ErrorEvents.parseLine at hline
      cases hdetail : ErrorEvents.parseDetail line with
      | error e =>
          rw [hdetail] at hline
          exact absurd hline (by simp [bind, Except.bind])
      | ok detail =>
          rw [hdetail] at hline
          obtain ⟨f, -, rfl⟩ := Option.map_eq_some_iff.mp (Except.ok.inj hline)
          rfl

/-- What a line is, by the two parsers. -/
theorem acceptsEvent_cases (line : PyText) :
    (acceptsEvent line = none ∧ ∀ kind : ReaderKind,
      kind.parser.accepts line = none) ∨
    ∃ ev, acceptsEvent line = some ev ∧ ∃ kind : ReaderKind,
      kind.parser.accepts line = some ev ∧
      ∀ other : ReaderKind, isKind other ev = false →
        other.parser.accepts line = none := by
  unfold acceptsEvent
  cases htimeout : (ReaderKind.parser .timeout).accepts line with
  | some ev =>
      refine Or.inr ⟨ev, rfl, .timeout, htimeout, fun other hother => ?_⟩
      cases other with
      | timeout => exact absurd (isKind_of_accepts htimeout) (by simp [hother])
      | error =>
          cases herror : (ReaderKind.parser .error).accepts line with
          | none => rfl
          | some ev' => exact absurd herror (not_timeout_and_error htimeout)
  | none =>
      cases herror : (ReaderKind.parser .error).accepts line with
      | none =>
          refine Or.inl ⟨rfl, fun kind => ?_⟩
          cases kind with
          | timeout => exact htimeout
          | error => exact herror
      | some ev =>
          refine Or.inr ⟨ev, rfl, .error, herror, fun other hother => ?_⟩
          cases other with
          | timeout => exact htimeout
          | error => exact absurd (isKind_of_accepts herror) (by simp [hother])

/-- The events of a kind are those that its parser accepts. -/
theorem filterMap_accepts (kind : ReaderKind) (lines : List PyText) :
    lines.filterMap kind.parser.accepts =
      (lines.filterMap acceptsEvent).filter (isKind kind) := by
  induction lines with
  | nil => rfl
  | cons line lines ih =>
      rcases acceptsEvent_cases line with ⟨hnone, hall⟩ | ⟨ev, hev, accepting,
        haccepts, hothers⟩
      · rw [List.filterMap_cons_none hnone,
          List.filterMap_cons_none (hall kind), ih]
      · rw [List.filterMap_cons_some hev]
        by_cases hkind : isKind kind ev = true
        · have hsome : kind.parser.accepts line = some ev := by
            have hsame : accepting = kind := by
              cases accepting <;> cases kind
              · rfl
              · exact absurd (isKind_of_accepts haccepts)
                  (by simp [isKind_error ev hkind])
              · exact absurd hkind
                  (by simp [isKind_error ev (isKind_of_accepts haccepts)])
              · rfl
            exact hsame ▸ haccepts
          rw [List.filterMap_cons_some hsome, List.filter_cons_of_pos hkind, ih]
        · rw [List.filterMap_cons_none (hothers kind (by simpa using hkind)),
            List.filter_cons_of_neg hkind, ih]

/-- Every event is a timeout or an error. -/
theorem isKind_logEvents {content : Bytes} {ev : NvmeEvent}
    (h : ev ∈ logEvents content) :
    isKind .timeout ev = true ∨ isKind .error ev = true := by
  obtain ⟨line, _, hline⟩ := List.mem_filterMap.mp h
  rcases acceptsEvent_cases line with ⟨hnone, _⟩ | ⟨ev', hev, kind, haccepts, _⟩
  · exact absurd (hline.symm.trans hnone) (by simp)
  · rw [Option.some.inj (hline.symm.trans hev)]
    cases kind with
    | timeout => exact Or.inl (isKind_of_accepts haccepts)
    | error => exact Or.inr (isKind_of_accepts haccepts)

/-- The last events of a device. -/
def lastEvents (device : PyText) (content : Bytes) : List NvmeEvent :=
  ((logEvents content).filter (onDevice device)).rtake maxEvents

/-- A log without events has no last ones. -/
theorem lastEvents_nil (device : PyText) : lastEvents device [] = [] := by
  have hnone : logEvents [] = [] := rfl
  rw [lastEvents, hnone, List.filter_nil, List.rtake_nil]

/-- The windows of both kinds agree with that of the device. -/
def KeepsLast (device : PyText) (content : Bytes) : Prop :=
  ∀ kind : ReaderKind,
    WindowsAgree (isKind kind) (onDevice device) maxEvents (logEvents content)

/-- **The events of the rings are the last of the device exactly if the windows
agree.** -/
theorem rings_perm_iff (device : PyText) (content : Bytes) :
    (shared (isKind .timeout) (onDevice device) maxEvents (logEvents content) ++
      shared (isKind .error) (onDevice device) maxEvents
        (logEvents content)).Perm
        (lastEvents device content) ↔ KeepsLast device content := by
  have hsplit : (lastEvents device content).Perm
      (shared (onDevice device) (isKind .timeout) maxEvents
        (logEvents content) ++
        shared (onDevice device) (isKind .error) maxEvents
          (logEvents content)) := by
    have hrest :
        (lastEvents device content).filter (fun e => !isKind .timeout e)
        = shared (onDevice device) (isKind .error) maxEvents
          (logEvents content) := by
      refine List.filter_congr fun e he => ?_
      have hmem : e ∈ logEvents content :=
        List.mem_of_mem_filter (List.mem_of_mem_drop he)
      rcases isKind_logEvents hmem with h | h
      · have hnot : isKind .error e = false := by
          by_contra herror
          exact absurd h (by simp [isKind_error e (by simpa using herror)])
        rw [h, hnot]
        rfl
      · rw [h, isKind_error e h]
        rfl
    rw [← hrest]
    exact (List.filter_append_perm (isKind .timeout)
      (lastEvents device content)).symm
  have hkinds : ∀ (p q : NvmeEvent → Bool) (e : NvmeEvent),
      e ∈ shared p q maxEvents (logEvents content) →
      p e = true ∧ q e = true := by
    intro p q e he
    have hmem := List.mem_filter.mp he
    exact ⟨(List.mem_filter.mp (List.mem_of_mem_drop hmem.1)).2, hmem.2⟩
  have hof : ∀ {a b : List NvmeEvent}, (∀ e ∈ a, isKind .timeout e = true) →
      (∀ e ∈ b, isKind .error e = true) →
        (a ++ b).filter (isKind .timeout) = a ∧
        (a ++ b).filter (isKind .error) = b := by
    intro a b ha hb
    have hswap : ∀ e, isKind .timeout e = true → isKind .error e = false := by
      intro e he
      by_contra herror
      exact absurd he (by simp [isKind_error e (by simpa using herror)])
    rw [List.filter_append, List.filter_append, List.filter_eq_self.mpr ha,
      List.filter_eq_self.mpr hb,
      List.filter_eq_nil_iff.mpr
        (fun e he => by simp [isKind_error e (hb e he)]),
      List.filter_eq_nil_iff.mpr (fun e he => by simp [hswap e (ha e he)])]
    simp
  constructor
  · intro hperm kind
    have hboth := hperm.trans hsplit
    have hleft :=
      hof (fun e he => (hkinds (isKind .timeout) (onDevice device) e he).1)
      (fun e he => (hkinds (isKind .error) (onDevice device) e he).1)
    have hright :=
      hof (fun e he => (hkinds (onDevice device) (isKind .timeout) e he).2)
      (fun e he => (hkinds (onDevice device) (isKind .error) e he).2)
    refine agree_of_length _ _ _ ?_
    have hkind := (hboth.filter (isKind kind)).length_eq
    cases kind with
    | timeout => rwa [hleft.1, hright.1] at hkind
    | error => rwa [hleft.2, hright.2] at hkind
  · intro h
    rw [shared_eq_of_agree _ _ _ (h .timeout),
      shared_eq_of_agree _ _ _ (h .error)]
    exact hsplit.symm

/-! ### Rings without a gap -/

/-- A reader that has read a log without an exception. -/
structure RingOf (kind : ReaderKind) (r : EventReader) (read : Bytes) :
    Prop where
  cursorAt : CursorAt read r.cursor
  size : r.maxEvents = maxEvents
  ring : r.events.map (NvmeEvent.stamp 0)
    = ((logLines read).filterMap kind.parser.accepts).rtake maxEvents
  readable : ∀ l ∈ logLines read, Succeeds (kind.parser.parse 0 l)

section Ring

variable {kind : ReaderKind} {r : EventReader} {read content : Bytes}
    (h : RingOf kind r read)
  (hgrown : read <+: content) (clock : Nat → ℚ)

include h hgrown

/-- A poll over readable lines succeeds and keeps the ring. -/
theorem RingOf.poll
    (hall : ∀ l ∈ logLines content, Succeeds (kind.parser.parse 0 l)) :
    (∃ found, (r.poll kind.parser clock (some content)).1 = .ok found) ∧
      RingOf kind (r.poll kind.parser clock (some content)).2 content := by
  obtain ⟨hat, hlines⟩ := h.cursorAt.readNewLines hgrown
  have hcontent :
    logLines content =
    logLines read ++ (r.cursor.readNewLines (some content)).1 := hlines
  have hnew : ∀ l ∈ (r.cursor.readNewLines (some content)).1,
      Succeeds (kind.parser.parse 0 l) := by
    intro l hl
    exact hall l (hcontent ▸ List.mem_append_right _ hl)
  obtain ⟨hreply, hring⟩ := poll_of_reads clock hnew
  have hkeeps : 1 ≤ maxEvents := by decide
  refine ⟨⟨_, hreply⟩, ?_, ?_, ?_, hall⟩
  · rw [(poll_cursor clock).1]
    exact hat
  · rw [(poll_cursor clock).2, h.size]
  · rw [hring, h.size, h.ring, rtake_eq_lastSlice hkeeps,
      rtake_eq_lastSlice hkeeps,
      lastSlice_lastSlice_append, hcontent, List.filterMap_append]

/-- A poll over a line that cannot be read raises. -/
theorem RingOf.poll_raises
    (hbad : ∃ l ∈ logLines content, ¬ Succeeds (kind.parser.parse 0 l)) :
    ∃ e, (r.poll kind.parser clock (some content)).1 = .error e := by
  obtain ⟨hat, hlines⟩ := h.cursorAt.readNewLines hgrown
  have hcontent :
    logLines content =
    logLines read ++ (r.cursor.readNewLines (some content)).1 := hlines
  obtain ⟨l, hl, hfails⟩ := hbad
  rw [hcontent] at hl
  rcases List.mem_append.mp hl with hold | hnew
  · exact absurd (h.readable l hold) hfails
  · exact Telemetryd.poll_raises clock ⟨l, hnew, hfails⟩

end Ring

/-! ### Runs -/

/-- A step when no call is interrupted: the log at a call is the same for both
readers. -/
inductive WholeStep where
  | append (bytes : Bytes)
  | getEvents (device : PyText)

/-- The step of the service, which may also append parts of lines. -/
def WholeStep.toStep : WholeStep → ServiceStep
  | append bytes => .append bytes
  | getEvents device => .getEvents device []

/-- A step of the service that appends whole lines. -/
def ServedLog.stepWhole (time : Nat → ℚ) (s : ServedLog) (step : WholeStep) :
    ServedLog :=
  s.step time step.toStep

/-- The last call returned the last 200 events of its device that were in the
log, of both kinds, their times of observation apart. -/
def RetainsLast (s : ServedLog) : Prop :=
  ∀ device reply, s.answer = some (device, reply) →
    ∃ events, reply = .ok events ∧
    (events.map (NvmeEvent.stamp 0)).Perm (lastEvents device s.asked)

/-- At a call, every line of the log has integers Python can convert, and an
event of the device has fewer than 200 events of its kind behind it exactly if
it has fewer than 200 events of the device behind it. -/
def Fits (s : ServedLog) : WholeStep → Prop
  | .append _ => True
  | .getEvents device =>
      (∀ kind : ReaderKind, ∀ l ∈ logLines s.content, kind.Readable l) ∧
      KeepsLast device s.content

/-- The invariant of a run whose calls fit. -/
structure Retaining (s : ServedLog) : Prop where
  rings : ∃ read, read <+: s.content ∧
    RingOf .timeout s.service.sources.1 read ∧
    RingOf .error s.service.sources.2 read
  answers : RetainsLast s

omit [UnicodeDb] in
/-- The device of an event does not depend on when it was seen. -/
theorem onDevice_stamp (device : PyText) (events : List NvmeEvent) :
    (events.filter (fun e => decide (e.device = device))).map
      (NvmeEvent.stamp 0)
      = (events.map (NvmeEvent.stamp 0)).filter (onDevice device) := by
  rw [List.filter_map]
  rfl

/-- The events of the device in a ring. -/
theorem RingOf.shared_eq {kind : ReaderKind} {r : EventReader} {read : Bytes}
    (h : RingOf kind r read)
    (device : PyText) :
    (r.events.filter (fun e => decide (e.device = device))).map
    (NvmeEvent.stamp 0)
      = shared (isKind kind) (onDevice device) maxEvents (logEvents read) := by
  rw [onDevice_stamp, h.ring, filterMap_accepts]
  rfl

section Step

variable (time : Nat → ℚ) {s : ServedLog} (device : PyText)
    {content read : Bytes}

/-- **A call on a log that is read without an exception.** -/
theorem getEvents_perm (hgrown : read <+: content)
    (htimeouts : RingOf .timeout s.service.sources.1 read)
    (herrors : RingOf .error s.service.sources.2 read)
    (hall : ∀ kind : ReaderKind, ∀ l ∈ logLines content,
      Succeeds (kind.parser.parse 0 l)) :
    ∃ events reads timeouts errors,
      s.service.getEvents time s.reads (some content) (some content) device
        = (.ok events, ⟨some (timeouts, errors)⟩, reads) ∧
      RingOf .timeout timeouts content ∧ RingOf .error errors content ∧
      (events.map (NvmeEvent.stamp 0)).Perm
        (shared (isKind .timeout) (onDevice device) maxEvents
          (logEvents content) ++
          shared (isKind .error) (onDevice device) maxEvents
            (logEvents content)) := by
  obtain ⟨⟨found, hfound⟩, hT⟩ := htimeouts.poll hgrown
    (readings time s.reads (s.service.sources.1.fresh (some content)).length)
      (hall .timeout)
  obtain ⟨⟨found', hfound'⟩, hE⟩ := herrors.poll hgrown
    (readings time (s.reads + (s.service.sources.1.fresh (some content)).length)
      (s.service.sources.2.fresh (some content)).length) (hall .error)
  have hcall :=
    getEvents_of_ok time s.reads content (some content) device s.service hfound
  have hreply : (s.service.pollErrors time s.reads content (some content)).1 =
    .ok found' := hfound'
  rw [hreply] at hcall
  refine ⟨_, _, _, _, hcall, hT, hE, ?_⟩
  refine ((List.perm_insertionSort _ _).map (NvmeEvent.stamp 0)).trans ?_
  rw [List.map_append]
  unfold EventService.pollTimeouts EventService.pollErrors
  rw [hT.shared_eq, hE.shared_eq]

/-- A call on a log with a line that is not read raises. -/
theorem getEvents_raises (hgrown : read <+: content)
    (htimeouts : RingOf .timeout s.service.sources.1 read)
    (herrors : RingOf .error s.service.sources.2 read)
    (hbad : ∃ kind : ReaderKind, ∃ l ∈ logLines content,
      ¬ Succeeds (kind.parser.parse 0 l)) :
    ∃ e, (s.service.getEvents time s.reads (some content) (some content)
      device).1 = .error e := by
  cases hfirst : (s.service.pollTimeouts time s.reads content).1 with
  | error e =>
      rw [getEvents_of_error time s.reads content (some content) device
        s.service hfirst]
      exact ⟨e, rfl⟩
  | ok found =>
      obtain ⟨kind, hline⟩ := hbad
      cases kind with
      | timeout =>
          obtain ⟨e, he⟩ := htimeouts.poll_raises hgrown
            (readings time s.reads
              (s.service.sources.1.fresh (some content)).length) hline
          exact absurd (he.symm.trans hfirst) (by simp)
      | error =>
          obtain ⟨e, he⟩ := herrors.poll_raises hgrown
            (readings time (s.reads +
              (s.service.sources.1.fresh (some content)).length)
              (s.service.sources.2.fresh (some content)).length) hline
          have hsecond :
            (s.service.pollErrors time s.reads content (some content)).1 =
            .error e := he
          rw [getEvents_of_ok time s.reads content (some content) device
            s.service hfirst, hsecond]
          exact ⟨e, rfl⟩

/-- A call that fits keeps the invariant, and one that does not returns
something else. -/
theorem retaining_getEvents (h : Retaining s) (device : PyText) :
    (Fits s (.getEvents device) →
      Retaining (s.stepWhole time (.getEvents device))) ∧
      (RetainsLast (s.stepWhole time (.getEvents device)) →
        Fits s (.getEvents device)) := by
  obtain ⟨read, hgrown, htimeouts, herrors⟩ := h.rings
  unfold ServedLog.stepWhole WholeStep.toStep ServedLog.step
  cases hfile : s.file with
  | none =>
      have hcontent : s.content = [] := by rw [ServedLog.content, hfile]; rfl
      have hout : s.service.getEvents time s.reads none none device =
          (.ok [], s.service, s.reads) :=
        if_pos rfl
      simp only [Option.map_none, hout, hcontent]
      rw [hcontent] at hgrown
      refine ⟨fun _ => ⟨⟨read, hgrown, htimeouts, herrors⟩, ?_⟩, fun _ => ?_⟩
      · intro asked reply hanswer
        obtain ⟨rfl, rfl⟩ := Prod.mk.inj (Option.some.inj hanswer)
        refine ⟨[], rfl, ?_⟩
        rw [lastEvents_nil]
        exact List.Perm.nil
      · unfold Fits
        rw [hcontent]
        refine ⟨fun kind l hl => absurd hl List.not_mem_nil,
          fun kind front a rest hl => ?_⟩
        exact absurd hl (by simp [logEvents, logLines, completeLines, cutLines])
  | some content =>
      have hcontent : s.content = content := by
        rw [ServedLog.content, hfile]; rfl
      simp only [Option.map_some, List.append_nil, hcontent]
      rw [hcontent] at hgrown
      unfold Fits
      rw [hcontent]
      simp only [← succeeds_parse_iff]
      constructor
      · rintro ⟨hall, hkeeps⟩
        obtain ⟨events, reads, timeouts, errors, hcall, hT, hE, hperm⟩ :=
          getEvents_perm time device hgrown htimeouts herrors hall
        rw [hcall]
        refine ⟨⟨content, List.prefix_rfl, hT, hE⟩, ?_⟩
        intro asked reply hanswer
        obtain ⟨rfl, rfl⟩ := Prod.mk.inj (Option.some.inj hanswer)
        exact ⟨events, rfl,
          hperm.trans ((rings_perm_iff device content).mpr hkeeps)⟩
      · intro hretains
        obtain ⟨events, hreply, hperm⟩ := hretains device _ rfl
        have hall : ∀ kind : ReaderKind, ∀ l ∈ logLines content,
            Succeeds (kind.parser.parse 0 l) := by
          by_contra hnot
          push Not at hnot
          obtain ⟨e, he⟩ :=
            getEvents_raises time device hgrown htimeouts herrors hnot
          exact absurd (he.symm.trans hreply) (by simp)
        obtain ⟨events', reads, timeouts, errors, hcall, -, -, hperm'⟩ :=
          getEvents_perm time device hgrown htimeouts herrors hall
        rw [hcall] at hreply
        rw [← Except.ok.inj hreply] at hperm
        exact ⟨hall,
          (rings_perm_iff device content).mp (hperm'.symm.trans hperm)⟩

end Step

/-- A service that has just started retains what is to be retained. -/
theorem retaining_start (file : Option Bytes) : Retaining { file := file } := by
  refine ⟨⟨[], List.nil_prefix, ?_, ?_⟩, fun _ _ h => absurd h (by simp)⟩
  · exact ⟨CursorAt.start, rfl, (List.rtake_nil _).symm, fun _ h =>
      absurd h List.not_mem_nil⟩
  · exact ⟨CursorAt.start, rfl, (List.rtake_nil _).symm, fun _ h =>
      absurd h List.not_mem_nil⟩

/-- Appending to the log changes nothing in the service. -/
theorem retaining_append (time : Nat → ℚ) {s : ServedLog} (h : Retaining s)
    (bytes : Bytes) :
    Retaining (s.stepWhole time (.append bytes)) := by
  obtain ⟨read, hgrown, htimeouts, herrors⟩ := h.rings
  exact ⟨⟨read, hgrown.trans (List.prefix_append _ _), htimeouts, herrors⟩,
    h.answers⟩

/-- **When a call returns the last 200 events of its device.**  Throughout a run
of appends and calls, for any devices, every answer is the last events of its
device, at most 200 and of both kinds, exactly if every call fits. -/
theorem retains_last_iff (time : Nat → ℚ) (file : Option Bytes)
    (steps : List WholeStep) :
    Runs.Always (ServedLog.stepWhole time) RetainsLast { file := file } steps ↔
      Runs.Each (ServedLog.stepWhole time) Fits { file := file } steps := by
  refine Runs.always_iff_each (I := Retaining) (fun _ h => h.answers) ?_ ?_
    (retaining_start file)
  · intro s step hs hfits
    cases step with
    | append bytes => exact retaining_append time hs bytes
    | getEvents device => exact (retaining_getEvents time hs device).1 hfits
  · intro s step hs hretains
    cases step with
    | append bytes => trivial
    | getEvents device => exact (retaining_getEvents time hs device).2 hretains

end

/-! ### A busy neighbour -/

section

attribute [local instance] UnicodeDb.ascii

/-- The line of a timeout of a command the collector has not seen. -/
def timeoutOn (ctrl : Int64) : PyText :=
  Collector.timeoutLine {} ⟨1000, ctrl, 1, 5⟩

/-- A timeout of controller 0, and 200 of controller 1. -/
def crowdedLog : Bytes :=
  ascii (timeoutOn 0) ++ newline ::
    (List.replicate 200 (ascii (timeoutOn 1) ++ [newline])).flatten

/-- A line that is written many times is read as often. -/
theorem logLines_replicate {t : PyText} (ht : IsAscii t) (h : '\n' ∉ t)
    (n : Nat) :
    logLines (List.replicate n (ascii t ++ [newline])).flatten =
      List.replicate n t := by
  induction n with
  | zero => rfl
  | succ n ih =>
      rw [List.replicate_succ, List.flatten_cons, List.append_assoc,
        List.singleton_append]
      exact (completeLines_ascii ht h _).trans (congrArg (t :: ·) ih)

/-- The sample lines are lines of ASCII. -/
theorem timeoutOn_plain : (IsAscii (timeoutOn 0) ∧ '\n' ∉ timeoutOn 0) ∧
    (IsAscii (timeoutOn 1) ∧ '\n' ∉ timeoutOn 1) := by
  decide +kernel

/-- They are timeouts of two devices. -/
theorem acceptsEvent_timeoutOn :
    (acceptsEvent (timeoutOn 0)).map (fun e => (e.kind, e.device))
        = some ("timeout".toList, "nvme0".toList) ∧
      (acceptsEvent (timeoutOn 1)).map (fun e => (e.kind, e.device))
        = some ("timeout".toList, "nvme1".toList) := by
  decide +kernel

/-- The sample log has one timeout of the first device and then 200 of the
other. -/
theorem logEvents_crowdedLog :
    ∃ own other, logEvents crowdedLog = own :: List.replicate 200 other ∧
    isKind .timeout own = true ∧ own.device = "nvme0".toList ∧
    isKind .timeout other = true ∧ other.device = "nvme1".toList := by
  have hlines :
      logLines crowdedLog =
      timeoutOn 0 :: List.replicate 200 (timeoutOn 1) := by
    obtain ⟨⟨hascii, hline⟩, hascii', hline'⟩ := timeoutOn_plain
    exact (completeLines_ascii hascii hline _).trans
      (congrArg (timeoutOn 0 :: ·) (logLines_replicate hascii' hline' 200))
  obtain ⟨own, hown, hkind⟩ :=
    Option.map_eq_some_iff.mp acceptsEvent_timeoutOn.1
  obtain ⟨other, hother, hkind'⟩ :=
    Option.map_eq_some_iff.mp acceptsEvent_timeoutOn.2
  refine ⟨own, other, ?_, ?_, (Prod.mk.inj hkind).2, ?_, (Prod.mk.inj hkind').2⟩
  · unfold logEvents
    rw [hlines, List.filterMap_cons_some hown,
      List.filterMap_replicate_of_some hother]
  · exact decide_eq_true (Prod.mk.inj hkind).1
  · exact decide_eq_true (Prod.mk.inj hkind').1

/-- The only event of controller 0 is not returned. -/
theorem crowded_out :
    ¬ Runs.Always (ServedLog.stepWhole (fun n => n)) RetainsLast
    { file := some crowdedLog } [.getEvents "nvme0".toList] := by
  intro hall
  have hretains :
    RetainsLast (ServedLog.stepWhole (fun n => n) { file := some crowdedLog }
    (.getEvents "nvme0".toList)) := hall.2
  obtain ⟨-, hkeeps⟩ :=
    (retaining_getEvents (fun n => n) (retaining_start (some crowdedLog))
      "nvme0".toList).2 hretains
  obtain ⟨own, other, hevents, hown, hdevice, hother, hdevice'⟩ :=
    logEvents_crowdedLog
  have hmine : onDevice "nvme0".toList own = true := decide_eq_true hdevice
  have hnone : onDevice "nvme0".toList other = false := by
    unfold onDevice
    rw [hdevice']
    decide
  have hagree :=
    hkeeps .timeout [] own (List.replicate 200 other) hevents hown hmine
  rw [List.countP_replicate, List.countP_replicate, hother, hnone] at hagree
  exact absurd hagree (by decide)

end

end Telemetryd
