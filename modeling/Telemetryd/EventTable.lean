import Mathlib.Data.Char
import Mathlib.Data.List.Lex
import Telemetryd.EventTimes
import Telemetryd.Lib.OrderedDict

/-!
# The table of events

The event tab of the page (`renderEvents` and what is around it).  Every message
brings all events of the device again, so the page makes a text of what it would
draw, and leaves the table alone if this is the text of the last drawing.  A row
with details is opened and closed by a click, and the page knows it again by a
key.

The text says less than the rows do: of an event it has the kind, the time, the
queue and one or two numbers.  That the table still shows what the last message
brought rests on the service, which reads the clock for every line.
-/

namespace Telemetryd

open PyText Utf8 PyError Regex

section Join

variable {sep : Char}

/-- Words without the separator are read back from their join. -/
theorem join_inj {l l' : List PyText} (h : ∀ w ∈ l, w ≠ [] ∧ sep ∉ w)
    (h' : ∀ w ∈ l', w ≠ [] ∧ sep ∉ w)
    (heq : join [sep] l = join [sep] l') : l = l' := by
  have hnil : ∀ {w : PyText} {rest : List PyText}, w ≠ [] →
      join [sep] (w :: rest) ≠ [] := by
    intro w rest hw
    cases rest with
    | nil => rwa [join_singleton]
    | cons v rest =>
        rw [join_cons_cons]
        exact fun hempty => hw (List.append_eq_nil_iff.mp hempty).1
  -- a single word has no separator, several words do
  have hone : ∀ {w v u : PyText} {rest : List PyText}, sep ∉ w →
      join [sep] [w] ≠ join [sep] (v :: u :: rest) := by
    intro w v u rest hw hsame
    rw [join_singleton, join_cons_cons] at hsame
    exact hw (by rw [hsame]; simp)
  induction l generalizing l' with
  | nil =>
      cases l' with
      | nil => rfl
      | cons w rest => exact absurd heq.symm (hnil (h' w List.mem_cons_self).1)
  | cons w rest ih =>
      obtain ⟨hw, hrest⟩ := List.forall_mem_cons.mp h
      cases l' with
      | nil => exact absurd heq (hnil hw.1)
      | cons w' rest' =>
          obtain ⟨hw', hrest'⟩ := List.forall_mem_cons.mp h'
          cases rest with
          | nil =>
              cases rest' with
              | nil =>
                  rw [join_singleton, join_singleton] at heq
                  rw [heq]
              | cons v rest' => exact absurd heq (hone hw.2)
          | cons v rest =>
              cases rest' with
              | nil => exact absurd heq.symm (hone hw'.2)
              | cons v' rest' =>
                  rw [join_cons_cons, join_cons_cons] at heq
                  obtain ⟨rfl, htail⟩ := append_first_inj hw.2 hw'.2 heq
                  rw [ih hrest hrest' htail]

end Join

/-! ### The page -/

/-- A row: the event and, if there are details of its kind, whether they are
shown under it. -/
structure EventRow where
  event : NvmeEvent
  opened : Option Bool
  deriving DecidableEq

/-- The event tab.  `reply` is what the rows were drawn from, which their click
handlers hold.  Without `rows` the body is empty; drawn from no events it has a
line that says so. -/
structure EventTable where
  kindFilter : PyText := []
  kindOptions : List PyText := [[]]
  expanded : List PyText := []
  lastSig : Option PyText := none
  status : OrderedDict PyText Nat := .empty
  reply : List NvmeEvent := []
  rows : Option (List EventRow) := none

/-- The kinds in `EVENT_DETAIL_RENDERERS`. -/
def hasRenderer (kind : PyText) : Bool :=
  decide (kind = "timeout".toList ∨ kind = "error".toList)

/-- What `eventKey` has of the details. -/
def eventId (e : NvmeEvent) : PyText :=
  match e.timeout with
  | some timeout => 't' :: ofInt timeout.tag
  | none => match e.error with
    | some error => 'c' :: ofInt error.cid ++ '/' :: ofInt error.status
    | none => []

section

variable (number : ℚ → PyText)

/-- `eventKey`; `number` is how the page writes a double. -/
def eventKey (e : NvmeEvent) : PyText :=
  e.kind ++ '|' ::
    (number e.observedAt ++ '|' :: (ofInt e.qid ++ '|' :: eventId e))

/-- The events that pass the filter, the latest first. -/
def shownEvents (kindFilter : PyText) (reply : List NvmeEvent) :
    List NvmeEvent :=
  (if kindFilter = [] then reply else reply.filter fun e =>
    decide (e.kind = kindFilter)).reverse

/-- The signature of a drawing. -/
def eventSig (kindFilter : PyText) (expanded : List PyText)
    (reply : List NvmeEvent) : PyText :=
  join [','] ((shownEvents kindFilter reply).map (eventKey number)) ++
    '#' :: join [','] (expanded.insertionSort (· ≤ ·))

/-- The rows of a drawing. -/
def drawEvents (kindFilter : PyText) (expanded : List PyText)
    (reply : List NvmeEvent) : List EventRow :=
  (shownEvents kindFilter reply).map fun e =>
    ⟨e, if hasRenderer e.kind then some (decide (eventKey number e ∈ expanded))
      else none⟩

/-- `syncEventKindOptions` -/
def syncEventKindOptions (options kinds : List PyText) : List PyText :=
  kinds.foldl (fun options kind => if kind ∈ options then options
    else options ++ [kind]) options

/-- How many events there are of each kind. -/
def countKinds (reply : List NvmeEvent) : OrderedDict PyText Nat :=
  reply.foldl (fun counts e =>
    counts.insert e.kind ((counts.get? e.kind).getD 0 + 1)) .empty

/-- `renderEvents` -/
def EventTable.renderEvents (reply : List NvmeEvent) (t : EventTable) :
    EventTable :=
  let t := { t with
    kindOptions := syncEventKindOptions t.kindOptions (reply.map NvmeEvent.kind)
    status := countKinds reply }
  let sig := eventSig number t.kindFilter t.expanded reply
  if t.lastSig = some sig then t
  else { t with
    lastSig := some sig
    reply := reply
    rows := some (drawEvents number t.kindFilter t.expanded reply) }

/-- Add the key, or delete it. -/
def toggled (key : PyText) (expanded : List PyText) : List PyText :=
  if key ∈ expanded then expanded.filter fun k => decide (k ≠ key)
    else expanded ++ [key]

/-- A click on a row. -/
def EventTable.press (n : Nat) (t : EventTable) : EventTable :=
  match t.rows.bind (·[n]?) with
  | some ⟨e, some _⟩ =>
      { t with expanded := toggled (eventKey number e) t.expanded, lastSig := none }.renderEvents
        number t.reply
  | _ => t

/-- A kind is picked from the options. -/
def EventTable.chooseKind (kind : PyText) (t : EventTable) : EventTable :=
  if kind ∈ t.kindOptions then { t with kindFilter := kind, lastSig := none }
    else t

/-- What happens to the event tab and the service behind it.  A message brings
one of the answers so far. -/
inductive EventTurn where
  | serve (step : ServiceStep)
  | message (i : Nat)
  | press (n : Nat)
  | chooseKind (kind : PyText)
  | refresh
  | selectDevice (device : PyText)

/-- The event tab of a page, the service behind it and what its calls
returned. -/
structure EventTab where
  served : ServedLog
  answers : List (PyText × List NvmeEvent) := []
  device : Option PyText := none
  table : EventTable := {}

section

variable [UnicodeDb]

/-- What the step adds to the answers. -/
def ServedLog.reply (s : ServedLog) :
    ServiceStep → List (PyText × List NvmeEvent)
  | .append _ => []
  | .getEvents _ _ => match s.answer with
    | some (device, .ok events) => [(device, events)]
    | _ => []

/-- One turn of the tab and its service. -/
def EventTab.step (time : Nat → ℚ) (tab : EventTab) : EventTurn → EventTab
  | .serve step => { tab with
      served := tab.served.step time step
      answers := tab.answers ++ (tab.served.step time step).reply step }
  | .message i => match tab.answers[i]? with
    | some (device, events) =>
        if tab.device = some device
          then { tab with table := tab.table.renderEvents number events }
        else tab
    | none => tab
  | .press n => { tab with table := tab.table.press number n }
  | .chooseKind kind => { tab with table := tab.table.chooseKind kind }
  | .refresh => { tab with table := { tab.table with lastSig := none } }
  | .selectDevice device => { tab with device := some device, table := {} }

/-- The tab after some turns, the first one opened on a log. -/
def EventTab.after (time : Nat → ℚ) (file : Option Bytes)
    (turns : List EventTurn) : EventTab :=
  turns.foldl (EventTab.step number time) { served := { file := file } }

end

end

/-! ### Keys and signatures -/

/-- What the page takes for granted: a number is written without the separators,
and no two readings of the clock are written alike. -/
structure Written (number : ℚ → PyText) (time : Nat → ℚ) : Prop where
  plain : ∀ q, ∀ c ∈ number q, c ≠ '|' ∧ c ≠ ','
  apart : Function.Injective fun n => number (time n)

section Keys

variable {number : ℚ → PyText} {time : Nat → ℚ} {reads : Nat}
    {seen : List (Nat × NvmeEvent)}

/-- Different times are written differently. -/
theorem Written.injective (h : Written number time) : Function.Injective time :=
  fun _ _ heq => h.apart (congrArg number heq)

/-- A key is not empty. -/
theorem eventKey_ne_nil (number : ℚ → PyText) (e : NvmeEvent) :
    eventKey number e ≠ [] := by
  simp [eventKey]

/-- A separator is neither a digit nor a sign. -/
theorem notMem_ofInt {c : Char} (hdigit : c.isDigit = false) (hsign : c ≠ '-')
    (i : Int) : c ∉ ofInt i := by
  have hnat : ∀ n, c ∉ PyText.ofNat n := by
    intro n hc
    rw [isDigit_of_mem_ofNat hc] at hdigit
    exact Bool.noConfusion hdigit
  cases i with
  | ofNat n => exact hnat n
  | negSucc n =>
      intro hc
      rcases List.mem_cons.mp hc with hc | hc
      · exact hsign hc
      · exact hnat _ hc

/-- An id has no comma. -/
theorem comma_notMem_eventId (e : NvmeEvent) : ',' ∉ eventId e := by
  have hint := notMem_ofInt (c := ',') (by decide) (by decide)
  unfold eventId
  cases e.timeout with
  | some timeout => simp [hint]
  | none =>
      cases e.error with
      | some error => simp [hint]
      | none => simp

/-- Nor has a key. -/
theorem comma_notMem_eventKey (h : Written number time) {e : NvmeEvent}
    (hkind : ∃ kind, isKind kind e = true) : ',' ∉ eventKey number e := by
  obtain ⟨kind, hkind⟩ := hkind
  have hlabel : ',' ∉ e.kind := by
    rw [of_decide_eq_true hkind]
    cases kind <;> decide
  have hnumber : ',' ∉ number e.observedAt := fun hc => (h.plain _ _ hc).2 rfl
  have hint := notMem_ofInt (c := ',') (by decide) (by decide) e.qid
  simp [eventKey, hlabel, hnumber, hint, comma_notMem_eventId]

/-- **The key tells the events apart**, by the time alone. -/
theorem Observed.eventKey_inj (hseen : Observed time reads seen)
    (h : Written number time)
    {e e' : NvmeEvent} (he : e ∈ seen.map Prod.snd)
    (he' : e' ∈ seen.map Prod.snd)
    (heq : eventKey number e = eventKey number e') : e = e' := by
  obtain ⟨a, ha, rfl⟩ := List.mem_map.mp he
  obtain ⟨b, hb, rfl⟩ := List.mem_map.mp he'
  have hkind : ∀ c ∈ seen, '|' ∉ c.2.kind := by
    intro c hc
    obtain ⟨kind, hkind⟩ := hseen.kind c hc
    rw [of_decide_eq_true hkind]
    cases kind <;> decide
  have hnumber : ∀ q, '|' ∉ number q := fun q hc => (h.plain q _ hc).1 rfl
  obtain ⟨-, hrest⟩ := append_first_inj (hkind a ha) (hkind b hb) heq
  obtain ⟨htime, -⟩ := append_first_inj (hnumber _) (hnumber _) hrest
  rw [hseen.stamped a ha, hseen.stamped b hb] at htime
  rw [hseen.eq_of_reading ha hb (h.apart htime)]

/-- The shown events were in the reply. -/
theorem mem_shownEvents {kindFilter : PyText} {reply : List NvmeEvent}
    {e : NvmeEvent}
    (h : e ∈ shownEvents kindFilter reply) : e ∈ reply := by
  unfold shownEvents at h
  rw [List.mem_reverse] at h
  split_ifs at h
  · exact h
  · exact List.mem_of_mem_filter h

/-- If those of the reply differ, the shown ones do. -/
theorem nodup_shownEvents (kindFilter : PyText) {reply : List NvmeEvent}
    (h : reply.Nodup) :
    (shownEvents kindFilter reply).Nodup := by
  unfold shownEvents
  rw [List.nodup_reverse]
  split_ifs
  · exact h
  · exact h.filter _

/-- **The signature tells apart what is shown.** -/
theorem Observed.shownEvents_eq (hseen : Observed time reads seen)
    (h : Written number time)
    {kindFilter : PyText} {expanded : List PyText}
    {reply reply' : List NvmeEvent}
    (hreply : reply ⊆ seen.map Prod.snd) (hreply' : reply' ⊆ seen.map Prod.snd)
    (heq : eventSig number kindFilter expanded reply =
      eventSig number kindFilter expanded reply') :
    shownEvents kindFilter reply = shownEvents kindFilter reply' := by
  have hword : ∀ {reply : List NvmeEvent}, reply ⊆ seen.map Prod.snd →
      ∀ w ∈ (shownEvents kindFilter reply).map (eventKey number), w ≠ [] ∧
        ',' ∉ w := by
    intro reply hreply w hw
    obtain ⟨e, he, rfl⟩ := List.mem_map.mp hw
    obtain ⟨a, ha, rfl⟩ := List.mem_map.mp (hreply (mem_shownEvents he))
    exact ⟨eventKey_ne_nil number _, comma_notMem_eventKey h (hseen.kind a ha)⟩
  have hkeys :=
    join_inj (hword hreply) (hword hreply') (List.append_cancel_right heq)
  have hlength : (shownEvents kindFilter reply).length =
      (shownEvents kindFilter reply').length := by
    simpa using congrArg List.length hkeys
  refine List.ext_getElem hlength fun n hn hn' => ?_
  refine hseen.eventKey_inj h (hreply (mem_shownEvents (List.getElem_mem hn)))
    (hreply' (mem_shownEvents (List.getElem_mem hn'))) ?_
  have hat := congrArg (·[n]?) hkeys
  simpa [hn, hn'] using hat

end Keys

/-! ### What the table shows -/

section Table

variable {number : ℚ → PyText} {time : Nat → ℚ} {t : EventTable}

/-- The rows are those of the reply they were drawn from. -/
def EventTable.Drawn (number : ℚ → PyText) (t : EventTable) : Prop :=
  t.rows = some (drawEvents number t.kindFilter t.expanded t.reply)

/-- The last signature is that of the rows. -/
def EventTable.Signed (number : ℚ → PyText) (t : EventTable) : Prop :=
  ∀ sig, t.lastSig = some sig →
    sig = eventSig number t.kindFilter t.expanded t.reply ∧ t.Drawn number

/-- The rows are those of these events. -/
structure EventTable.Shows (number : ℚ → PyText) (t : EventTable)
    (events : List NvmeEvent) : Prop where
  drawn : t.Drawn number
  same : shownEvents t.kindFilter t.reply = shownEvents t.kindFilter events

/-- The rows of a table that shows some events. -/
theorem EventTable.Shows.rows {events : List NvmeEvent}
    (h : t.Shows number events) :
    t.rows = some (drawEvents number t.kindFilter t.expanded events) := by
  rw [h.drawn]
  unfold drawEvents
  rw [h.same]

/-- **What a drawing changes**: no more than the options and the status, if the
signature is the last one. -/
theorem EventTable.renderEvents_cases (number : ℚ → PyText)
    (reply : List NvmeEvent) (t : EventTable) :
    (t.renderEvents number reply).kindFilter = t.kindFilter ∧
    (t.renderEvents number reply).expanded = t.expanded ∧
    ((t.lastSig = some (eventSig number t.kindFilter t.expanded reply) ∧
        (t.renderEvents number reply).lastSig = t.lastSig ∧
        (t.renderEvents number reply).reply = t.reply ∧
        (t.renderEvents number reply).rows = t.rows) ∨
      (t.lastSig ≠ some (eventSig number t.kindFilter t.expanded reply) ∧
        (t.renderEvents number reply).reply = reply ∧
        (t.renderEvents number reply).Signed number ∧
        (t.renderEvents number reply).Drawn number)) := by
  unfold EventTable.renderEvents
  dsimp only
  split
  case isTrue h => exact ⟨rfl, rfl, Or.inl ⟨h, rfl, rfl, rfl⟩⟩
  case isFalse h =>
    exact ⟨rfl, rfl,
      Or.inr ⟨h, rfl, fun sig hsig => ⟨(Option.some.inj hsig).symm, rfl⟩, rfl⟩⟩

/-- **After a message the table shows what it brought**, drawn again or not. -/
theorem EventTable.Signed.renderEvents (hsigned : t.Signed number)
    (h : Written number time)
    {reads : Nat} {seen : List (Nat × NvmeEvent)}
    (hseen : Observed time reads seen)
    (hold : t.reply ⊆ seen.map Prod.snd) {reply : List NvmeEvent}
    (hnew : reply ⊆ seen.map Prod.snd) :
    (t.renderEvents number reply).Signed number ∧
      (t.renderEvents number reply).Shows number reply := by
  obtain ⟨hfilter, hexpanded,
      ⟨hsame, hlast, hreply, hrows⟩ | ⟨-, hreply, hsigned', hdrawn⟩⟩ :=
    t.renderEvents_cases number reply
  · obtain ⟨hsig, hdrawn⟩ := hsigned _ hsame
    have hdrawn' : (t.renderEvents number reply).Drawn number := by
      unfold EventTable.Drawn
      rw [hrows, hfilter, hexpanded, hreply]
      exact hdrawn
    refine ⟨fun sig h => ⟨?_, hdrawn'⟩, hdrawn', ?_⟩
    · rw [hfilter, hexpanded, hreply]
      exact (hsigned sig (hlast.symm.trans h)).1
    · rw [hfilter, hreply]
      exact hseen.shownEvents_eq h hold hnew hsig.symm
  · exact ⟨hsigned', hdrawn, by rw [hreply]⟩

/-- **What a click on a row with details changes.** -/
theorem EventTable.press_of_row (number : ℚ → PyText) (t : EventTable)
    {rows : List EventRow} {n : Nat} {e : NvmeEvent} {opened : Bool}
    (hrows : t.rows = some rows) (hrow : rows[n]? = some ⟨e, some opened⟩) :
    (t.press number n).kindFilter = t.kindFilter ∧
    (t.press number n).expanded = toggled (eventKey number e) t.expanded ∧
    (t.press number n).reply = t.reply ∧ (t.press number n).Signed number ∧
    (t.press number n).Drawn number := by
  have hbind : t.rows.bind (·[n]?) = some ⟨e, some opened⟩ := by
    rw [hrows, Option.bind_some, hrow]
  unfold EventTable.press
  rw [hbind]
  obtain ⟨hfilter, hexpanded, ⟨hnone, -⟩ | ⟨-, hreply, hsigned, hdrawn⟩⟩ :=
    EventTable.renderEvents_cases number t.reply
      { t with expanded := toggled (eventKey number e) t.expanded, lastSig := none }
  · exact absurd hnone (by simp)
  · exact ⟨hfilter, hexpanded, hreply, hsigned, hdrawn⟩

/-- A press expands or folds a row, or does nothing. -/
theorem EventTable.press_cases (number : ℚ → PyText) (n : Nat)
    (t : EventTable) :
    t.press number n = t ∨ ((t.press number n).kindFilter = t.kindFilter ∧
      (t.press number n).reply = t.reply ∧ (t.press number n).Signed number ∧
      (t.press number n).Drawn number) := by
  cases hrow : t.rows.bind (·[n]?) with
  | none =>
      left
      unfold EventTable.press
      rw [hrow]
  | some row =>
      obtain ⟨e, mark⟩ := row
      cases mark with
      | none =>
          left
          unfold EventTable.press
          rw [hrow]
      | some opened =>
          obtain ⟨rows, hrows, hat⟩ := Option.bind_eq_some_iff.mp hrow
          obtain ⟨hfilter, -, hreply, hsigned, hdrawn⟩ :=
            EventTable.press_of_row number t hrows hat
          exact Or.inr ⟨hfilter, hreply, hsigned, hdrawn⟩

/-- A press keeps the signature. -/
theorem EventTable.Signed.press (h : t.Signed number) (n : Nat) :
    (t.press number n).Signed number := by
  rcases t.press_cases number n with hsame | ⟨-, -, hsigned, -⟩
  · rwa [hsame]
  · exact hsigned

/-- A press keeps the reply. -/
theorem EventTable.reply_press (number : ℚ → PyText) (n : Nat)
    (t : EventTable) :
    (t.press number n).reply = t.reply := by
  rcases t.press_cases number n with hsame | ⟨-, hreply, -, -⟩
  · rw [hsame]
  · exact hreply

/-- A press keeps the events that are shown. -/
theorem EventTable.Shows.press {events : List NvmeEvent}
    (h : t.Shows number events) (n : Nat) :
    (t.press number n).Shows number events := by
  rcases t.press_cases number n with hsame | ⟨hfilter, hreply, -, hdrawn⟩
  · rwa [hsame]
  · exact ⟨hdrawn, by rw [hfilter, hreply]; exact h.same⟩

/-- Toggling changes one key and no other. -/
theorem mem_toggled {key k : PyText} {expanded : List PyText} :
    k ∈ toggled key expanded ↔ if k = key then key ∉ expanded
      else k ∈ expanded := by
  unfold toggled
  by_cases hkey : key ∈ expanded
  · rw [if_pos hkey, List.mem_filter, decide_eq_true_iff]
    split_ifs with hk
    · simp [hk, hkey]
    · simp [hk]
  · rw [if_neg hkey, List.mem_append, List.mem_singleton]
    split_ifs with hk
    · simp [hk, hkey]
    · simp [hk]

/-- **A click on a row with details** opens or closes it, and no other one. -/
theorem EventTable.Drawn.press (hdrawn : t.Drawn number)
    (h : Written number time) {reads : Nat}
    {seen : List (Nat × NvmeEvent)} (hseen : Observed time reads seen)
    (hreply : Answered seen t.reply)
    {rows : List EventRow} (hrows : t.rows = some rows) {n : Nat}
    {e : NvmeEvent} {opened : Bool}
    (hrow : rows[n]? = some ⟨e, some opened⟩) :
    (t.press number n).rows = some (rows.set n ⟨e, some (!opened)⟩) := by
  obtain ⟨hfilter, hexpanded, hreply', -, hdrawn'⟩ :=
    EventTable.press_of_row number t hrows hrow
  obtain rfl : drawEvents number t.kindFilter t.expanded t.reply = rows :=
    Option.some.inj (hdrawn.symm.trans hrows)
  rw [hdrawn', hfilter, hexpanded, hreply']
  have hnodup := nodup_shownEvents t.kindFilter hreply.nodup
  have hmem : ∀ e' ∈ shownEvents t.kindFilter t.reply, e' ∈ seen.map Prod.snd :=
    fun e' he' => hreply.seen (mem_shownEvents he')
  unfold drawEvents at hrow ⊢
  set shown := shownEvents t.kindFilter t.reply with hshown
  rw [List.getElem?_map] at hrow
  obtain ⟨e', hat, hdraw⟩ := Option.map_eq_some_iff.mp hrow
  obtain ⟨rfl, hmark⟩ := EventRow.mk.inj hdraw
  obtain ⟨hn, hget⟩ := List.getElem?_eq_some_iff.mp hat
  refine congrArg some (List.ext_getElem (by simp) fun j hj hj' => ?_)
  rw [List.getElem_set, List.getElem_map]
  rw [List.length_map] at hj
  by_cases hjn : n = j
  · subst hjn
    split_ifs at hmark with hrenderer
    have hopened := Option.some.inj hmark
    rw [if_pos rfl, hget, if_pos hrenderer, ← hopened, ← decide_not]
    simp only [mem_toggled, if_pos]
  · -- another event, so another key
    have hkey : eventKey number shown[j] ≠ eventKey number e' := by
      intro heq
      have hsame := hseen.eventKey_inj h (hmem _ (List.getElem_mem hj))
        (hmem e' (hget ▸ List.getElem_mem hn)) heq
      rw [← hget] at hsame
      exact hjn ((hnodup.getElem_inj_iff.mp hsame).symm)
    rw [if_neg hjn, List.getElem_map]
    simp only [mem_toggled, if_neg hkey]

end Table

/-! ### Runs -/

section Tab

variable [UnicodeDb] {number : ℚ → PyText} {time : Nat → ℚ}

/-- The invariant of a run. -/
structure EventTab.Kept (number : ℚ → PyText) (time : Nat → ℚ) (tab : EventTab)
    (seen : List (Nat × NvmeEvent)) : Prop where
  dated : tab.served.Dated time seen
  answers : ∀ answer ∈ tab.answers, Answered seen answer.2
  reply : Answered seen tab.table.reply
  signed : tab.table.Signed number

omit [UnicodeDb] in
/-- The signature of an empty table. -/
theorem eventTable_signed_start (number : ℚ → PyText) :
    EventTable.Signed number {} :=
  fun _ h => absurd h (by simp)

omit [UnicodeDb] in
/-- A reply is the answer to a call. -/
theorem ServedLog.mem_reply {s : ServedLog} {step : ServiceStep}
    {answer : PyText × List NvmeEvent}
    (h : answer ∈ s.reply step) :
    ∃ device between, step = .getEvents device between ∧
      s.answer = some (answer.1, .ok answer.2) := by
  cases step with
  | append bytes => exact absurd h List.not_mem_nil
  | getEvents asked between =>
      refine ⟨asked, between, rfl, ?_⟩
      cases hanswer : s.answer with
      | none =>
          simp only [ServedLog.reply, hanswer] at h
          exact absurd h List.not_mem_nil
      | some found =>
          obtain ⟨device, outcome⟩ := found
          cases outcome with
          | error e =>
              simp only [ServedLog.reply, hanswer] at h
              exact absurd h List.not_mem_nil
          | ok events =>
              simp only [ServedLog.reply, hanswer] at h
              rw [List.mem_singleton.mp h]

/-- A step of the service keeps what is known of the tab. -/
theorem EventTab.Kept.serve {tab : EventTab} {seen : List (Nat × NvmeEvent)}
    (h : tab.Kept number time seen)
    (htime : Function.Injective time) (step : ServiceStep) :
    ∃ more, (tab.step number time (.serve step)).Kept number time
      (seen ++ more) := by
  obtain ⟨more, hdated, hanswer⟩ := h.dated.step htime step
  refine ⟨more, hdated, fun answer hmem => ?_, h.reply.append more, h.signed⟩
  rcases List.mem_append.mp hmem with hold | hnew
  · exact (h.answers answer hold).append more
  · obtain ⟨device, between, hstep, hreply⟩ := ServedLog.mem_reply hnew
    exact hanswer _ _ _ _ hstep hreply

/-- An answer for the device of the page arrives. -/
theorem EventTab.Kept.message {tab : EventTab} {seen : List (Nat × NvmeEvent)}
    (h : tab.Kept number time seen) (hwritten : Written number time) {i : Nat}
    {device : PyText}
    {events : List NvmeEvent}
    (hanswer : tab.answers[i]? = some (device, events))
    (hdevice : tab.device = some device) :
    (tab.step number time (.message i)).Kept number time seen ∧
      (tab.step number time (.message i)).table.Shows number events := by
  have hstep : tab.step number time (.message i)
      = { tab with table := tab.table.renderEvents number events } := by
    unfold EventTab.step
    dsimp only
    rw [hanswer]
    exact if_pos hdevice
  have hevents := h.answers _ (List.mem_of_getElem? hanswer)
  obtain ⟨hsigned, hshows⟩ :=
    h.signed.renderEvents hwritten h.dated.observed h.reply.seen hevents.seen
  rw [hstep]
  refine ⟨⟨h.dated, h.answers, ?_, hsigned⟩, hshows⟩
  obtain ⟨-, -, ⟨-, -, hreply, -⟩ | ⟨-, hreply, -, -⟩⟩ :=
    tab.table.renderEvents_cases number events
  · exact hreply.symm ▸ h.reply
  · exact hreply.symm ▸ hevents

/-- **A turn** keeps what is known of the tab. -/
theorem EventTab.Kept.step {tab : EventTab} {seen : List (Nat × NvmeEvent)}
    (h : tab.Kept number time seen)
    (hwritten : Written number time) (turn : EventTurn) :
    ∃ more, (tab.step number time turn).Kept number time (seen ++ more) := by
  cases turn with
  | serve step => exact h.serve hwritten.injective step
  | message i =>
      refine ⟨[], ?_⟩
      rw [List.append_nil]
      cases hanswer : tab.answers[i]? with
      | none =>
          unfold EventTab.step
          dsimp only
          rwa [hanswer]
      | some answer =>
          by_cases hdevice : tab.device = some answer.1
          · exact (h.message hwritten hanswer hdevice).1
          · unfold EventTab.step
            dsimp only
            rw [hanswer]
            dsimp only
            rwa [if_neg hdevice]
  | press n =>
      refine ⟨[], ?_⟩
      rw [List.append_nil]
      refine ⟨h.dated, h.answers, ?_, h.signed.press n⟩
      exact (tab.table.reply_press number n).symm ▸ h.reply
  | chooseKind kind =>
      refine ⟨[], ?_⟩
      rw [List.append_nil]
      unfold EventTab.step EventTable.chooseKind
      dsimp only
      split
      case isTrue =>
        exact ⟨h.dated, h.answers, h.reply, fun _ hsig => absurd hsig (by simp)⟩
      case isFalse => exact h
  | refresh =>
      refine ⟨[], ?_⟩
      rw [List.append_nil]
      exact ⟨h.dated, h.answers, h.reply, fun _ hsig =>
        absurd hsig (by simp [EventTab.step])⟩
  | selectDevice device =>
      refine ⟨[], ?_⟩
      rw [List.append_nil]
      exact ⟨h.dated, h.answers, answered_nil _, eventTable_signed_start number⟩

/-- It is known after all turns. -/
theorem EventTab.kept_after (hwritten : Written number time)
    (file : Option Bytes)
    (turns : List EventTurn) :
    ∃ seen, (EventTab.after number time file turns).Kept number time seen := by
  unfold EventTab.after
  induction turns using List.reverseRecOn with
  | nil =>
      exact ⟨[], ServedLog.dated_start time file, fun _ h =>
        absurd h List.not_mem_nil, answered_nil [],
        eventTable_signed_start number⟩
  | append_singleton turns turn ih =>
      obtain ⟨seen, hkept⟩ := ih
      obtain ⟨more, hnext⟩ := hkept.step hwritten turn
      rw [List.foldl_append]
      exact ⟨seen ++ more, hnext⟩

/-- Turns that bring no message and leave the filter and the device alone. -/
def EventTurn.Quiet : EventTurn → Prop
  | .serve _ | .press _ | .refresh => True
  | .message _ | .chooseKind _ | .selectDevice _ => False

/-- A quiet turn keeps the events that are shown. -/
theorem EventTab.shows_step {tab : EventTab} {events : List NvmeEvent}
    (h : tab.table.Shows number events)
    (time : Nat → ℚ) {turn : EventTurn} (hquiet : turn.Quiet) :
    (tab.step number time turn).table.Shows number events := by
  cases turn with
  | serve step => exact h
  | press n => exact h.press n
  | refresh => exact ⟨h.drawn, h.same⟩
  | message i => exact hquiet.elim
  | chooseKind kind => exact hquiet.elim
  | selectDevice device => exact hquiet.elim

/-- Turns that leave the filter alone. -/
def EventTurn.KeepsFilter : EventTurn → Prop
  | .chooseKind _ => False
  | _ => True

/-- The table is empty or shows what it was drawn from. -/
theorem EventTab.drawn_step {tab : EventTab} {seen : List (Nat × NvmeEvent)}
    (hkept : tab.Kept number time seen) (hwritten : Written number time)
    (h : tab.table.rows = none ∨ tab.table.Drawn number) {turn : EventTurn}
    (hturn : turn.KeepsFilter) :
    (tab.step number time turn).table.rows = none ∨
      (tab.step number time turn).table.Drawn number := by
  cases turn with
  | serve step => exact h
  | refresh => exact h
  | chooseKind kind => exact hturn.elim
  | selectDevice device => exact Or.inl rfl
  | press n =>
      rcases tab.table.press_cases number n with hsame | ⟨-, -, -, hdrawn⟩
      · change (tab.table.press number n).rows = none ∨
          (tab.table.press number n).Drawn number
        rwa [hsame]
      · exact Or.inr hdrawn
  | message i =>
      cases hanswer : tab.answers[i]? with
      | none =>
          unfold EventTab.step
          dsimp only
          rwa [hanswer]
      | some answer =>
          by_cases hdevice : tab.device = some answer.1
          · exact Or.inr (hkept.message hwritten hanswer hdevice).2.drawn
          · unfold EventTab.step
            dsimp only
            rw [hanswer]
            dsimp only
            rwa [if_neg hdevice]

section Message

variable (hwritten : Written number time) (file : Option Bytes)
    (before after : List EventTurn) {i : Nat}
  {device : PyText} {events : List NvmeEvent}
  (hanswer : (EventTab.after number time file before).answers[i]? =
    some (device, events))
  (hdevice : (EventTab.after number time file before).device = some device)

include hwritten hanswer hdevice

/-- The table right after the message. -/
theorem EventTab.after_message : ∃ seen,
    (EventTab.after number time file (before ++ [.message i])).Kept number
      time seen ∧
    (EventTab.after number time file (before ++ [.message i])).table.Shows
      number events := by
  obtain ⟨seen, hkept⟩ := EventTab.kept_after hwritten file before
  unfold EventTab.after at *
  rw [List.foldl_append]
  exact ⟨seen, hkept.message hwritten hanswer hdevice⟩

/-- **The table is never stale.**  Whatever was read, answered, shown and
clicked before, for whichever device: after a message the rows are those of a
drawing of all it brought, under the filter and with the rows that are open now,
and so they stay while rows are opened and closed, the service reads on and the
connection is renewed. -/
theorem EventTab.rows_after_message (hquiet : ∀ turn ∈ after, turn.Quiet) :
    (EventTab.after number time file (before ++ [.message i] ++
      after)).table.rows
      = some (drawEvents number
          (EventTab.after number time file (before ++ [.message i] ++
            after)).table.kindFilter
          (EventTab.after number time file (before ++ [.message i] ++
            after)).table.expanded events) := by
  obtain ⟨-, -, hshows⟩ :=
    EventTab.after_message hwritten file before hanswer hdevice
  refine EventTable.Shows.rows ?_
  induction after using List.reverseRecOn with
  | nil => rwa [List.append_nil]
  | append_singleton turns turn ih =>
      have hbefore := ih fun t ht => hquiet t (List.mem_append_left _ ht)
      have hlast := EventTab.shows_step hbefore time
        (hquiet turn (List.mem_append_right _ List.mem_cons_self))
      unfold EventTab.after at hlast ⊢
      rwa [← List.append_assoc, List.foldl_append]

/-- **A click opens or closes one row.**  Since the filter was last changed a
message came, and whatever else happened: a click on a row with details turns
its mark and leaves all other rows what they are. -/
theorem EventTab.rows_after_press (hfilter : ∀ turn ∈ after, turn.KeepsFilter)
    {rows : List EventRow}
    (hrows : (EventTab.after number time file (before ++ [.message i] ++
      after)).table.rows = some rows)
    {n : Nat} {e : NvmeEvent} {opened : Bool}
    (hrow : rows[n]? = some ⟨e, some opened⟩) :
    (EventTab.after number time file (before ++ [.message i] ++ after ++
      [.press n])).table.rows
      = some (rows.set n ⟨e, some (!opened)⟩) := by
  have hdrawn :
      (EventTab.after number time file (before ++ [.message i] ++
      after)).table.rows = none ∨
      (EventTab.after number time file (before ++ [.message i] ++
        after)).table.Drawn number := by
    clear hrows hrow
    induction after using List.reverseRecOn with
    | nil =>
        obtain ⟨-, -, hshows⟩ :=
          EventTab.after_message hwritten file before hanswer hdevice
        rw [List.append_nil]
        exact Or.inr hshows.drawn
    | append_singleton turns turn ih =>
        have hbefore := ih fun t ht => hfilter t (List.mem_append_left _ ht)
        obtain ⟨seen, hkept⟩ :=
          EventTab.kept_after hwritten file (before ++ [.message i] ++ turns)
        have hlast := EventTab.drawn_step hkept hwritten hbefore
          (hfilter turn (List.mem_append_right _ List.mem_cons_self))
        unfold EventTab.after at hlast ⊢
        rwa [← List.append_assoc, List.foldl_append]
  obtain ⟨seen, hkept⟩ :=
    EventTab.kept_after hwritten file (before ++ [.message i] ++ after)
  rcases hdrawn with hnone | hdrawn
  · exact absurd (hrows.symm.trans hnone) (by simp)
  · have hpress :=
      hdrawn.press hwritten hkept.dated.observed hkept.reply hrows hrow
    unfold EventTab.after at hpress ⊢
    rw [List.foldl_append]
    exact hpress

end Message

end Tab

section

attribute [local instance] UnicodeDb.ascii

/-- How the page writes an integer. -/
def integerText (q : ℚ) : PyText := ofInt q.num

/-- Whole numbers are written as numerals. -/
theorem written_integerText : Written integerText (fun n => n) where
  plain := fun q _ hc =>
    ⟨fun heq => notMem_ofInt (c := '|') (by decide) (by decide) q.num
      (heq ▸ hc),
      fun heq => notMem_ofInt (c := ',') (by decide) (by decide) q.num
        (heq ▸ hc)⟩
  apart := fun m n heq => by
    have hnum := ofInt_injective heq
    simpa using hnum

/-- A device is selected, and its events are asked for. -/
def asksForEvents : List EventTurn :=
  [.selectDevice "nvme0".toList, .serve (.getEvents "nvme0".toList [])]

/-- In the sample the first call is answered. -/
theorem asksForEvents_answer : ∃ events,
    (EventTab.after integerText (fun n => n) (some failsThenTimesOutLog)
      asksForEvents).answers[0]?
      = some ("nvme0".toList, events) := by
  have hdevice :
      ((EventTab.after integerText (fun n => n) (some failsThenTimesOutLog)
      asksForEvents).answers[0]?.map Prod.fst) = some "nvme0".toList := by
    decide +kernel
  obtain ⟨⟨device, events⟩, hanswer, heq⟩ := Option.map_eq_some_iff.mp hdevice
  exact ⟨events, by rw [hanswer, ← heq]⟩

/-- The answer comes, and the latest event is opened. -/
theorem EventTab.rows_after_message_opened : ∃ events,
    (EventTab.after integerText (fun n => n) (some failsThenTimesOutLog)
      (asksForEvents ++ [.message 0] ++ [.press 0])).table.rows
        = some (drawEvents integerText
            (EventTab.after integerText (fun n => n) (some failsThenTimesOutLog)
              (asksForEvents ++ [.message 0] ++ [.press 0])).table.kindFilter
            (EventTab.after integerText (fun n => n) (some failsThenTimesOutLog)
              (asksForEvents ++ [.message 0] ++ [.press 0])).table.expanded
                events) := by
  obtain ⟨events, hanswer⟩ := asksForEvents_answer
  have hquiet : ∀ turn ∈ [EventTurn.press 0], turn.Quiet := by
    intro turn hturn
    rw [List.mem_singleton.mp hturn]
    trivial
  exact ⟨events,
    EventTab.rows_after_message written_integerText _ _ _ hanswer rfl hquiet⟩

theorem EventTab.rows_after_press_latest :
    ∃ (rows : List EventRow) (e : NvmeEvent),
    rows[0]? = some ⟨e, some false⟩ ∧
    (EventTab.after integerText (fun n => n) (some failsThenTimesOutLog)
      (asksForEvents ++ [.message 0] ++ [] ++ [.press 0])).table.rows
        = some (rows.set 0 ⟨e, some true⟩) := by
  obtain ⟨events, hanswer⟩ := asksForEvents_answer
  have hclosed :
      ((EventTab.after integerText (fun n => n) (some failsThenTimesOutLog)
      (asksForEvents ++ [.message 0] ++ [])).table.rows.bind (·[0]?)).map
        EventRow.opened
        = some (some false) := by
    decide +kernel
  obtain ⟨⟨e, opened⟩, hbind, hopened⟩ := Option.map_eq_some_iff.mp hclosed
  obtain ⟨rows, hrows, hrow⟩ := Option.bind_eq_some_iff.mp hbind
  obtain rfl : opened = some false := hopened
  refine ⟨rows, e, hrow, ?_⟩
  exact EventTab.rows_after_press written_integerText _ _ _ hanswer rfl
    (fun _ h => absurd h List.not_mem_nil) hrows hrow

end

end Telemetryd
