import Telemetryd.DashboardPolling

/-!
# The requests of the page

Two more kinds of request are kept from piling up: the error counters by
clearing a timer, the process list by a mark that is set while a request is in
flight. Each is shown to hold exactly as far as it does.
-/

namespace Telemetryd

/-! ### The error counters -/

namespace ErrorStatsPolling

/-- The number of loops: each has a request in flight or a timer pending. -/
def loops (p : ErrorStatsPolling) : Nat := p.requests + p.timers.length

/-- There is one loop at most, and its timer is the one that would be
cleared. -/
structure Single (p : ErrorStatsPolling) : Prop where
  loops : p.loops ≤ 1
  timer : ∀ id ∈ p.timers, p.timerId = some id

/-- A single loop waits for its timer or for its request, never for both. -/
theorem Single.timers {p : ErrorStatsPolling} (hp : p.Single) :
    p.timers = [] ∨ p.requests = 0 ∧ ∃ id, p.timers = [id] ∧
      p.timerId = some id := by
  have h := hp.loops
  unfold ErrorStatsPolling.loops at h
  cases ht : p.timers with
  | nil => exact .inl rfl
  | cons id ids =>
      rw [ht, List.length_cons] at h
      obtain rfl : ids = [] := List.length_eq_zero_iff.mp (by omega)
      exact .inr ⟨by omega, id, rfl, hp.timer id (by simp [ht])⟩

/-- One request and no timer is a single loop. -/
theorem single_of_no_timers {p : ErrorStatsPolling} (hr : p.requests ≤ 1)
    (ht : p.timers = []) :
    p.Single :=
  ⟨by simpa [loops, ht] using hr, by simp [ht]⟩

/-- Stopping does not call a request back. -/
@[simp] theorem requests_stop (p : ErrorStatsPolling) :
    p.stopErrorStatsPolling.requests = p.requests := by
  unfold stopErrorStatsPolling
  split <;> rfl

/-- Stopping a single loop clears its only timer. -/
theorem Single.timers_stop {p : ErrorStatsPolling} (hp : p.Single) :
    p.stopErrorStatsPolling.timers = [] := by
  unfold stopErrorStatsPolling
  rcases hp.timers with h | ⟨-, id, h, hid⟩
  · split <;> simp [h]
  · simp [h, hid]

/-- A single loop has one request at most. -/
theorem Single.requests_le {p : ErrorStatsPolling} (hp : p.Single) :
    p.requests ≤ 1 :=
  (Nat.le_add_right _ _).trans hp.loops

/-- A single loop that is stopped is at most its last request. -/
theorem single_stop {p : ErrorStatsPolling} (hp : p.Single) :
    p.stopErrorStatsPolling.Single :=
  single_of_no_timers (by simpa using hp.requests_le) hp.timers_stop

/-- Starting a single loop anew adds a request to the one in flight. -/
theorem loops_start {p : ErrorStatsPolling} (hp : p.Single) :
    (p.startErrorStatsPolling true).loops = p.requests + 1 := by
  simp [startErrorStatsPolling, tick, loops, hp.timers_stop]

/-- With no request in flight a fresh start is the only loop. -/
theorem single_start {p : ErrorStatsPolling} (hp : p.Single)
    (hr : p.requests = 0) :
    (p.startErrorStatsPolling true).Single :=
  single_of_no_timers (by simp [startErrorStatsPolling, tick, hr])
    (by simp [startErrorStatsPolling, tick, hp.timers_stop])

/-- A timer that goes off turns into a request. -/
theorem single_time {p : ErrorStatsPolling} (hp : p.Single) (shown : Bool)
    (id : Nat) :
    (p.time shown id).Single := by
  unfold time
  split
  · rename_i hmem
    rcases hp.timers with h | ⟨hr, id', h, -⟩
    · simp [h] at hmem
    · obtain rfl : id = id' := by simpa [h] using hmem
      cases shown
      · exact single_of_no_timers (by simp [tick, hr]) (by simp [tick, h])
      · exact single_of_no_timers (by simp [tick, hr]) (by simp [tick, h])
  · exact hp

/-- An answer turns into a timer. -/
theorem single_reply {p : ErrorStatsPolling} (hp : p.Single) (shown : Bool) :
    (p.reply shown).Single := by
  unfold reply
  split
  · exact hp
  · rename_i n hn
    have hle := hp.loops
    unfold loops at hle
    have ht : p.timers = [] := List.length_eq_zero_iff.mp (by omega)
    have hn0 : n = 0 := by omega
    split
    · exact ⟨by simp [loops, ht, hn0], by simp [ht]⟩
    · exact single_of_no_timers (by simp [hn0]) ht

end ErrorStatsPolling

namespace Page

/-- The step starts the loop over the error counters: the events are shown for
another device, or their tab is opened. -/
def StartsStats (s : Page) : PageEvent → Prop
  | .device _ => s.shows .event
  | .tab tab => tab = .event ∧ s.device.isSome ∧ ¬ s.shows .event
  | _ => False

/-- Selecting a device starts or stops the polling, as the events tab is open or
not. -/
theorem errorStats_selectDevice (s : Page) (name : PyText) :
    (s.selectDevice name).errorStats =
      if s.shows .event then s.errorStats.startErrorStatsPolling true
      else s.errorStats.stopErrorStatsPolling := by
  cases ht : s.activeTab with
  | none => simp [selectDevice, shows, ht, stopWS, stopPerfWS, stopEventsWS,
      stopErrorStatsPolling, stopEntriesAutoRefresh, onLink]
  | some t =>
      cases t <;>
        simp [selectDevice, shows, ht, connectWS, stopWS, connectPerfWS,
          stopPerfWS,
          connectEventsWS, stopEventsWS, stopErrorStatsPolling,
          startErrorStatsPolling,
          stopEntriesAutoRefresh, onLink]

/-- So does switching the tab. -/
theorem errorStats_switchTab {s : Page} (hd : s.device.isSome) {tab : Tab}
    (hne : s.shows tab = false) :
    (s.switchTab tab).errorStats =
      if tab = .event then s.errorStats.startErrorStatsPolling true
      else s.errorStats.stopErrorStatsPolling := by
  obtain ⟨device, hd⟩ := Option.isSome_iff_exists.mp hd
  rw [switchTab, if_neg (by simp [hne])]
  cases tab <;>
    simp [leaveTabs, openTab, hd, connectWS, stopWS, connectPerfWS, stopPerfWS,
      connectEventsWS,
      stopEventsWS, connectProfileWS, stopProfileWS, stopEntriesAutoRefresh,
      startEntriesAutoRefresh, stopErrorStatsPolling, startErrorStatsPolling,
      onLink, shows]

/-- A step starts the loop, or it keeps it single. -/
theorem errorStats_step {s : Page} (hs : s.errorStats.Single) (e : PageEvent) :
    (s.StartsStats e ∧
      (s.step e).errorStats = s.errorStats.startErrorStatsPolling true) ∨
      (¬ s.StartsStats e ∧ (s.step e).errorStats.Single) := by
  have same {t : Page} (h : t.errorStats = s.errorStats) :
    t.errorStats.Single := h ▸ hs
  cases e with
  | device name =>
      have h := errorStats_selectDevice s name
      by_cases ht : s.shows .event
      · exact .inl ⟨ht, by rw [step, h, if_pos ht]⟩
      · exact .inr ⟨ht, by rw [step, h, if_neg ht]; exact ErrorStatsPolling.single_stop hs⟩
  | tab tab =>
      by_cases hd : s.device.isSome
      · have hstep : s.step (.tab tab) = s.switchTab tab := if_pos hd
        by_cases ht : s.shows tab
        · refine .inr ⟨fun h => h.2.2 (h.1 ▸ ht), ?_⟩
          rw [hstep, switchTab, if_pos ht]
          exact hs
        · have hne : s.shows tab = false := Bool.eq_false_iff.mpr ht
          have h := errorStats_switchTab hd hne
          by_cases hev : tab = .event
          · exact .inl ⟨⟨hev, hd, hev ▸ ht⟩, by rw [hstep, h, if_pos hev]⟩
          · refine .inr ⟨fun h => hev h.1, ?_⟩
            rw [hstep, h, if_neg hev]
            exact ErrorStatsPolling.single_stop hs
      · refine .inr ⟨fun h => hd h.2.1, ?_⟩
        rw [step, if_neg hd]
        exact hs
  | errorStatsTime id =>
      exact .inr ⟨not_false, ErrorStatsPolling.single_time hs _ id⟩
  | errorStatsReply =>
      exact .inr ⟨not_false, ErrorStatsPolling.single_reply hs _⟩
  | refresh c =>
      refine .inr ⟨not_false, same ?_⟩
      unfold step refresh
      dsimp only
      split
      · split
        · rfl
        · cases c <;> rfl
      · rfl
  | reconnectTime c n =>
      refine .inr ⟨not_false, same ?_⟩
      unfold step reconnectTime
      dsimp only
      split
      · rfl
      · split <;> rfl
  | queueRow _ | topoRefresh | procRefresh | target =>
      refine .inr ⟨not_false, same ?_⟩
      unfold step
      dsimp only
      split <;> rfl
  | entriesAuto checked =>
      refine .inr ⟨not_false, same ?_⟩
      unfold step
      dsimp only
      split
      · split <;> rfl
      · rfl
  | _ => exact .inr ⟨not_false, hs⟩

/-- There is never a second loop over the error counters, if and only if no loop
is started while a request is in flight.  A user who goes on selecting devices
adds a loop with every press. -/
theorem one_stats_loop_iff (es : List PageEvent) :
    (Runs.Always step (fun s => s.errorStats.loops ≤ 1) initial es ↔
      Runs.Each step (fun s e => s.StartsStats e →
        s.errorStats.requests = 0) initial es) ∧
    ∀ (n : Nat) (name : PyText), (after es).shows .event →
      (after (es ++ List.replicate n (.device name))).errorStats.requests =
        (after es).errorStats.requests + n := by
  constructor
  · refine Runs.always_iff_each (I := fun s : Page =>
      s.errorStats.Single) (fun _ h => h.loops)
      ?_ ?_ ⟨by decide, by simp [initial]⟩
    · intro s e hs hC
      rcases errorStats_step hs e with ⟨hst, h⟩ | ⟨-, h⟩
      · rw [h]
        exact ErrorStatsPolling.single_start hs (hC hst)
      · exact h
    · intro s e hs hP hst
      rcases errorStats_step hs e with ⟨-, h⟩ | ⟨hno, -⟩
      · rw [h, ErrorStatsPolling.loops_start hs] at hP
        omega
      · exact absurd hst hno
  · intro n name ht
    rw [after, List.foldl_append]
    change ((List.replicate n _).foldl step (after es)).errorStats.requests = _
    generalize after es = s at ht ⊢
    induction n generalizing s with
    | zero => rfl
    | succ n ih =>
        have ht' : (s.selectDevice name).shows .event := by
          simpa [shows, activeTab_selectDevice] using ht
        rw [List.replicate_succ, List.foldl_cons]
        refine (ih _ ht').trans ?_
        rw [errorStats_selectDevice, if_pos ht]
        simp only [ErrorStatsPolling.startErrorStatsPolling,
          ErrorStatsPolling.tick, if_true,
          ErrorStatsPolling.requests_stop]
        omega

end Page

/-! ### The process list -/

namespace ProcessTable

/-- The mark `procRefreshInFlight` is set while a refresh waits, and there is
one such refresh at most. -/
structure Marked (p : ProcessTable) : Prop where
  waits : p.inFlight = true → ∃ (i : Nat) (r : ProcRefresh),
    p.refreshes[i]? = some r ∧ r.awaited
  unique : ∀ (i j : Nat) (r r' : ProcRefresh), p.refreshes[i]? = some r →
    p.refreshes[j]? = some r' → r.awaited → r'.awaited →
      p.inFlight = true ∧ i = j

/-- A process list that is asked for is waited for. -/
def Heard (p : ProcessTable) : Prop :=
  ∀ (i : Nat) (r : ProcRefresh), p.refreshes[i]? = some r → r.processes →
    r.awaited

/-- At most one process list is being put together, and only while the mark is
set. -/
def Guarded (p : ProcessTable) : Prop :=
  ∀ (i j : Nat) (r r' : ProcRefresh), p.refreshes[i]? = some r →
    p.refreshes[j]? = some r' → r.processes → r'.processes →
      p.inFlight = true ∧ i = j

/-- A mark that stands for a list that is awaited is a guard. -/
theorem Marked.guarded {p : ProcessTable} (hp : p.Marked) (hh : p.Heard) :
    p.Guarded :=
  fun i j r r' hi hj hr hr' =>
    hp.unique i j r r' hi hj (hh i r hi hr) (hh j r' hj hr')

/-- Refreshing appends one refresh, which waits for both answers. -/
theorem getElem?_refresh {p : ProcessTable} (hno : p.inFlight = false) {i : Nat}
    {r : ProcRefresh} (h : p.refreshProcesses.refreshes[i]? = some r) :
    p.refreshes[i]? = some r ∨ i = p.refreshes.length ∧
      r = ⟨true, true, true⟩ := by
  simp only [refreshProcesses, hno] at h
  rcases Nat.lt_trichotomy i p.refreshes.length with hlt | heq | hgt
  · left
    rwa [if_neg (by simp), List.getElem?_append_left hlt] at h
  · right
    simp_all
  · simp [List.getElem?_append, Nat.not_lt.mpr hgt.le,
      Nat.sub_ne_zero_of_lt hgt] at h

/-- While the mark stands nothing is asked for. -/
theorem refreshProcesses_of_inFlight {p : ProcessTable}
    (h : p.inFlight = true) :
    p.refreshProcesses = p := if_pos h

/-- Refreshing keeps the mark true. -/
theorem marked_refreshProcesses {p : ProcessTable} (hp : p.Marked) :
    p.refreshProcesses.Marked := by
  cases hno : p.inFlight with
  | true => rwa [refreshProcesses_of_inFlight hno]
  | false =>
      have none_waits : ∀ (i : Nat) (r : ProcRefresh),
          p.refreshes[i]? = some r → ¬ r.awaited := by
        intro i r hi hr
        have := (hp.unique i i r r hi hi hr hr).1
        simp [hno] at this
      constructor
      · intro _
        exact ⟨p.refreshes.length,
          ⟨true, true, true⟩, by simp [refreshProcesses, hno], rfl⟩
      · intro i j r r' hi hj hr hr'
        refine ⟨by simp [refreshProcesses, hno], ?_⟩
        rcases getElem?_refresh hno hi with h | ⟨rfl, -⟩
        · exact absurd hr (none_waits i r h)
        · rcases getElem?_refresh hno hj with h | ⟨rfl, -⟩
          · exact absurd hr' (none_waits j r' h)
          · rfl

/-- A fresh refresh is heard. -/
theorem heard_refreshProcesses {p : ProcessTable} (hp : p.Heard) :
    p.refreshProcesses.Heard := by
  cases hno : p.inFlight with
  | true => rwa [refreshProcesses_of_inFlight hno]
  | false =>
      intro i r hi hr
      rcases getElem?_refresh hno hi with h | ⟨-, rfl⟩
      · exact hp i r h hr
      · rfl

/-- A reply takes the refresh `r₀` to `r`, which waits for less. -/
theorem marked_settle {p : ProcessTable} (hp : p.Marked) {i : Nat}
    {r₀ r : ProcRefresh}
    (hi : p.refreshes[i]? = some r₀) (hr : r.awaited = r₀.awaited) (ok : Bool) :
    (p.settle i r ok).Marked := by
  have hlt : i < p.refreshes.length := (List.getElem?_eq_some_iff.mp hi).1
  unfold settle
  split
  · rename_i hdone
    have hwait : r₀.awaited := hr ▸ hdone.1
    -- it was the one refresh that waited
    have hnone : ∀ (j : Nat) (s : ProcRefresh),
        (p.refreshes.set i { r with awaited := false })[j]? = some s →
          ¬ s.awaited := by
      intro j s hj hs
      rw [List.getElem?_set] at hj
      split at hj
      · simp only [Option.some.injEq] at hj
        simp [← hj] at hs
      · rename_i hne
        exact hne (hp.unique i j r₀ s hi hj hwait hs).2
    exact ⟨fun h => Bool.noConfusion h, fun j _ s _ hj _ hs _ =>
      absurd hs (hnone j s hj)⟩
  · have hsame : ∀ (j : Nat) (s : ProcRefresh),
        (p.refreshes.set i r)[j]? = some s →
        ∃ s₀, p.refreshes[j]? = some s₀ ∧ s₀.awaited = s.awaited := by
      intro j s hj
      rw [List.getElem?_set] at hj
      split at hj
      · rename_i heq
        subst heq
        simp only [Option.some.injEq] at hj
        exact ⟨r₀, hi, hj ▸ hr.symm⟩
      · exact ⟨s, hj, rfl⟩
    constructor
    · intro hfl
      obtain ⟨j, s, hj, hs⟩ := hp.waits hfl
      by_cases heq : i = j
      · subst heq
        obtain rfl : r₀ = s := Option.some.inj (hi.symm.trans hj)
        exact ⟨i, r, by simp [hlt], hr ▸ hs⟩
      · exact ⟨j, s, by rwa [List.getElem?_set_ne heq], hs⟩
    · intro j k s s' hj hk hs hs'
      obtain ⟨s₀, hj₀, hs₀⟩ := hsame j s hj
      obtain ⟨s₀', hk₀, hs₀'⟩ := hsame k s' hk
      exact hp.unique j k s₀ s₀' hj₀ hk₀ (hs₀ ▸ hs) (hs₀' ▸ hs')

/-- The refresh gives up with an error while its process list is under way. -/
def GivesUp (r : ProcRefresh) (ok : Bool) : Prop :=
  ok = false ∧ r.awaited ∧ r.processes

/-- Settling an answer keeps the others heard, unless it gives a list up. -/
theorem heard_settle {p : ProcessTable} (hp : p.Heard) {i : Nat}
    {r₀ r : ProcRefresh}
    (hi : p.refreshes[i]? = some r₀) (hr : r.awaited = r₀.awaited)
    (hle : r.processes → r₀.processes) {ok : Bool} (hno : ¬ GivesUp r ok) :
    (p.settle i r ok).Heard := by
  intro j s hj hs
  unfold settle at hj
  split at hj
  · rename_i hdone
    rw [List.getElem?_set] at hj
    split at hj
    · simp only [Option.some.injEq, Option.ite_none_right_eq_some] at hj
      obtain ⟨-, rfl⟩ := hj
      have hproc : r.processes := hs
      rcases hdone.2 with hok | ⟨hnp, -⟩
      · exact absurd ⟨by simpa using hok, hdone.1, hproc⟩ hno
      · simp [hproc] at hnp
    · exact hp j s hj hs
  · rw [List.getElem?_set] at hj
    split at hj
    · simp only [Option.some.injEq, Option.ite_none_right_eq_some] at hj
      obtain ⟨-, rfl⟩ := hj
      exact hr ▸ hp i r₀ hi (hle hs)
    · exact hp j s hj hs

/-- The mark is taken away while a process list is being put together. -/
theorem not_guarded_settle {p : ProcessTable} {i : Nat} {r₀ r : ProcRefresh}
    (hi : p.refreshes[i]? = some r₀) {ok : Bool} (h : GivesUp r ok) :
    ¬ (p.settle i r ok).Guarded := by
  obtain ⟨rfl, hw, hproc⟩ := h
  have hlt : i < p.refreshes.length := (List.getElem?_eq_some_iff.mp hi).1
  intro hg
  have hdone : r.awaited ∧ (!false ∨ !r.processes ∧ !r.targets) :=
    ⟨hw, .inl rfl⟩
  have hget : (p.settle i r false).refreshes[i]? =
      some { r with awaited := false } := by
    rw [settle, if_pos hdone]
    simp [hlt]
  have hmark := (hg i i _ _ hget hget hproc hproc).1
  rw [settle, if_pos hdone] at hmark
  cases hmark

end ProcessTable

namespace Page

/-- The rules are answered with an error while the process list of the same
refresh is under way. -/
def GivesUpList (s : Page) : PageEvent → Prop
  | .targetsReply i ok => ∃ r, s.processes.refreshes[i]? = some r ∧ r.targets ∧
      ProcessTable.GivesUp r ok
  | _ => False

/-- The process table does not depend on the device. -/
theorem processes_selectDevice (s : Page) (name : PyText) :
    (s.selectDevice name).processes = s.processes := by
  unfold selectDevice
  dsimp only
  split <;> split <;> split <;> rfl

/-- Switching the tab refreshes the processes or leaves them alone. -/
theorem processes_switchTab (s : Page) (tab : Tab) :
    (s.switchTab tab).processes = s.processes ∨
      (s.switchTab tab).processes = s.processes.refreshProcesses := by
  unfold switchTab
  split
  · exact .inl rfl
  · cases tab <;> cases s.device <;> first | exact .inl rfl | exact .inr rfl

/-- The mark with its refreshes, and no list unheard of. -/
structure Marking (s : Page) : Prop where
  marked : s.processes.Marked
  heard : s.processes.Heard

/-- Events that only refresh the processes keep the marking. -/
theorem Marking.of_same {s t : Page} (hs : s.Marking)
    (h : t.processes = s.processes ∨
      t.processes = s.processes.refreshProcesses) :
    t.Marking := by
  rcases h with h | h
  · exact ⟨h ▸ hs.marked, h ▸ hs.heard⟩
  · exact ⟨h ▸ ProcessTable.marked_refreshProcesses hs.marked,
      h ▸ ProcessTable.heard_refreshProcesses hs.heard⟩

/-- The answer with the list takes its mark away. -/
theorem marking_processesReply {s : Page} (hs : s.Marking) (i : Nat)
    (ok : Bool) :
    (s.step (.processesReply i ok)).Marking := by
  unfold step ProcessTable.processesReply
  dsimp only
  split
  · exact hs
  · rename_i r hi
    split
    · let r' := { r with processes := false }
      exact ⟨ProcessTable.marked_settle (r := r') hs.marked hi rfl ok,
        ProcessTable.heard_settle (r := r') hs.heard hi rfl (fun h =>
          Bool.noConfusion h)
          fun h => Bool.noConfusion h.2.2⟩
    · exact hs

/-- The answer with the rules keeps the marking, unless it gives a list up. -/
theorem marking_targetsReply {s : Page} (hs : s.Marking) {i : Nat} {ok : Bool}
    (hno : ¬ s.GivesUpList (.targetsReply i ok)) :
    (s.step (.targetsReply i ok)).Marking := by
  unfold step ProcessTable.targetsReply
  dsimp only
  split
  · exact hs
  · rename_i r hi
    split
    · rename_i ht
      let r' := { r with targets := false }
      exact ⟨ProcessTable.marked_settle (r := r') hs.marked hi rfl ok,
        ProcessTable.heard_settle (r := r') hs.heard hi rfl id fun h =>
          hno ⟨r, hi, ht, h⟩⟩
    · exact hs

/-- Adding or removing a rule asks for a fresh list. -/
theorem marking_targetReply {s : Page} (hs : s.Marking) (ok : Bool) :
    (s.step (.targetReply ok)).Marking := by
  unfold step ProcessTable.changeReply
  dsimp only
  split
  · exact hs
  · rename_i n _
    have hn : ({ s with processes := { s.processes with changes := n } } :
        Page).Marking :=
      ⟨⟨hs.marked.waits, hs.marked.unique⟩, hs.heard⟩
    split
    · exact hn.of_same (.inr rfl)
    · exact hn

/-- **A step** keeps the marking, unless it gives a list up. -/
theorem marking_step {s : Page} (hs : s.Marking) {e : PageEvent}
    (hno : ¬ s.GivesUpList e) :
    (s.step e).Marking := by
  cases e with
  | device name => exact hs.of_same (.inl (processes_selectDevice s name))
  | tab tab =>
      rw [step]
      split
      · exact hs.of_same (processes_switchTab s tab)
      · exact hs
  | processesReply i ok => exact marking_processesReply hs i ok
  | targetsReply i ok => exact marking_targetsReply hs hno
  | targetReply ok => exact marking_targetReply hs ok
  | refresh c =>
      refine hs.of_same (.inl ?_)
      unfold step refresh
      dsimp only
      split
      · split
        · rfl
        · cases c <;> rfl
      · rfl
  | reconnectTime c n =>
      refine hs.of_same (.inl ?_)
      unfold step reconnectTime
      dsimp only
      split
      · rfl
      · split <;> rfl
  | entriesAuto checked =>
      refine hs.of_same (.inl ?_)
      unfold step
      dsimp only
      split
      · split <;> rfl
      · rfl
  | procRefresh =>
      rw [step]
      split
      · exact hs.of_same (.inr rfl)
      · exact hs
  | target =>
      rw [step]
      split
      · exact ⟨⟨hs.marked.waits, hs.marked.unique⟩, hs.heard⟩
      · exact hs
  | queueRow _ | topoRefresh =>
      rw [step]
      split <;> exact hs.of_same (.inl rfl)
  | _ => exact hs.of_same (.inl rfl)

/-- Two process lists are never put together at the same time, and the mark
stands as long as one is, if and only if the rules are never answered with an
error while the list that was asked for with them is under way. -/
theorem guarded_iff (es : List PageEvent) :
    Runs.Always step (fun s => s.processes.Guarded) initial es ↔
      Runs.Each step (fun s e => ¬ s.GivesUpList e) initial es := by
  refine Runs.always_iff_each (I := Marking) (fun _ h =>
    h.marked.guarded h.heard)
    (fun s e hs hno => marking_step hs hno) ?_ ?_
  · intro s e _ hg hup
    cases e with
    | targetsReply i ok =>
        obtain ⟨r, hi, ht, hr⟩ := hup
        refine ProcessTable.not_guarded_settle
          (r := { r with targets := false }) hi hr ?_
        have hstep : (s.step (.targetsReply i ok)).processes =
            s.processes.settle i { r with targets := false } ok := by
          simp [step, ProcessTable.targetsReply, hi, ht]
        exact hstep ▸ hg
    | _ => exact hup
  · exact ⟨⟨fun h => Bool.noConfusion h,
      fun i j r r' hi => by simp [initial] at hi⟩,
      fun i r hi => by simp [initial] at hi⟩

end Page

end Telemetryd
