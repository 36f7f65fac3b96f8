import Telemetryd.DashboardLinks

/-!
# The polling of the page

Two tables are polled by a timer that is set again only when the reply has
arrived, so that requests cannot pile up behind a slow server.  The loop over
the queue entries is guarded by a generation number and there is never more than
one of it.  The loop over the error counters is guarded by the id of its timer,
and that is not enough: while a request is in flight there is no timer to clear,
and a loop that is started then runs beside the old one.
-/

namespace Telemetryd

/-! ### The entries of a queue -/

/-- The queue of a turn. -/
def EntriesTurn.queue : EntriesTurn → Nat
  | .timer _ qid => qid
  | .load qid => qid

namespace EntriesRefresh

/-- At most one turn is current, and it is of the queue that is wanted.  The
only timer that can be pending is the one in `timerId`. -/
structure Tidy (r : EntriesRefresh) (wanted : Option Nat) : Prop where
  loop : (r.loops.current.map EntriesTurn.queue).Sublist wanted.toList
  timer : ∀ n id q, (n, EntriesTurn.timer id q) ∈ r.loops.tasks →
    n = r.loops.gen ∧ r.timerId = some id

/-- The current turn is there when a queue is wanted. -/
def Alive (r : EntriesRefresh) (wanted : Option Nat) : Prop :=
  r.loops.current.map EntriesTurn.queue = wanted.toList

/-- Stopping leaves no loop that is current. -/
theorem current_stop (r : EntriesRefresh) :
    r.stopEntriesAutoRefresh.loops.current = [] := by
  simp [stopEntriesAutoRefresh]

/-- A loop that is stopped leaves no timer behind. -/
theorem not_timer_stop {r : EntriesRefresh} {w : Option Nat} (hr : r.Tidy w)
    {n id q : Nat} :
    (n, EntriesTurn.timer id q) ∉ r.stopEntriesAutoRefresh.loops.tasks := by
  intro h
  obtain ⟨t, ht, hf⟩ := Pool.mem_tasks_revise.mp h
  cases t with
  | load q' => simp at hf
  | timer id' q' => simp [(hr.timer n id' q' ht).2] at hf

/-- A stopped refresh is tidy, whatever is wanted. -/
theorem tidy_stop {r : EntriesRefresh} {w : Option Nat} (hr : r.Tidy w)
    (w' : Option Nat) :
    r.stopEntriesAutoRefresh.Tidy w' := by
  constructor
  · rw [current_stop]
    exact List.nil_sublist _
  · exact fun n id q h => absurd h (not_timer_stop hr)

/-- A loop is started exactly when a queue is selected, the box is checked and
the tab is open. -/
theorem alive_start {r : EntriesRefresh} (qid : Option Nat) (shown : Bool) :
    (r.startEntriesAutoRefresh qid shown).Alive (if r.auto ∧ shown then qid
      else none) := by
  unfold startEntriesAutoRefresh Alive
  cases qid with
  | none => simp [current_stop]
  | some q =>
      have hauto : r.stopEntriesAutoRefresh.auto = r.auto := rfl
      dsimp only
      rw [hauto]
      split
      · simp [current_stop, EntriesTurn.queue]
      · simp [current_stop]

/-- A refresh that is started is tidy. -/
theorem tidy_start {r : EntriesRefresh} {w : Option Nat} (hr : r.Tidy w)
    (qid : Option Nat)
    (shown : Bool) :
    (r.startEntriesAutoRefresh qid shown).Tidy (if r.auto ∧ shown then qid
      else none) := by
  refine ⟨(alive_start qid shown).symm ▸ .refl _, ?_⟩
  intro n id q h
  unfold startEntriesAutoRefresh at h ⊢
  cases qid with
  | none => exact absurd h (not_timer_stop hr)
  | some q' =>
      dsimp only at h ⊢
      split at h
      · rename_i hgo
        rw [if_pos hgo]
        rcases List.mem_append.mp h with h | h
        · exact absurd h (not_timer_stop hr)
        · obtain ⟨rfl, ht⟩ := Prod.mk.inj (List.mem_singleton.mp h)
          obtain ⟨rfl, rfl⟩ := EntriesTurn.timer.inj ht
          exact ⟨rfl, rfl⟩
      · exact absurd h (not_timer_stop hr)

/-- The current turn is about the queue selected, and the tab is open. -/
theorem Tidy.of_mem_current {r : EntriesRefresh} {qid : Option Nat}
    {auto shown : Bool}
    (hr : r.Tidy (if auto ∧ shown then qid else none)) {t : EntriesTurn}
    (ht : t ∈ r.loops.current) :
    r.loops.current = [t] ∧ qid = some t.queue ∧ auto ∧ shown := by
  have hlen := hr.loop.length_le
  have hmem : t.queue ∈ (if auto ∧ shown then qid else none).toList :=
    hr.loop.subset (List.mem_map_of_mem ht)
  have hq := Option.mem_toList.mp hmem
  split at hq
  · rename_i hgo
    rw [if_pos hgo, Option.mem_def.mp hq, List.length_map] at hlen
    obtain ⟨a, ha⟩ := List.length_eq_one_iff.mp
      (Nat.le_antisymm hlen (List.length_pos_of_mem ht))
    rw [ha, List.mem_singleton] at ht
    exact ⟨ht ▸ ha, hq, hgo⟩
  · cases hq

/-- When its timer goes off the current turn asks for the entries. -/
theorem queue_entriesTime {r : EntriesRefresh} {qid : Option Nat}
    {auto shown : Bool}
    (hr : r.Tidy (if auto ∧ shown then qid else none)) (n id q : Nat) :
    (r.entriesTime qid shown n id q).loops.current.map EntriesTurn.queue =
      r.loops.current.map EntriesTurn.queue := by
  rcases List.eq_nil_or_concat r.loops.current with h | ⟨ts, t, h⟩
  · simp [entriesTime, h]
  · obtain ⟨hcur, hqid, -, hshown⟩ := hr.of_mem_current (t := t) (by simp [h])
    simp only [entriesTime, Pool.current_revise, hcur]
    by_cases hgo : r.loops.gen = n ∧ t = .timer id q
    · obtain ⟨rfl, rfl⟩ := hgo
      have hq : qid = some q := hqid
      simp [hq, hshown, EntriesTurn.queue]
    · rw [List.filterMap_cons, if_neg hgo]
      rfl

/-- A timer that goes off leaves the refresh tidy. -/
theorem tidy_entriesTime {r : EntriesRefresh} {qid : Option Nat}
    {auto shown : Bool}
    (hr : r.Tidy (if auto ∧ shown then qid else none)) (n id q : Nat) :
    (r.entriesTime qid shown n id q).Tidy (if auto ∧ shown then qid
      else none) := by
  refine ⟨queue_entriesTime hr n id q ▸ hr.loop, ?_⟩
  intro m id' q' h
  obtain ⟨t, ht, hf⟩ := Pool.mem_tasks_revise.mp h
  split at hf
  · split at hf <;> cases hf
  · exact hr.timer m id' q' (Option.some.inj hf ▸ ht)

/-- The request of the current turn has failed. -/
def Fails (r : EntriesRefresh) (n q : Nat) (ok : Bool) : Prop :=
  ok = false ∧ n = r.loops.gen ∧ (n, EntriesTurn.load q) ∈ r.loops.tasks

/-- The next turn is set up when the reply has arrived.  Only an error ends the
loop. -/
theorem queue_entriesLoaded {r : EntriesRefresh} {qid : Option Nat}
    {auto shown : Bool}
    (hr : r.Tidy (if auto ∧ shown then qid else none)) (n q : Nat) (ok : Bool) :
    (r.Fails n q ok ∧ r.loops.current = [.load q] ∧
      (r.entriesLoaded qid shown n q ok).loops.current = []) ∨
    (¬ r.Fails n q ok ∧
      (r.entriesLoaded qid shown n q ok).loops.current.map EntriesTurn.queue =
      r.loops.current.map EntriesTurn.queue) := by
  by_cases hload : n = r.loops.gen ∧ (n, EntriesTurn.load q) ∈ r.loops.tasks
  · obtain ⟨rfl, hmem⟩ := hload
    obtain ⟨hcur, hqid, -, hshown⟩ :=
      hr.of_mem_current (Pool.mem_current.mpr hmem)
    have hq : qid = some q := hqid
    cases ok with
    | false =>
        refine .inl ⟨⟨rfl, rfl, hmem⟩, hcur, ?_⟩
        simp [entriesLoaded, hcur]
    | true =>
        refine .inr ⟨fun h => Bool.noConfusion h.1, ?_⟩
        simp [entriesLoaded, hmem, hq, hshown, hcur, EntriesTurn.queue]
  · refine .inr ⟨fun h => hload h.2, ?_⟩
    have hneg : ¬ ((n, EntriesTurn.load q) ∈ r.loops.tasks ∧ ok ∧
        n = r.loops.gen ∧
        qid = some q ∧ shown) := fun h => hload ⟨h.2.2.1, h.1⟩
    have hsome : ∀ t ∈ r.loops.current,
        (if r.loops.gen = n ∧ t = .load q then none else some t) = some t := by
      intro t ht
      refine if_neg fun h => hload ⟨h.1.symm, ?_⟩
      rw [← h.1, ← h.2]
      exact Pool.mem_current.mp ht
    rw [entriesLoaded, if_neg hneg, Pool.current_revise,
      List.filterMap_congr hsome,
      List.filterMap_some]

/-- So do entries that come in, or fail to. -/
theorem tidy_entriesLoaded {r : EntriesRefresh} {qid : Option Nat}
    {auto shown : Bool}
    (hr : r.Tidy (if auto ∧ shown then qid else none)) (n q : Nat) (ok : Bool) :
    (r.entriesLoaded qid shown n q ok).Tidy (if auto ∧ shown then qid
      else none) := by
  constructor
  · rcases queue_entriesLoaded hr n q ok with ⟨-, -, h⟩ | ⟨-, h⟩
    · rw [h]
      exact List.nil_sublist _
    · rw [h]
      exact hr.loop
  · intro m id q' h
    unfold entriesLoaded at h ⊢
    split at h
    · rename_i hgo
      rw [if_pos hgo]
      obtain ⟨hmem, -, hn, -⟩ := hgo
      obtain ⟨t, ht, hf⟩ := Pool.mem_tasks_revise.mp h
      -- the turn that is answered is the only one of the generation
      have hcur := (hr.of_mem_current (Pool.mem_current.mpr (hn ▸ hmem))).1
      split at hf
      · rename_i hm
        obtain ⟨rfl, rfl⟩ := EntriesTurn.timer.inj (Option.some.inj hf)
        exact ⟨hm.1.trans hn, rfl⟩
      · obtain rfl := Option.some.inj hf
        obtain ⟨rfl, -⟩ := hr.timer m id q' ht
        have hin := Pool.mem_current.mpr ht
        rw [hcur] at hin
        cases List.mem_singleton.mp hin
    · rename_i hno
      rw [if_neg hno]
      obtain ⟨t, ht, hf⟩ := Pool.mem_tasks_revise.mp h
      split at hf
      · cases hf
      · exact hr.timer m id q' (Option.some.inj hf ▸ ht)

end EntriesRefresh

namespace Page

/-- The queue whose entries are to be kept fresh. -/
def wantedQueue (s : Page) : Option Nat :=
  if s.entries.auto ∧ s.shows .queue then s.qid else none

/-- The loop over the entries runs when it is to. -/
def Refreshing (s : Page) : Prop := s.entries.Alive s.wantedQueue

/-- The step ends the loop with the error of a request. -/
def LosesLoop (s : Page) : PageEvent → Prop
  | .entriesLoaded n q ok => s.entries.Fails n q ok
  | _ => False

/-- The parts of the page that the loop depends on are the same. -/
structure SameLoop (s t : Page) : Prop where
  entries : t.entries = s.entries
  qid : t.qid = s.qid
  activeTab : t.activeTab = s.activeTab

/-- Pages with the same loop want the same queue. -/
theorem SameLoop.wantedQueue {s t : Page} (h : SameLoop s t) :
    t.wantedQueue = s.wantedQueue := by
  unfold Page.wantedQueue shows
  rw [h.entries, h.qid, h.activeTab]

/-- A refresh button does not touch the loop. -/
theorem sameLoop_refresh (s : Page) (c : Channel) :
    SameLoop s (s.refresh c) := by
  unfold refresh
  split
  · exact ⟨rfl, rfl, rfl⟩
  · cases c <;> exact ⟨rfl, rfl, rfl⟩

/-- Nor does a reconnection. -/
theorem sameLoop_reconnectTime (s : Page) (c : Channel) (n : Nat) :
    SameLoop s (s.reconnectTime c n) := by
  unfold reconnectTime
  split
  · exact ⟨rfl, rfl, rfl⟩
  · dsimp only
    split <;> exact ⟨rfl, rfl, rfl⟩

/-- Selecting a device stops the loop and drops the queue. -/
theorem entries_selectDevice (s : Page) (name : PyText) :
    (s.selectDevice name).entries = s.entries.stopEntriesAutoRefresh ∧
      (s.selectDevice name).qid = none := by
  unfold selectDevice
  dsimp only
  split <;> split <;> split <;> exact ⟨rfl, rfl⟩

/-- Switching the tab starts or stops the loop. -/
theorem entries_switchTab (s : Page) {tab : Tab}
    (hne : s.activeTab ≠ some tab) :
    (s.switchTab tab).entries =
      (if tab = .queue then s.entries.startEntriesAutoRefresh s.qid true
        else s.entries.stopEntriesAutoRefresh) ∧
      (s.switchTab tab).qid = s.qid := by
  have hshows : s.shows tab = false := by simpa [shows] using hne
  cases tab <;> cases h : s.device <;>
    simp [switchTab, hshows, leaveTabs, openTab, h, connectWS, stopWS,
      connectPerfWS, stopPerfWS,
      connectEventsWS, stopEventsWS, connectProfileWS, stopProfileWS,
      stopEntriesAutoRefresh,
      startEntriesAutoRefresh, stopErrorStatsPolling, startErrorStatsPolling,
      onLink] <;>
    simp [shows]

/-- What a step does to the loop over the entries. -/
structure KeepsLoop (s : Page) (e : PageEvent) : Prop where
  tidy : (s.step e).entries.Tidy (s.step e).wantedQueue
  alive : s.Refreshing → ((s.step e).Refreshing ↔ ¬ s.LosesLoop e)

/-- A step that leaves the loop alone. -/
theorem KeepsLoop.of_same {s : Page} {e : PageEvent}
    (hs : s.entries.Tidy s.wantedQueue)
    (h : SameLoop s (s.step e)) (hno : ¬ s.LosesLoop e) : s.KeepsLoop e := by
  constructor
  · rw [h.wantedQueue, h.entries]
    exact hs
  · intro ha
    unfold Refreshing at ha ⊢
    rw [h.wantedQueue, h.entries]
    exact ⟨fun _ => hno, fun _ => ha⟩

/-- A step that stops the loop where none is wanted. -/
theorem KeepsLoop.of_stop {s : Page} {e : PageEvent} {r : EntriesRefresh}
    {w : Option Nat}
    (hr : r.Tidy w) (h : (s.step e).entries = r.stopEntriesAutoRefresh)
    (hw : (s.step e).wantedQueue = none) (hno : ¬ s.LosesLoop e) :
    s.KeepsLoop e := by
  constructor
  · rw [h]
    exact EntriesRefresh.tidy_stop hr _
  · intro _
    unfold Refreshing EntriesRefresh.Alive
    rw [h, hw, EntriesRefresh.current_stop]
    exact ⟨fun _ => hno, fun _ => rfl⟩

/-- A step that starts the loop anew. -/
theorem KeepsLoop.of_start {s : Page} {e : PageEvent} {r : EntriesRefresh}
    {w q : Option Nat}
    {b : Bool} (hr : r.Tidy w)
    (h : (s.step e).entries = r.startEntriesAutoRefresh q b)
    (hw : (s.step e).wantedQueue = if r.auto ∧ b then q else none)
    (hno : ¬ s.LosesLoop e) : s.KeepsLoop e := by
  constructor
  · rw [h, hw]
    exact EntriesRefresh.tidy_start hr q b
  · intro _
    unfold Refreshing
    rw [h, hw]
    exact ⟨fun _ => hno, fun _ => EntriesRefresh.alive_start q b⟩

end Page

/-- Starting leaves the box as it is. -/
@[simp] theorem EntriesRefresh.auto_start (r : EntriesRefresh)
    (qid : Option Nat) (shown : Bool) :
    (r.startEntriesAutoRefresh qid shown).auto = r.auto := by
  unfold startEntriesAutoRefresh
  cases qid with
  | none => rfl
  | some q =>
      dsimp only
      split <;> rfl

namespace Page

/-- Switching the tab keeps what is said of the loop. -/
theorem keepsLoop_switchTab {s : Page} (hs : s.entries.Tidy s.wantedQueue)
    (tab : Tab) :
    s.KeepsLoop (.tab tab) := by
  have hno : ¬ s.LosesLoop (.tab tab) := id
  by_cases hgo : s.device.isSome ∧ s.activeTab ≠ some tab
  · have hstep : s.step (.tab tab) = s.switchTab tab := if_pos hgo.1
    obtain ⟨hent, hqid⟩ := entries_switchTab s hgo.2
    by_cases ht : tab = .queue
    · refine KeepsLoop.of_start (q := s.qid) (b := true) hs ?_ ?_ hno
      · rw [hstep, hent, if_pos ht]
      · unfold wantedQueue shows
        rw [hstep, hent, hqid, activeTab_switchTab, if_pos ht, ht]
        simp
    · refine KeepsLoop.of_stop hs ?_ ?_ hno
      · rw [hstep, hent, if_neg ht]
      · unfold wantedQueue shows
        rw [hstep, activeTab_switchTab]
        simp [ht]
  · refine KeepsLoop.of_same hs ?_ hno
    have hsame : s.step (.tab tab) = s := by
      unfold step
      dsimp only
      split
      · rename_i hd
        have ht : s.activeTab = some tab := not_not.mp fun hne => hgo ⟨hd, hne⟩
        exact if_pos (by simpa [shows] using ht)
      · rfl
    rw [hsame]
    exact ⟨rfl, rfl, rfl⟩

/-- So do entries that come in. -/
theorem keepsLoop_entriesLoaded {s : Page} (hs : s.entries.Tidy s.wantedQueue)
    (n q : Nat)
    (ok : Bool) : s.KeepsLoop (.entriesLoaded n q ok) := by
  have hauto : (s.entries.entriesLoaded s.qid (s.shows .queue) n q ok).auto =
      s.entries.auto := by
    unfold EntriesRefresh.entriesLoaded
    split <;> rfl
  have hw : (s.step (.entriesLoaded n q ok)).wantedQueue = s.wantedQueue := by
    unfold wantedQueue
    simp only [step, hauto]
    rfl
  refine ⟨hw ▸ EntriesRefresh.tidy_entriesLoaded hs n q ok, fun ha => ?_⟩
  unfold Refreshing EntriesRefresh.Alive at ha ⊢
  rw [hw]
  rcases EntriesRefresh.queue_entriesLoaded hs n q ok
    with ⟨hf, hcur, hnil⟩ | ⟨hf, hsame⟩
  · refine iff_of_false (fun h => ?_) fun h => h hf
    rw [hcur] at ha
    have : [] = [q] := by
      simpa [hnil, step, EntriesTurn.queue] using h.trans ha.symm
    cases this
  · exact iff_of_true (hsame.trans ha) hf

/-- **A step** keeps what is said of the loop. -/
theorem keepsLoop_step {s : Page} (hs : s.entries.Tidy s.wantedQueue)
    (e : PageEvent) :
    s.KeepsLoop e := by
  have same {e : PageEvent} (hno : ¬ s.LosesLoop e)
      (h : SameLoop s (s.step e)) :=
    KeepsLoop.of_same hs h hno
  cases e with
  | device name =>
      obtain ⟨hent, hqid⟩ := entries_selectDevice s name
      refine KeepsLoop.of_stop hs hent ?_ id
      unfold wantedQueue
      simp only [step, hqid, ite_self]
  | tab tab => exact keepsLoop_switchTab hs tab
  | queueRow qid =>
      by_cases ht : s.shows .queue
      · have hstep :
            s.step (.queueRow qid) =
            (s.loadEntries qid).startEntriesAutoRefresh :=
          if_pos ht
        refine KeepsLoop.of_start (r := s.entries) (q := some qid)
          (b := s.shows .queue)
          hs (by rw [hstep]; rfl) ?_ id
        unfold wantedQueue
        simp [hstep, startEntriesAutoRefresh, loadEntries, shows]
      · have hstep : s.step (.queueRow qid) = s := if_neg ht
        exact same id (hstep.symm ▸ ⟨rfl, rfl, rfl⟩)
  | entriesAuto checked =>
      by_cases ht : s.shows .queue
      · have htidy :
            ({ s.entries with auto := checked } : EntriesRefresh).Tidy
            s.wantedQueue :=
          ⟨hs.loop, hs.timer⟩
        cases checked with
        | true =>
            have hstep :
                s.step (.entriesAuto true) = Page.startEntriesAutoRefresh
                { s with entries := { s.entries with auto := true } } := by
                  simp [step, ht]
            refine KeepsLoop.of_start (q := s.qid) (b := s.shows .queue)
              htidy ?_ ?_ id
            · rw [hstep]
              rfl
            · unfold wantedQueue
              simp only [hstep, startEntriesAutoRefresh,
                EntriesRefresh.auto_start]
              rfl
        | false =>
            have hstep :
                s.step (.entriesAuto false) = Page.stopEntriesAutoRefresh
                { s with entries := { s.entries with auto := false } } := by
                  simp [step, ht]
            refine KeepsLoop.of_stop htidy ?_ ?_ id
            · rw [hstep]
              rfl
            · unfold wantedQueue
              rw [hstep]
              simp [stopEntriesAutoRefresh,
                EntriesRefresh.stopEntriesAutoRefresh]
      · have hstep : s.step (.entriesAuto checked) = s := if_neg ht
        exact same id (hstep.symm ▸ ⟨rfl, rfl, rfl⟩)
  | entriesTime n id q =>
      have hw : (s.step (.entriesTime n id q)).wantedQueue = s.wantedQueue :=
        rfl
      constructor
      · rw [hw]
        exact EntriesRefresh.tidy_entriesTime hs n id q
      · intro ha
        unfold Refreshing EntriesRefresh.Alive at ha ⊢
        rw [hw]
        exact iff_of_true
          ((EntriesRefresh.queue_entriesTime hs n id q).trans ha) not_false
  | entriesLoaded n q ok => exact keepsLoop_entriesLoaded hs n q ok
  | refresh c =>
      refine same id ?_
      rw [step]
      split
      · exact sameLoop_refresh s c
      · exact ⟨rfl, rfl, rfl⟩
  | reconnectTime c n => exact same id (sameLoop_reconnectTime s c n)
  | topoRefresh | procRefresh | target =>
      refine same id ?_
      rw [step]
      split <;> exact ⟨rfl, rfl, rfl⟩
  | _ => exact same id ⟨rfl, rfl, rfl⟩

/-- A fresh page is tidy. -/
theorem tidy_initial : initial.entries.Tidy initial.wantedQueue :=
  ⟨List.nil_sublist _, fun _ _ _ h => nomatch h⟩

/-- The loop over the entries has at most one current turn, about the queue
selected and only while its tab is open and its box checked, and the one timer
that can be pending belongs to it. -/
theorem one_entries_loop (es : List PageEvent) :
    ((after es).entries.loops.current.map EntriesTurn.queue).Sublist
      (after es).wantedQueue.toList ∧
      ∀ n id q, (n, EntriesTurn.timer id q) ∈ (after es).entries.loops.tasks →
        n = (after es).entries.loops.gen ∧
          (after es).entries.timerId = some id := by
  have h : Runs.Always step (fun s =>
      s.entries.Tidy s.wantedQueue) initial es :=
    Runs.always_of_step (fun _ h => h) (fun _ e hs =>
      (keepsLoop_step hs e).tidy) es tidy_initial
  exact ⟨h.last.loop, h.last.timer⟩

/-- The loop runs at every moment at which it is to, if and only if none of the
requests of a current turn fails. -/
theorem refreshing_iff (es : List PageEvent) :
    Runs.Always step Refreshing initial es ↔
      Runs.Each step (fun s e => ¬ s.LosesLoop e) initial es := by
  refine Runs.always_iff_each (I := fun s : Page =>
    s.entries.Tidy s.wantedQueue ∧ s.Refreshing)
    (fun _ h => h.2) ?_ ?_ ⟨tidy_initial, rfl⟩
  · intro s e hs hno
    have h := keepsLoop_step hs.1 e
    exact ⟨h.tidy, (h.alive hs.2).mpr hno⟩
  · intro s e hs hP
    exact ((keepsLoop_step hs.1 e).alive hs.2).mp hP

end Page

end Telemetryd
