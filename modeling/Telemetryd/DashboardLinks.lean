import Telemetryd.Dashboard
import Telemetryd.Lib.Runs

/-!
# The connections of the page

Whatever the order in which buttons are pressed, sockets close, timers go off
and messages come in, the page works on one connection at a time: the one of the
tab that is open, to the device that is selected.  A channel whose tab is hidden
has no socket at all, and a reconnect timer that has been overtaken does nothing
when it goes off.
-/

namespace Telemetryd

/-! ### One connection -/

/-- A socket that has not closed is the one in `ws`, and it is of the present
generation. -/
def Link.Held (l : Link) : Prop :=
  ∀ n d, (n, Attempt.socket d) ∈ l.guard.tasks → l.ws = some n ∧ n = l.guard.gen

/-- The link works on one attempt for the device that is wanted, and on none if
nothing is wanted. -/
structure Link.Serves (l : Link) (wanted : Option (Option PyText)) : Prop where
  held : l.Held
  current : l.guard.current.map Attempt.device = wanted.toList

/-- After hanging up the guard has no socket left. -/
theorem Link.not_mem_hangUp {l : Link} (hl : l.Held) {n : Nat}
    {d : Option PyText} :
    (n, Attempt.socket d) ∉ l.hangUp.guard.tasks := by
  intro h
  obtain ⟨a, ha, hf⟩ := Pool.mem_tasks_revise.mp h
  split at hf
  · cases hf
  · rename_i hno
    obtain rfl := Option.some.inj hf
    exact hno ⟨rfl, (hl n d ha).1⟩

/-- The link of a fresh page is held. -/
theorem Link.held_initial : Link.initial.Held := by
  intro n d h
  cases h

/-- The link of a fresh page serves nothing, as it is to. -/
theorem Link.serves_initial : Link.initial.Serves none := ⟨held_initial, rfl⟩

/-- Connecting serves what was asked for, whatever was there before. -/
theorem Link.serves_connect {l : Link} (hl : l.Held) (device : Option PyText) :
    (l.connect device).Serves (some device) := by
  constructor
  · intro n d h
    rcases List.mem_append.mp h with h | h
    · exact absurd h (Link.not_mem_hangUp hl)
    · obtain ⟨rfl, -⟩ := Prod.mk.inj (List.mem_singleton.mp h)
      exact ⟨rfl, rfl⟩
  · simp [connect, Attempt.device]

/-- A stopped link serves nothing. -/
theorem Link.serves_stop {l : Link} (hl : l.Held) : l.stop.Serves none := by
  constructor
  · intro n d h
    obtain ⟨a, ha, hf⟩ := Pool.mem_tasks_revise.mp h
    split at hf
    · cases hf
    · rename_i hno
      obtain rfl := Option.some.inj hf
      exact absurd ⟨rfl, (hl n d ha).1⟩ hno
  · simp [stop, hangUp]

/-- A socket that closes leaves its timer in its place, a late one changes
nothing. -/
theorem Link.serves_onclose {l : Link} {w : Option (Option PyText)}
    (hl : l.Serves w) (n : Nat) :
    (l.onclose n).Serves w := by
  constructor
  · intro m d h
    obtain ⟨a, ha, hf⟩ := Pool.mem_tasks_revise.mp h
    cases a with
    | socket d' =>
        by_cases hm : m = n
        · by_cases hn : n = l.guard.gen <;> simp [hm, hn] at hf
        · simp only [hm, if_false, Option.some.injEq,
            Attempt.socket.injEq] at hf
          exact hl.held m d (hf ▸ ha)
    | reconnect d' => simp at hf
  · have hdev : (l.onclose n).guard.current.map Attempt.device =
        l.guard.current.map Attempt.device := by
      simp only [onclose, Pool.current_revise]
      induction l.guard.current with
      | nil => rfl
      | cons a as ih =>
          cases a with
          | reconnect d => simpa using ih
          | socket d =>
              by_cases hg : l.guard.gen = n
              · subst hg
                simpa [Attempt.device] using ih
              · simpa [hg] using ih
    rw [hdev, hl.current]

/-- A timer that has gone off is no longer held. -/
theorem Link.held_fired {l : Link} (hl : l.Held) (n : Nat) :
    (l.fired n).Held := by
  intro m d h
  obtain ⟨a, ha, hf⟩ := Pool.mem_tasks_revise.mp h
  split at hf
  · cases hf
  · obtain rfl := Option.some.inj hf
    exact hl m d ha

/-- A timer of the past changes nothing. -/
theorem Link.serves_fired {l : Link} {w : Option (Option PyText)}
    (hl : l.Serves w) {n : Nat}
    (hn : n ≠ l.guard.gen) : (l.fired n).Serves w := by
  refine ⟨held_fired hl.held n, ?_⟩
  have : (fun a : Attempt => if !a.isSocket ∧ l.guard.gen = n then none
      else some a) = some := by
    funext a
    simp [Ne.symm hn]
  simp only [fired, Pool.current_revise, this, List.filterMap_some, hl.current]

/-- A timer that is found is one of the guard's tasks. -/
theorem Link.mem_of_timer? {l : Link} {n : Nat} {d : Option PyText}
    (h : l.timer? n = some d) :
    (n, Attempt.reconnect d) ∈ l.guard.tasks := by
  obtain ⟨⟨m, a⟩, ha, hf⟩ := List.exists_of_findSome?_eq_some h
  cases a with
  | socket d' => cases hf
  | reconnect d' =>
      by_cases hm : m = n
      · simp only [hm, if_true, Option.some.injEq] at hf
        exact hf ▸ hm ▸ ha
      · simp [hm] at hf

/-- A timer of the present generation is for what is wanted. -/
theorem Link.Serves.wanted_of_timer? {l : Link} {w : Option (Option PyText)}
    (hl : l.Serves w)
    {d : Option PyText} (h : l.timer? l.guard.gen = some d) : w = some d := by
  have hmem : Attempt.reconnect d ∈ l.guard.current :=
    Pool.mem_current.mpr (mem_of_timer? h)
  have hdev : d ∈ w.toList := hl.current ▸ List.mem_map_of_mem hmem
  exact Option.mem_toList.mp hdev

/-! ### The page -/

namespace Page

/-- What a channel is to be connected to: nothing while its tab is hidden. -/
def wanted (s : Page) (c : Channel) : Option (Option PyText) :=
  if s.activeTab = some c.tab then
    if c = .profile then some none else s.device.map some
  else none

/-- Every channel works on what is wanted of it. -/
def Serving (s : Page) : Prop :=
  ∀ c, (s.link c).Serves (s.wanted c)

/-- An operation on one link leaves the other links alone. -/
@[simp] theorem link_onLink (c k : Channel) (f : Link → Link) (s : Page) :
    (s.onLink c f).link k = if k = c then f (s.link k) else s.link k := rfl
/-- An operation on a link does not select a device. -/
@[simp] theorem device_onLink (c : Channel) (f : Link → Link) (s : Page) :
    (s.onLink c f).device = s.device := rfl
/-- An operation on a link does not switch the tab. -/
@[simp] theorem activeTab_onLink (c : Channel) (f : Link → Link) (s : Page) :
    (s.onLink c f).activeTab = s.activeTab := rfl

/-- The parts of the page that the connections depend on are the same. -/
structure SameLinks (s t : Page) : Prop where
  link : t.link = s.link
  device : t.device = s.device
  activeTab : t.activeTab = s.activeTab

/-- A page has its own links. -/
theorem SameLinks.rfl {s : Page} : SameLinks s s :=
  ⟨Eq.refl _, Eq.refl _, Eq.refl _⟩

/-- Pages with the links of a third have each other's. -/
theorem SameLinks.trans {s t u : Page} (h : SameLinks s t)
    (h' : SameLinks t u) :
    SameLinks s u :=
  ⟨h'.link.trans h.link, h'.device.trans h.device,
    h'.activeTab.trans h.activeTab⟩

/-- What the links serve depends on the links, the device and the tab only. -/
theorem SameLinks.serving {s t : Page} (h : SameLinks s t) (hs : s.Serving) :
    t.Serving := by
  intro c
  have hw : t.wanted c = s.wanted c := by
    unfold wanted
    rw [h.activeTab, h.device]
  rw [hw, h.link]
  exact hs c

/-- A fresh page has no tab open and serves none. -/
theorem serving_initial : initial.Serving := by
  intro c
  exact Link.serves_initial

/-- Selecting a device connects the link of the open tab to it and stops the
others.  The profile is of all devices and stays. -/
theorem link_selectDevice (s : Page) (name : PyText) (c : Channel) :
    (s.selectDevice name).link c =
      if c = .profile then s.link c
      else if s.shows c.tab then (s.link c).connect (some name)
        else (s.link c).stop := by
  rcases ht : s.activeTab with _ | t
  · cases c <;> simp [selectDevice, shows, ht, Channel.tab, stopWS, stopPerfWS,
      stopEventsWS,
      stopErrorStatsPolling, stopEntriesAutoRefresh, onLink]
  · cases t <;> cases c <;>
      simp [selectDevice, shows, ht, Channel.tab, connectWS, stopWS,
        connectPerfWS, stopPerfWS,
        connectEventsWS, stopEventsWS, stopErrorStatsPolling,
        startErrorStatsPolling,
        stopEntriesAutoRefresh, onLink]

/-- The device that was pressed is selected. -/
theorem device_selectDevice (s : Page) (name : PyText) :
    (s.selectDevice name).device = some name := by
  unfold selectDevice
  dsimp only
  split <;> split <;> split <;> rfl

/-- Selecting a device does not switch the tab. -/
theorem activeTab_selectDevice (s : Page) (name : PyText) :
    (s.selectDevice name).activeTab = s.activeTab := by
  unfold selectDevice
  dsimp only
  split <;> split <;> split <;> rfl

/-- Switching to a tab connects its link and stops the others. -/
theorem link_switchTab {s : Page} {device : PyText}
    (hd : s.device = some device) {tab : Tab}
    (hne : s.activeTab ≠ some tab) (c : Channel) :
    (s.switchTab tab).link c =
      if c.tab = tab then (s.link c).connect (if c = .profile then none
        else some device)
      else (s.link c).stop := by
  have hshows : s.shows tab = false := by simpa [shows] using hne
  cases tab <;> cases c <;>
    simp [switchTab, hshows, leaveTabs, openTab, hd, Channel.tab,
      connectWS, stopWS,
      connectPerfWS, stopPerfWS, connectEventsWS, stopEventsWS,
      connectProfileWS, stopProfileWS,
      stopEntriesAutoRefresh, startEntriesAutoRefresh, stopErrorStatsPolling,
      startErrorStatsPolling, onLink]

/-- Switching the tab does not select a device. -/
theorem device_switchTab (s : Page) (tab : Tab) :
    (s.switchTab tab).device = s.device := by
  unfold switchTab
  split
  · rfl
  · cases tab <;> cases s.device <;>
      simp [leaveTabs, openTab, connectWS, stopWS,
      connectPerfWS, stopPerfWS, connectEventsWS, stopEventsWS,
      connectProfileWS, stopProfileWS,
      stopEntriesAutoRefresh, startEntriesAutoRefresh, stopErrorStatsPolling,
      startErrorStatsPolling, onLink]

/-- The tab that was pressed is open. -/
theorem activeTab_switchTab (s : Page) (tab : Tab) :
    (s.switchTab tab).activeTab = some tab := by
  unfold switchTab
  split
  · rename_i h
    simpa [shows] using h
  · cases tab <;> cases s.device <;>
      simp [leaveTabs, openTab, connectWS, stopWS,
      connectPerfWS, stopPerfWS, connectEventsWS, stopEventsWS,
      connectProfileWS, stopProfileWS,
      stopEntriesAutoRefresh, startEntriesAutoRefresh, stopErrorStatsPolling,
      startErrorStatsPolling, onLink]

/-! ### One step -/

/-- Selecting a device connects the tab that is open and stops the others.  The
profile channel goes on. -/
theorem serving_selectDevice {s : Page} (hs : s.Serving) (name : PyText) :
    (s.selectDevice name).Serving := by
  intro c
  have h := hs c
  rw [link_selectDevice]
  unfold wanted at h ⊢
  rw [activeTab_selectDevice, device_selectDevice]
  by_cases hc : c = .profile
  · simpa only [hc, if_true] using h
  · rw [if_neg hc]
    by_cases ht : s.activeTab = some c.tab
    · have hshows : s.shows c.tab = true := by simpa [shows] using ht
      simpa [hshows, ht, hc] using Link.serves_connect h.held (some name)
    · have hshows : s.shows c.tab = false := by simpa [shows] using ht
      simpa [hshows, ht] using Link.serves_stop h.held

/-- Opening a tab connects its channel and stops the others. -/
theorem serving_switchTab {s : Page} (hs : s.Serving) (hd : s.device.isSome)
    (tab : Tab) :
    (s.switchTab tab).Serving := by
  obtain ⟨device, hd⟩ := Option.isSome_iff_exists.mp hd
  by_cases hne : s.activeTab = some tab
  · rwa [switchTab, if_pos (by simpa [shows] using hne)]
  intro c
  have h := hs c
  unfold wanted
  rw [link_switchTab hd hne, activeTab_switchTab, device_switchTab, hd]
  by_cases hc : c.tab = tab
  · subst hc
    by_cases hp : c = .profile
    · simpa [hp] using hp ▸ Link.serves_connect h.held none
    · simpa [hp] using Link.serves_connect h.held (some device)
  · have hc' : some tab ≠ some c.tab := fun h => hc (Option.some.inj h).symm
    simpa [hc, hc'] using Link.serves_stop h.held

/-- One channel is connected anew to what is wanted of it. -/
theorem serving_connect {s : Page} (hs : s.Serving) {c : Channel}
    {device : Option PyText}
    (hw : s.wanted c = some device) :
    (s.onLink c (.connect device)).Serving := by
  intro k
  have h := hs k
  change Link.Serves _ (s.wanted k)
  rw [link_onLink]
  by_cases hk : k = c
  · rw [if_pos hk, hk, hw]
    exact Link.serves_connect (hs c).held device
  · rwa [if_neg hk]

/-- A refresh button connects the link of its own tab anew. -/
theorem serving_refresh {s : Page} (hs : s.Serving) {c : Channel}
    (ht : s.shows c.tab) :
    (s.refresh c).Serving := by
  unfold refresh
  cases hd : s.device with
  | none => exact hs
  | some device =>
      have ht' : s.activeTab = some c.tab := by simpa [shows] using ht
      cases c with
      | metrics => exact serving_connect hs (by simp [wanted, ht', hd])
      | performance => exact serving_connect hs (by simp [wanted, ht', hd])
      | events => exact serving_connect hs (by simp [wanted, ht', hd])
      | profile => exact hs

/-- A socket that closes leaves a page that serves its tab. -/
theorem serving_closed {s : Page} (hs : s.Serving) (c : Channel) (n : Nat) :
    (s.onLink c (.onclose n)).Serving := by
  intro k
  have h := hs k
  change Link.Serves _ (s.wanted k)
  rw [link_onLink]
  by_cases hk : k = c
  · rw [if_pos hk]
    exact Link.serves_onclose h n
  · rwa [if_neg hk]

/-- Of the three checks of a reconnect timer the first decides: if nothing has
overtaken the timer, its device is the one selected and its tab the one open. -/
theorem checks_of_current {s : Page} (hs : s.Serving) {c : Channel}
    {device : Option PyText}
    (h : (s.link c).timer? (s.link c).guard.gen = some device) :
    s.wanted c = some device ∧ (device = none ∨ s.device = device) ∧
      s.shows c.tab := by
  have hw : s.wanted c = some device := (hs c).wanted_of_timer? h
  refine ⟨hw, ?_⟩
  unfold wanted at hw
  split at hw
  · rename_i ht
    refine ⟨?_, by simpa [shows] using ht⟩
    split at hw
    · exact .inl (Option.some.inj hw).symm
    · obtain ⟨d, hd, rfl⟩ := Option.map_eq_some_iff.mp hw
      exact .inr hd
  · cases hw

/-- A reconnect timer that goes off connects the channel to what is wanted,
unless it has been overtaken.  Then it does nothing. -/
theorem reconnectTime_eq {s : Page} (hs : s.Serving) {c : Channel} {n : Nat}
    {device : Option PyText} (h : (s.link c).timer? n = some device) :
    s.reconnectTime c n =
      if n = (s.link c).guard.gen
        then (s.onLink c (.fired n)).onLink c (.connect device)
      else s.onLink c (.fired n) := by
  have hgen : ((s.onLink c (.fired n)).link c).guard.gen =
      (s.link c).guard.gen := by
    simp [Link.fired]
  unfold reconnectTime
  simp only [h, hgen]
  by_cases hn : n = (s.link c).guard.gen
  · obtain ⟨-, hd, ht⟩ := checks_of_current hs (hn ▸ h)
    rw [if_pos ⟨hn, hd, ht⟩, if_pos hn]
  · rw [if_neg fun h => hn h.1, if_neg hn]

/-- So does a timer that goes off, late or not. -/
theorem serving_reconnectTime {s : Page} (hs : s.Serving) (c : Channel)
    (n : Nat) :
    (s.reconnectTime c n).Serving := by
  cases h : (s.link c).timer? n with
  | none =>
      unfold reconnectTime
      rwa [h]
  | some device =>
      rw [reconnectTime_eq hs h]
      intro k
      have hk := hs k
      split
      · rename_i hn
        change Link.Serves _ (s.wanted k)
        rw [link_onLink, link_onLink]
        by_cases hkc : k = c
        · subst hkc
          rw [if_pos rfl, if_pos rfl, (checks_of_current hs (hn ▸ h)).1]
          exact Link.serves_connect (Link.held_fired hk.held n) device
        · rwa [if_neg hkc, if_neg hkc]
      · rename_i hn
        change Link.Serves _ (s.wanted k)
        rw [link_onLink]
        by_cases hkc : k = c
        · subst hkc
          rw [if_pos rfl]
          exact Link.serves_fired hk hn
        · rwa [if_neg hkc]

/-- Everything that can happen keeps the connections in order. -/
theorem serving_step {s : Page} (hs : s.Serving) (e : PageEvent) :
    (s.step e).Serving := by
  have same {t : Page} (hl : t.link = s.link) (hd : t.device = s.device)
      (ht : t.activeTab = s.activeTab) : t.Serving :=
    SameLinks.serving ⟨hl, hd, ht⟩ hs
  cases e with
  | device name => exact serving_selectDevice hs name
  | tab tab =>
      rw [step]
      split
      · rename_i hd
        exact serving_switchTab hs hd tab
      · exact hs
  | refresh c =>
      rw [step]
      split
      · rename_i ht
        exact serving_refresh hs ht
      · exact hs
  | closed c n => exact serving_closed hs c n
  | reconnectTime c n => exact serving_reconnectTime hs c n
  | queueRow qid =>
      rw [step]
      split <;> exact same rfl rfl rfl
  | entriesAuto checked =>
      rw [step]
      split
      · dsimp only
        split <;> exact same rfl rfl rfl
      · exact hs
  | topoRefresh | procRefresh | target =>
      rw [step]
      split <;> exact same rfl rfl rfl
  | _ => exact same rfl rfl rfl

/-! ### Whole runs -/

/-- The page after a run of events. -/
def after (es : List PageEvent) : Page := es.foldl step initial

/-- After all events the page serves the tab that is open, and no other. -/
theorem serving_after (es : List PageEvent) : (after es).Serving := by
  have h : Runs.Always step Serving initial es :=
    Runs.always_of_step (fun _ h => h) (fun _ e hs =>
      serving_step hs e) es serving_initial
  exact h.last

end Page

/-- The device of an attempt that is a socket. -/
def Attempt.socket? : Attempt → Option (Option PyText)
  | .socket device => some device
  | .reconnect _ => none

/-- The sockets of a link that have not closed, stale ones included. -/
def Link.sockets (l : Link) : List (Option PyText) :=
  l.guard.tasks.filterMap fun t => t.2.socket?

/-- There are no sockets of the past. -/
theorem Link.Held.sockets_eq {l : Link} (hl : l.Held) :
    l.sockets = l.guard.current.filterMap Attempt.socket? := by
  rw [sockets, Pool.current, List.filterMap_filterMap]
  refine List.filterMap_congr fun t ht => ?_
  rcases t with ⟨n, d | d⟩
  · simp [(hl n d ht).2]
  · by_cases hn : n = l.guard.gen <;> simp [hn, Attempt.socket?]

/-- The sockets of a link are at most the one it is to have. -/
theorem Link.Serves.sockets_subset {l : Link} {w : Option (Option PyText)}
    (hl : l.Serves w) :
    l.sockets.Sublist w.toList := by
  rw [hl.held.sockets_eq, ← hl.current]
  induction l.guard.current with
  | nil => exact .slnil
  | cons a as ih =>
      cases a with
      | socket d => exact ih.cons_cons d
      | reconnect d => exact ih.cons d

namespace Page

/-- The sockets of the whole page. -/
def sockets (s : Page) : List (Channel × Option PyText) :=
  [Channel.metrics, .performance, .events, .profile].flatMap fun c =>
    (s.link c).sockets.map (c, ·)

/-- A link has at most one socket, and none unless its tab is open. -/
theorem Serving.length_sockets {s : Page} (hs : s.Serving) (c : Channel) :
    (s.link c).sockets.length ≤ if s.activeTab = some c.tab then 1 else 0 := by
  refine (hs c).sockets_subset.length_le.trans ?_
  unfold wanted
  split
  · exact Option.length_toList_le
  · exact le_rfl

/-- At every moment the page works on exactly one connection for the tab that is
open, a socket or the timer that is to replace it, and on none for the others.
All its sockets together are at most one, to the device that is selected. -/
theorem one_connection (es : List PageEvent) :
    (∀ c, ((after es).link c).guard.current.map Attempt.device =
      ((after es).wanted c).toList) ∧
    (∀ c d, (c, d) ∈ (after es).sockets → (after es).wanted c = some d) ∧
    (after es).sockets.length ≤ 1 := by
  have hs := serving_after es
  refine ⟨fun c => (hs c).current, fun c d h => ?_, ?_⟩
  · obtain ⟨k, -, hk⟩ := List.mem_flatMap.mp h
    obtain ⟨d', hd', heq⟩ := List.mem_map.mp hk
    obtain ⟨rfl, rfl⟩ := Prod.mk.inj heq
    exact Option.mem_toList.mp ((hs k).sockets_subset.subset hd')
  · have hm := hs.length_sockets .metrics
    have hp := hs.length_sockets .performance
    have he := hs.length_sockets .events
    have hf := hs.length_sockets .profile
    have hsum : (after es).sockets.length =
        ((after es).link .metrics).sockets.length +
          ((after es).link .performance).sockets.length +
          ((after es).link .events).sockets.length +
            ((after es).link .profile).sockets.length := by
      simp [sockets, Nat.add_assoc]
    rw [hsum]
    cases ht : (after es).activeTab with
    | none =>
        simp only [ht, reduceCtorEq, if_false] at hm hp he hf
        omega
    | some t =>
        cases t <;> simp only [ht, Channel.tab, Option.some.injEq, reduceCtorEq,
          if_false,
          if_true] at hm hp he hf <;> omega

end Page

/-- Right after connecting there is the new socket and no other. -/
theorem Link.sockets_connect {l : Link} (hl : l.Held) (d : Option PyText) :
    (l.connect d).sockets = [d] := by
  rw [(serves_connect hl d).held.sockets_eq]
  simp [connect, Attempt.socket?]

/-- A pending reconnection is found under its number. -/
theorem Link.exists_timer? {l : Link} {n : Nat} {d : Option PyText}
    (h : (n, Attempt.reconnect d) ∈ l.guard.tasks) :
    ∃ d', l.timer? n = some d' := by
  refine Option.isSome_iff_exists.mp (List.findSome?_isSome_iff.mpr ⟨_, h, ?_⟩)
  simp

namespace Page

/-- What is wanted is never given up: at every moment the channel has its
socket, or a timer whose going off opens it. -/
theorem reconnects (es : List PageEvent) (c : Channel) (d : Option PyText)
    (hw : (after es).wanted c = some d) :
    ((after es).link c).sockets = [d] ∨
      ∃ n, ((after es).link c).timer? n = some d ∧
        ((after (es ++ [.reconnectTime c n])).link c).sockets = [d] := by
  have hs := serving_after es
  have hc := hs c
  have hdev : ((after es).link c).guard.current.map Attempt.device = [d] := by
    rw [hc.current, hw]
    rfl
  obtain ⟨a, hcur, rfl⟩ := List.map_eq_singleton_iff.mp hdev
  cases a with
  | socket d =>
      left
      rw [hc.held.sockets_eq, hcur]
      rfl
  | reconnect d =>
      right
      have hmem : (((after es).link c).guard.gen, Attempt.reconnect d) ∈
          ((after es).link c).guard.tasks :=
            Pool.mem_current.mp (by simp [hcur])
      obtain ⟨d', ht⟩ := Link.exists_timer? hmem
      obtain rfl : d = d' :=
        Option.some.inj (hw.symm.trans (hc.wanted_of_timer? ht))
      refine ⟨_, ht, ?_⟩
      have hstep :
          after (es ++ [.reconnectTime c ((after es).link c).guard.gen]) =
          (after es).reconnectTime c ((after es).link c).guard.gen := by
        simp [after, step]
      rw [hstep, reconnectTime_eq hs ht, if_pos rfl, link_onLink, if_pos rfl,
        link_onLink,
        if_pos rfl]
      exact Link.sockets_connect (Link.held_fired hc.held _) _

/-- A socket that is lost while its tab is open. -/
theorem reconnects_lost :
    let es := [PageEvent.device "nvme0".toList, .tab .queue, .closed .metrics 2]
    ((after es).link .metrics).sockets = [some "nvme0".toList] ∨
      ∃ n, ((after es).link .metrics).timer? n = some (some "nvme0".toList) ∧
        ((after (es ++ [.reconnectTime .metrics n])).link .metrics).sockets =
          [some "nvme0".toList] :=
  reconnects [.device "nvme0".toList, .tab .queue, .closed .metrics 2] .metrics
    (some "nvme0".toList) rfl

end Page

end Telemetryd
