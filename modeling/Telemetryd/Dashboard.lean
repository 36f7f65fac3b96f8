import Telemetryd.Lib.PyText
import Telemetryd.Lib.Generation
import Mathlib.Data.List.Basic

/-!
# The dashboard page

The single page of the web server keeps one WebSocket for each tab with live
data, reconnects it three seconds after it is lost, and polls two tables by
timers.  Everything it does is the answer to something that happens: a control
is used, a socket closes, a timer goes off, a reply arrives.  These come in any
order, and the callbacks of what has been given up in the meantime come as well.

The four connections are copies of one piece of code with names of their own;
`Link` is that piece.  What is drawn is left out: the model keeps what decides
which requests are made.
-/

namespace Telemetryd

/-- `TABS` -/
inductive Tab where
  | queue
  | perf
  | event
  | topo
  | prof
  deriving DecidableEq

/-- The WebSockets of the page. -/
inductive Channel where
  | metrics
  | performance
  | events
  | profile
  deriving DecidableEq

/-- The tab that a channel feeds. -/
def Channel.tab : Channel → Tab
  | .metrics => .queue
  | .performance => .perf
  | .events => .event
  | .profile => .prof

/-! ### One connection -/

/-- What a channel can have under way: a socket that has not closed, or the
timer that is to replace a lost one.  Both remember the device they were made
for; the profile channel is not about a device. -/
inductive Attempt where
  | socket (device : Option PyText)
  | reconnect (device : Option PyText)
  deriving DecidableEq

/-- Is it a socket? -/
def Attempt.isSocket : Attempt → Bool
  | .socket _ => true
  | .reconnect _ => false

/-- The device it was made for. -/
def Attempt.device : Attempt → Option PyText
  | .socket device => device
  | .reconnect device => device

/-- A connection: `wsGen` with the callbacks that hold a value of it, and `ws`.
A socket is made under a number of its own, which stands for it in `ws`. -/
structure Link where
  guard : Pool Attempt
  ws : Option Nat

/-- `let ws = null; let wsGen = 0;` -/
def Link.initial : Link := ⟨.idle, none⟩

/-- `if (ws) { ws.onclose = null; ws.close(); ws = null; }`.  A socket that
closes without its handler leaves nothing behind. -/
def Link.hangUp (l : Link) : Link :=
  ⟨l.guard.revise fun n a => if a.isSocket ∧ l.ws = some n then none
    else some a, none⟩

/-- The body of `connectWS` and its copies. -/
def Link.connect (device : Option PyText) (l : Link) : Link :=
  ⟨l.hangUp.guard.raise.start (.socket device), some (l.guard.gen + 1)⟩

/-- The body of `stopWS` and its copies. -/
def Link.stop (l : Link) : Link :=
  (⟨l.guard.raise, l.ws⟩ : Link).hangUp

/-- `sock.onclose` of the socket with number `n`. -/
def Link.onclose (n : Nat) (l : Link) : Link :=
  { l with guard := l.guard.revise fun m a =>
      match a with
      | .socket device =>
          if m = n then if n = l.guard.gen then some (.reconnect device)
            else none else some a
      | .reconnect _ => some a }

/-- The reconnect timer with number `n` that is pending. -/
def Link.timer? (n : Nat) (l : Link) : Option (Option PyText) :=
  l.guard.tasks.findSome? fun t =>
    match t with
    | (m, .reconnect device) => if m = n then some device else none
    | (_, .socket _) => none

/-- The timer with number `n` is no longer pending. -/
def Link.fired (n : Nat) (l : Link) : Link :=
  { l with guard := l.guard.revise fun m a => if !a.isSocket ∧ m = n then none
    else some a }

/-! ### The entries of a queue -/

/-- A turn of the automatic refresh of the queue entries: the timer with its id,
or the request that is being answered.  Both are about one queue. -/
inductive EntriesTurn where
  | timer (id : Nat) (qid : Nat)
  | load (qid : Nat)
  deriving DecidableEq

/-- The check box `entries-auto`, `entriesGen` with the callbacks that hold a
value of it, and `entriesTimerId`.  `timerIds` counts the ids that `setTimeout`
has handed out here. -/
structure EntriesRefresh where
  auto : Bool
  loops : Pool EntriesTurn
  timerId : Option Nat
  timerIds : Nat

namespace EntriesRefresh

/-- `stopEntriesAutoRefresh` -/
def stopEntriesAutoRefresh (r : EntriesRefresh) : EntriesRefresh :=
  { r with
    loops := r.loops.raise.revise fun _ t =>
      match t with
      | .timer id _ => if r.timerId = some id then none else some t
      | .load _ => some t
    timerId := none }

/-- `startEntriesAutoRefresh`, with `state.qid` and whether the tab is
`'queue'`. -/
def startEntriesAutoRefresh (qid : Option Nat) (shown : Bool)
    (r : EntriesRefresh) :
    EntriesRefresh :=
  let r := r.stopEntriesAutoRefresh
  match qid with
  | none => r
  | some qid =>
      if r.auto ∧ shown then
        { r with
          loops := r.loops.start (.timer (r.timerIds + 1) qid)
          timerId := some (r.timerIds + 1)
          timerIds := r.timerIds + 1 }
      else r

/-- `tick` up to its `await`, when the timer `id` for the queue `q` of
generation `n` goes off.  The `loadEntries` that it calls sets `state.qid` to
what it is. -/
def entriesTime (qid : Option Nat) (shown : Bool) (n id q : Nat)
    (r : EntriesRefresh) :
    EntriesRefresh :=
  { r with loops := r.loops.revise fun m t =>
      if m = n ∧ t = .timer id q then
        if n = r.loops.gen ∧ qid = some q ∧ shown then some (.load q) else none
      else some t }

/-- The rest of `tick`, when the request for the queue `q` of generation `n` is
answered.  After an error the promise is rejected and nothing follows. -/
def entriesLoaded (qid : Option Nat) (shown : Bool) (n q : Nat) (ok : Bool)
    (r : EntriesRefresh) : EntriesRefresh :=
  if (n, EntriesTurn.load q) ∈ r.loops.tasks ∧ ok ∧ n = r.loops.gen ∧
    qid = some q ∧ shown then
    { r with
      loops := r.loops.revise fun m t =>
        if m = n ∧ t = .load q then some (.timer (r.timerIds + 1) q) else some t
      timerId := some (r.timerIds + 1)
      timerIds := r.timerIds + 1 }
  else
    { r with loops := r.loops.revise fun m t => if m = n ∧ t = .load q then none
      else some t }

end EntriesRefresh

/-! ### The error counters -/

/-- `errorStatsTimerId`, with the timers that are pending, the ids handed out
here and the number of requests in flight. -/
structure ErrorStatsPolling where
  timers : List Nat
  timerId : Option Nat
  timerIds : Nat
  requests : Nat

namespace ErrorStatsPolling

/-- `stopErrorStatsPolling` -/
def stopErrorStatsPolling (p : ErrorStatsPolling) : ErrorStatsPolling :=
  match p.timerId with
  | none => p
  | some id => { p with timers := p.timers.filter (· ≠ id), timerId := none }

/-- `tick` of `startErrorStatsPolling` up to its `await`: `shown` says that the
tab is `'event'` and a device is selected.  `refreshErrorStats` sends its
request at once. -/
def tick (shown : Bool) (p : ErrorStatsPolling) : ErrorStatsPolling :=
  if shown then { p with requests := p.requests + 1 } else p

/-- `startErrorStatsPolling` -/
def startErrorStatsPolling (shown : Bool) (p : ErrorStatsPolling) :
    ErrorStatsPolling :=
  p.stopErrorStatsPolling.tick shown

/-- The timer `id` goes off. -/
def time (shown : Bool) (id : Nat) (p : ErrorStatsPolling) :
    ErrorStatsPolling :=
  if id ∈ p.timers then { p with timers := p.timers.filter (· ≠ id) }.tick shown
    else p

/-- The rest of `tick`, when one of the requests is over; `shown` says that the
tab is `'event'`.  `refreshErrorStats` catches every error. -/
def reply (shown : Bool) (p : ErrorStatsPolling) : ErrorStatsPolling :=
  match p.requests with
  | 0 => p
  | n + 1 =>
      if shown then
        { timers := p.timers ++ [p.timerIds + 1]
          timerId := some (p.timerIds + 1)
          timerIds := p.timerIds + 1
          requests := n }
      else { p with requests := n }

end ErrorStatsPolling

/-! ### Event kinds, processes and the topology -/

/-- `eventKindsLoaded`, with the number of requests in flight. -/
structure EventKindsList where
  loaded : Bool
  requests : Nat

/-- `loadEventKinds` up to its `await`. -/
def EventKindsList.loadEventKinds (k : EventKindsList) : EventKindsList :=
  if k.loaded then k else { k with requests := k.requests + 1 }

/-- The rest of `loadEventKinds`. -/
def EventKindsList.reply (ok : Bool) (k : EventKindsList) : EventKindsList :=
  match k.requests with
  | 0 => k
  | n + 1 => ⟨k.loaded || ok, n⟩

/-- A refresh of the process list: which of its two requests are in flight, and
whether it still waits for them. -/
structure ProcRefresh where
  processes : Bool
  targets : Bool
  awaited : Bool
  deriving DecidableEq

/-- `procRefreshInFlight`, with all the refreshes so far and the number of
changes of the targets in flight. -/
structure ProcessTable where
  inFlight : Bool
  refreshes : List ProcRefresh
  changes : Nat

namespace ProcessTable

/-- `refreshProcesses` up to its `await`. -/
def refreshProcesses (p : ProcessTable) : ProcessTable :=
  if p.inFlight then p
  else { p with inFlight := true, refreshes := p.refreshes ++ [⟨true, true, true⟩] }

/-- One of the requests of the refresh number `i` is answered, which leaves it
as `r`. `Promise.all` settles at the first error or when both are there, and
then the `finally` runs. -/
def settle (i : Nat) (r : ProcRefresh) (ok : Bool) (p : ProcessTable) :
    ProcessTable :=
  if r.awaited ∧ (!ok ∨ !r.processes ∧ !r.targets) then
    { p with inFlight := false, refreshes := p.refreshes.set i { r with awaited := false } }
  else { p with refreshes := p.refreshes.set i r }

/-- The answer to `/api/processes` in the refresh number `i`. -/
def processesReply (i : Nat) (ok : Bool) (p : ProcessTable) : ProcessTable :=
  match p.refreshes[i]? with
  | none => p
  | some r =>
      if r.processes then p.settle i { r with processes := false } ok else p

/-- The answer to `/api/targets` in the refresh number `i`. -/
def targetsReply (i : Nat) (ok : Bool) (p : ProcessTable) : ProcessTable :=
  match p.refreshes[i]? with
  | none => p
  | some r => if r.targets then p.settle i { r with targets := false } ok else p

/-- `addTarget` and `removeTarget` up to their `await`. -/
def change (p : ProcessTable) : ProcessTable :=
  { p with changes := p.changes + 1 }

/-- The rest of `addTarget` and `removeTarget`. -/
def changeReply (ok : Bool) (p : ProcessTable) : ProcessTable :=
  match p.changes with
  | 0 => p
  | n + 1 =>
      if ok then { p with changes := n }.refreshProcesses
        else { p with changes := n }

end ProcessTable

/-- Whether there is `topoData`, `topoLoading`, and the number of requests in
flight. -/
structure TopologyQuery where
  data : Bool
  loading : Bool
  requests : Nat

/-- `loadTopology` up to its `await`. -/
def TopologyQuery.loadTopology (force : Bool) (t : TopologyQuery) :
    TopologyQuery :=
  if t.loading then t
  else if t.data ∧ !force then t
  else { t with loading := true, requests := t.requests + 1 }

/-- The rest of `loadTopology`. -/
def TopologyQuery.reply (ok : Bool) (t : TopologyQuery) : TopologyQuery :=
  match t.requests with
  | 0 => t
  | n + 1 => ⟨t.data || ok, false, n⟩

/-! ### The page -/

/-- The variables of the script. -/
structure Page where
  device : Option PyText
  qid : Option Nat
  activeTab : Option Tab
  link : Channel → Link
  entries : EntriesRefresh
  errorStats : ErrorStatsPolling
  kinds : EventKindsList
  processes : ProcessTable
  topology : TopologyQuery

/-- The page when it has been loaded. -/
def Page.initial : Page where
  device := none
  qid := none
  activeTab := none
  link _ := .initial
  entries := ⟨true, .idle, none, 0⟩
  errorStats := ⟨[], none, 0, 0⟩
  kinds := ⟨false, 0⟩
  processes := ⟨false, [], 0⟩
  topology := ⟨false, false, 0⟩

namespace Page

/-- Is the tab open? -/
def shows (s : Page) (tab : Tab) : Bool := s.activeTab = some tab

/-- One channel is changed, the others stay. -/
def onLink (c : Channel) (f : Link → Link) (s : Page) : Page :=
  { s with link := fun k => if k = c then f (s.link k) else s.link k }

/-- `connectWS`. -/
def connectWS (device : PyText) : Page → Page :=
  onLink .metrics (.connect (some device))
/-- `stopWS`. -/
def stopWS : Page → Page := onLink .metrics .stop
/-- `connectPerfWS`. -/
def connectPerfWS (device : PyText) : Page → Page :=
  onLink .performance (.connect (some device))
/-- `stopPerfWS`. -/
def stopPerfWS : Page → Page := onLink .performance .stop
/-- `connectEventsWS`. -/
def connectEventsWS (device : PyText) : Page → Page :=
  onLink .events (.connect (some device))
/-- `stopEventsWS`. -/
def stopEventsWS : Page → Page := onLink .events .stop
/-- `connectProfileWS`, which is about no device. -/
def connectProfileWS : Page → Page := onLink .profile (.connect none)
/-- `stopProfileWS`. -/
def stopProfileWS : Page → Page := onLink .profile .stop

/-- The timer that `onclose` has set goes off. -/
def reconnectTime (c : Channel) (n : Nat) (s : Page) : Page :=
  match (s.link c).timer? n with
  | none => s
  | some device =>
      let s := s.onLink c (.fired n)
      if n = (s.link c).guard.gen ∧ (device = none ∨ s.device = device) ∧
        s.shows c.tab then
        s.onLink c (.connect device)
      else s

/-- `stopEntriesAutoRefresh`. -/
def stopEntriesAutoRefresh (s : Page) : Page :=
  { s with entries := s.entries.stopEntriesAutoRefresh }

/-- `startEntriesAutoRefresh`. -/
def startEntriesAutoRefresh (s : Page) : Page :=
  { s with entries := s.entries.startEntriesAutoRefresh s.qid (s.shows .queue) }

/-- `loadEntries`, less its requests. -/
def loadEntries (qid : Nat) (s : Page) : Page :=
  { s with qid := some qid }

/-- `stopErrorStatsPolling`. -/
def stopErrorStatsPolling (s : Page) : Page :=
  { s with errorStats := s.errorStats.stopErrorStatsPolling }

/-- `startErrorStatsPolling`. -/
def startErrorStatsPolling (s : Page) : Page :=
  { s with errorStats :=
      s.errorStats.startErrorStatsPolling (s.shows .event && s.device.isSome) }

/-- `selectDevice` -/
def selectDevice (name : PyText) (s : Page) : Page :=
  let s := { s with device := some name, qid := none }.stopEntriesAutoRefresh
  let s := if s.shows .queue then s.connectWS name else s.stopWS
  let s := if s.shows .perf then s.connectPerfWS name else s.stopPerfWS
  if s.shows .event then (s.connectEventsWS name).startErrorStatsPolling
  else s.stopEventsWS.stopErrorStatsPolling

/-- What `switchTab` does with the tabs that are left. -/
def leaveTabs (tab : Tab) (s : Page) : Page :=
  let s := if tab ≠ .queue then s.stopWS.stopEntriesAutoRefresh else s
  let s := if tab ≠ .perf then s.stopPerfWS else s
  let s := if tab ≠ .event then s.stopEventsWS.stopErrorStatsPolling else s
  if tab ≠ .prof then s.stopProfileWS else s

/-- What `switchTab` does with the tab that is opened. -/
def openTab (tab : Tab) (s : Page) : Page :=
  match tab with
  | .queue =>
      (match s.device with
        | some device => s.connectWS device
        | none => s).startEntriesAutoRefresh
  | .perf =>
      match s.device with
      | some device => s.connectPerfWS device
      | none => s
  | .event =>
      let s := { s with kinds := s.kinds.loadEventKinds }
      match s.device with
      | some device => (s.connectEventsWS device).startErrorStatsPolling
      | none => s
  | .prof =>
      { s with processes := s.processes.refreshProcesses }.connectProfileWS
  | .topo => { s with topology := s.topology.loadTopology false }

/-- `switchTab` -/
def switchTab (tab : Tab) (s : Page) : Page :=
  if s.shows tab then s
  else ({ s with activeTab := some tab }.leaveTabs tab).openTab tab

/-- The refresh button of a channel and, for the events, the choice of a kind.
The profile channel has none. -/
def refresh (c : Channel) (s : Page) : Page :=
  match s.device with
  | none => s
  | some device =>
      match c with
      | .metrics => s.connectWS device
      | .performance => s.connectPerfWS device
      | .events => s.connectEventsWS device
      | .profile => s

end Page

/-! ### What happens to the page -/

/-- What the page has to answer. -/
inductive PageEvent where
  | device (name : PyText)
  | tab (tab : Tab)
  | refresh (c : Channel)
  | queueRow (qid : Nat)
  | entriesAuto (checked : Bool)
  | topoRefresh
  | procRefresh
  | target
  | closed (c : Channel) (n : Nat)
  | reconnectTime (c : Channel) (n : Nat)
  | entriesTime (n id q : Nat)
  | entriesLoaded (n q : Nat) (ok : Bool)
  | errorStatsTime (id : Nat)
  | errorStatsReply
  | eventKindsReply (ok : Bool)
  | processesReply (i : Nat) (ok : Bool)
  | targetsReply (i : Nat) (ok : Bool)
  | targetReply (ok : Bool)
  | topologyReply (ok : Bool)
  deriving DecidableEq

/-- The page answers.  The tab buttons are hidden until a device is selected,
and the controls of a panel are hidden with it. -/
def Page.step (s : Page) : PageEvent → Page
  | .device name => s.selectDevice name
  | .tab tab => if s.device.isSome then s.switchTab tab else s
  | .refresh c => if s.shows c.tab then s.refresh c else s
  | .queueRow qid =>
      if s.shows .queue then (s.loadEntries qid).startEntriesAutoRefresh else s
  | .entriesAuto checked =>
      if s.shows .queue then
        let s := { s with entries := { s.entries with auto := checked } }
        if checked then s.startEntriesAutoRefresh else s.stopEntriesAutoRefresh
      else s
  | .topoRefresh =>
      if s.shows .topo then { s with topology := s.topology.loadTopology true }
        else s
  | .procRefresh =>
      if s.shows .prof then { s with processes := s.processes.refreshProcesses }
        else s
  | .target =>
      if s.shows .prof then { s with processes := s.processes.change } else s
  | .closed c n => s.onLink c (.onclose n)
  | .reconnectTime c n => s.reconnectTime c n
  | .entriesTime n id q =>
      { s with entries := s.entries.entriesTime s.qid (s.shows .queue) n id q }
  | .entriesLoaded n q ok =>
      { s with entries :=
        s.entries.entriesLoaded s.qid (s.shows .queue) n q ok }
  | .errorStatsTime id =>
      { s with errorStats := s.errorStats.time (s.shows .event &&
        s.device.isSome) id }
  | .errorStatsReply =>
      { s with errorStats := s.errorStats.reply (s.shows .event) }
  | .eventKindsReply ok => { s with kinds := s.kinds.reply ok }
  | .processesReply i ok =>
      { s with processes := s.processes.processesReply i ok }
  | .targetsReply i ok => { s with processes := s.processes.targetsReply i ok }
  | .targetReply ok => { s with processes := s.processes.changeReply ok }
  | .topologyReply ok => { s with topology := s.topology.reply ok }

end Telemetryd
