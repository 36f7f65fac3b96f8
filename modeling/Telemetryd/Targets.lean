import Mathlib.Data.List.Sort
import Mathlib.Data.List.Dedup
import Mathlib.Data.Rat.Lemmas
import Mathlib.Algebra.Order.Ring.Rat
import Mathlib.Algebra.BigOperators.Group.List.Basic
import Mathlib.Data.List.Lex
import Mathlib.Data.Char
import Telemetryd.Lib.OrderedDict
import Telemetryd.Models

/-!
# The target registry

`backend/targets.py`: which processes are observed, and the sessions that
record their observation.  A `Store` is a registry together with the state
file it persists to; every method of the source is a function on stores, and
`save` is the only one that writes the file.

The regular expression engine, the adapters and the clock are outside the
registry and enter as `Plugins` and `Clock`.
-/

namespace Telemetryd

open PyText

/-! ### Adapters -/

/-- An application adapter.  Either method may raise. -/
structure AppAdapter where
  name : PyText
  claims : ProcessInfo → Except PyText Bool
  getLogicalGroups : ProcessInfo → List ProcessIoStat →
    Except PyText (List LogicalGroup)

/-- `re.compile` followed by `search`, with `none` for a malformed pattern,
and the registered adapters with their fallback. -/
structure Plugins where
  reCompile : PyText → Option (PyText → Bool)
  adapters : List AppAdapter
  generic : AppAdapter

/-- An adapter whose `matches` raises is passed over. -/
def AppAdapter.accepts (a : AppAdapter) (proc : ProcessInfo) : Bool :=
  match a.claims proc with
  | .ok b => b
  | .error _ => false

/-- `select_adapter`: the adapter that was asked for, else the first that
fits. -/
def selectAdapter (plug : Plugins) (proc : ProcessInfo)
    (explicit : Option PyText) : AppAdapter :=
  if explicit.getD [] ≠ [] then
    (plug.adapters.find? (fun a => decide (some a.name = explicit))).getD
      plug.generic
  else
    (plug.adapters.find? (fun a => a.accepts proc)).getD plug.generic

/-- Merge the size histograms of several devices. -/
def mergedSizes (stats : List ProcessIoStat) : OrderedDict Int Int :=
  (stats.flatMap (fun s => s.ioSizeHist)).foldl
    (fun hist e => hist.insert e.1 ((hist.get? e.1).getD 0 + e.2)) .empty

/-- The first entry with the greatest count. -/
def dominantSize : List (Int × Int) → Int
  | [] => 0
  | e :: rest =>
      (rest.foldl (fun best x => if best.2 < x.2 then x else best) e).1

/-- `measured_from_stats`. -/
def measuredFromStats (stats : List ProcessIoStat) (tids : Option (List Int)) :
    MeasuredWorkload :=
  if stats.isEmpty then {}
  else
    let totalIops := (stats.map (·.iops)).sum
    let share : ℚ := match tids with
      | none => 1
      | some tids =>
          let threadIops := ((stats.flatMap (·.threads)).filterMap
            (fun t => if t.tid ∈ tids then some t.iops else none)).sum
          if totalIops = 0 then 0 else threadIops / totalIops
    let read := (stats.map (·.readIops)).sum * share
    let write := (stats.map (·.writeIops)).sum * share
    let rwTotal := read + write
    { ioSizeDominant := dominantSize (mergedSizes stats).items
      readRatio := if rwTotal = 0 then 0 else read / rwTotal
      writeRatio := if rwTotal = 0 then 0 else write / rwTotal
      queueDepthAvg := (stats.map (·.queueDepthEst)).sum * share
      iops := totalIops * share
      bandwidthBps := (stats.map (·.bandwidthBps)).sum * share }

/-! ### Rules -/

/-- `rule_matches`. -/
def ruleMatches (plug : Plugins) (rule : TargetRule) (proc : ProcessInfo) :
    Bool :=
  match rule.kind with
  | .pid => decide (ofInt proc.pid = strip rule.value)
  | .name =>
      let want := strip rule.value
      decide (proc.comm = want) || decide (basename proc.exePath = want)
  | .namePattern =>
      match plug.reCompile rule.value with
      | some search => search proc.comm || search (basename proc.exePath)
      | none => false
  | .cmdlinePattern =>
      match plug.reCompile rule.value with
      | some search => search proc.cmdline
      | none => false
  | .other _ => false

/-- The first rule that matches the process. -/
def firstRule (plug : Plugins) (rules : List TargetRule) (proc : ProcessInfo) :
    Option TargetRule :=
  rules.find? (fun rule => ruleMatches plug rule proc)

/-- `resolve`: the rule that selects each process. -/
def resolve (plug : Plugins) (rules : List TargetRule)
    (processes : List ProcessInfo) :
    OrderedDict Int TargetRule :=
  processes.foldl (fun hits proc =>
    match firstRule plug rules proc with
    | some rule => hits.insert proc.pid rule
    | none => hits) .empty

/-! ### Session ids -/

/-- The `while` loop of `_session_id`; `fuel` bounds its iterations. -/
def sessionIdLoop (stem : PyText) (taken : List PyText) :
    Nat → Nat → PyText → PyText
  | 0, _, candidate => candidate
  | fuel + 1, n, candidate =>
      if candidate ∈ taken then
        sessionIdLoop stem taken fuel (n + 1) (stem ++ '_' :: ofNat n)
      else candidate

/-- `sess_<date>_<time>_<pid>`, with `stamp` the formatted local time. -/
def sessionIdBase (stamp : PyText) (pid : Int) : PyText :=
  "sess_".toList ++ stamp ++ '_' :: ofInt pid

/-- `_session_id`, made unlike those that are taken. -/
def sessionId (stamp : PyText) (pid startNs : Int)
    (taken : Option (List PyText)) : PyText :=
  let base := sessionIdBase stamp pid
  match taken with
  | none => base
  | some taken =>
      if base ∉ taken then base
      else
        let stem := base ++ '_' :: hex 4 (startNs % 65536)
        sessionIdLoop stem taken (taken.length + 1) 2 stem

/-! ### The registry and its file -/

/-- The state of `TargetRegistry` in memory. -/
structure Registry where
  maxFinished : Nat
  rules : List TargetRule
  sessions : OrderedDict PyText Session
  byIdentity : OrderedDict (Int × Int) PyText

/-- The content of the state file.  The two fields of a session that are not
written, `logical_groups` and `aggregate`, are at their defaults here. -/
structure Payload where
  rules : List TargetRule
  sessions : List Session

/-- A registry and the state file it was constructed on. -/
structure Store where
  reg : Registry
  file : Option Payload

/-- What is saved of it. -/
def Registry.payload (r : Registry) : Payload where
  rules := r.rules
  sessions := (lastSlice r.maxFinished r.sessions.values).map
    (fun s => { s with logicalGroups := [], aggregate := none })

/-- `_save`, on a disk that accepts the write. -/
def Store.save (s : Store) : Store := { s with file := some s.reg.payload }

/-- One session of the file, brought back as finished. -/
def Registry.adopt (r : Registry) (saved : Session) : Registry :=
  let sess := { saved with status := .finished, logicalGroups := [] }
  { r with
    sessions := r.sessions.insert sess.sessionId sess
    byIdentity :=
      r.byIdentity.insert (sess.pid, sess.startTimeNs) sess.sessionId }

/-- `TargetRegistry(path)`: a new registry with the content of the file. -/
def Registry.load (maxFinished : Nat) (file : Option Payload) : Registry :=
  let fresh : Registry := ⟨maxFinished, [], .empty, .empty⟩
  match file with
  | none => fresh
  | some data =>
      data.sessions.foldl Registry.adopt
        { fresh with rules := data.rules.filter (fun r => r.kind.valid) }

/-! ### Changing the rules -/

/-- The key under which a rule is stored once. -/
def TargetRule.key (r : TargetRule) : RuleKind × PyText := (r.kind, r.value)

/-- Set the adapter of the first rule with the key of `rule`, or append it. -/
def upsertRule (rule : TargetRule) : List TargetRule → List TargetRule
  | [] => [rule]
  | r :: rest =>
      if r.key = rule.key then { r with adapter := rule.adapter } :: rest
      else r :: upsertRule rule rest

/-- `add_rule`; the error carries the kind that was refused. -/
def addRule (rule : TargetRule) (s : Store) : Except PyText Store :=
  if rule.kind.valid then
    .ok { s with reg :=
      { s.reg with rules := upsertRule rule s.reg.rules } }.save
  else .error rule.kind.text

/-- `remove_rule`, which tells whether there was one. -/
def removeRule (kind : RuleKind) (value : PyText) (s : Store) : Store × Bool :=
  let rules := s.reg.rules.filter (fun r => decide (r.key ≠ (kind, value)))
  let s' := { s with reg := { s.reg with rules := rules } }
  if rules.length ≠ s.reg.rules.length then (s'.save, true) else (s', false)

/-- `clear_rules`. -/
def clearRules (s : Store) : Store :=
  { s with reg := { s.reg with rules := [] } }.save

/-! ### Refresh -/

/-- Readings of the clock during one refresh: `time_ns` at its start, and the
formatted local time at the moment the session of a pid is created. -/
structure Clock where
  timeNs : Int
  strftime : Int → PyText

/-- End a session. -/
def Session.finish (now : Int) (s : Session) : Session :=
  { s with status := .finished, sessionEndNs := some now }

/-- End the active sessions of earlier processes with this pid. -/
def closeReused (now : Int) (proc : ProcessInfo)
    (sessions : OrderedDict PyText Session) :
    OrderedDict PyText Session :=
  sessions.mapValues (fun _ old =>
    if old.pid = proc.pid ∧ old.status = .active ∧
      old.startTimeNs ≠ proc.startTimeNs then
      old.finish now
    else old)

/-- The session a process starts with. -/
def newSession (plug : Plugins) (now : Int) (sid : PyText) (proc : ProcessInfo)
    (rule : TargetRule) : Session where
  sessionId := sid
  pid := proc.pid
  comm := proc.comm
  cmdline := proc.cmdline
  exePath := proc.exePath
  adapter := (selectAdapter plug proc rule.adapter).name
  status := .active
  startTimeNs := proc.startTimeNs
  sessionStartNs := now
  matchedRule := some (rule.kind.text ++ '=' :: rule.value)

/-- Create and save the session of a process seen for the first time. -/
def openSession (plug : Plugins) (clock : Clock) (proc : ProcessInfo)
    (rule : TargetRule)
    (s : Store) : Store × PyText :=
  let sessions := closeReused clock.timeNs proc s.reg.sessions
  let sid := sessionId (clock.strftime proc.pid) proc.pid proc.startTimeNs
    (some sessions.keys)
  let reg := { s.reg with
    sessions := sessions.insert sid (newSession plug clock.timeNs sid proc rule)
    byIdentity := s.reg.byIdentity.insert (proc.pid, proc.startTimeNs) sid }
  ({ s with reg := reg }.save, sid)

/-- The session of a process, by identity, created if there is none. -/
def sessionFor (plug : Plugins) (clock : Clock) (proc : ProcessInfo)
    (rule : TargetRule)
    (s : Store) : Store × PyText :=
  match s.reg.byIdentity.get? (proc.pid, proc.startTimeNs) with
  | some sid =>
      if sid ∈ s.reg.sessions.keys then (s, sid)
        else openSession plug clock proc rule s
  | none => openSession plug clock proc rule s

/-- The groups of an adapter, or one fallback group if it raises. -/
def groupsOrFallback (adapter : AppAdapter) (proc : ProcessInfo)
    (stats : List ProcessIoStat) :
    List LogicalGroup :=
  match adapter.getLogicalGroups proc stats with
  | .ok groups => groups
  | .error e =>
      [{ name := if proc.comm ≠ [] then proc.comm
         else "pid".toList ++ ofInt proc.pid
         type := "process".toList
         source := "fallback".toList
         threadTids := proc.threads.map Prod.fst
         mismatchReasons := ["어댑터 오류로 그룹핑 생략: ".toList ++ e]
         inferred := true }]

/-- Bring a session up to date with its process and its statistics. -/
def observe (plug : Plugins) (proc : ProcessInfo) (rule : TargetRule)
    (stats : List ProcessIoStat) (sess : Session) : Session :=
  let adapter := selectAdapter plug proc rule.adapter
  { sess with
    sessionEndNs := if sess.status = .finished then none else sess.sessionEndNs
    status := .active
    comm := if proc.comm ≠ [] then proc.comm else sess.comm
    threadCountActive := proc.threadCount
    devices := (stats.map (·.device)).dedup.insertionSort (· ≤ ·)
    adapter := adapter.name
    logicalGroups := groupsOrFallback adapter proc stats
    aggregate := some (measuredFromStats stats none) }

/-- The statistics of one pid, in order. -/
def statsOf (stats : List ProcessIoStat) (pid : Int) : List ProcessIoStat :=
  stats.filter (fun st => decide (st.pid = pid))

/-- The body of the loop over the matched pids.  The accumulator carries the
store and the ids of the sessions seen active. -/
def refreshTarget (plug : Plugins) (clock : Clock)
    (byPid : OrderedDict Int ProcessInfo)
    (stats : List ProcessIoStat) (acc : Store × List PyText)
    (hit : Int × TargetRule) :
    Store × List PyText :=
  match byPid.get? hit.1 with
  | none => acc
  | some proc =>
      let (s, sid) := sessionFor plug clock proc hit.2 acc.1
      match s.reg.sessions.get? sid with
      | none => (s, acc.2)
      | some sess =>
          let sess := observe plug proc hit.2 (statsOf stats hit.1) sess
          ({ s with reg :=
            { s.reg with sessions := s.reg.sessions.insert sid sess } },
            sid :: acc.2)

/-- The body of the last loop: end and save the session if it was not seen. -/
def finishUnseen (now : Int) (activeIds : List PyText) (s : Store)
    (sid : PyText) : Store :=
  match s.reg.sessions.get? sid with
  | none => s
  | some sess =>
      if sess.status = .active ∧ sid ∉ activeIds then
        { s with reg := { s.reg with
            sessions := s.reg.sessions.insert sid (sess.finish now) } }.save
      else s

/-- End and save each active session that was not seen. -/
def finishVanished (now : Int) (activeIds : List PyText) (s : Store) : Store :=
  s.reg.sessions.keys.foldl (finishUnseen now activeIds) s

/-- The processes by pid; the last of several with one pid counts. -/
def indexByPid (processes : List ProcessInfo) : OrderedDict Int ProcessInfo :=
  OrderedDict.empty.insertAll (processes.map (fun p => (p.pid, p)))

/-- Parts (a) to (c) of `refresh`: rules, sessions and adapters. -/
def refreshSessions (plug : Plugins) (clock : Clock)
    (processes : List ProcessInfo)
    (stats : List ProcessIoStat) (s : Store) : Store :=
  let matched :=
    (resolve plug s.reg.rules processes).items.insertionSort (fun a b =>
    a.1 ≤ b.1)
  let (s, activeIds) :=
    matched.foldl (refreshTarget plug clock (indexByPid processes) stats)
      (s, [])
  finishVanished clock.timeNs activeIds s

/-- Add one statistic to the attribution of its device. -/
def attributeStat (sessions : List Session)
    (devices : OrderedDict PyText DeviceAttribution)
    (st : ProcessIoStat) : OrderedDict PyText DeviceAttribution :=
  let dev := (devices.get? st.device).getD { name := st.device }
  let active :=
    sessions.filter (fun s => decide (s.pid = st.pid ∧ s.status = .active))
  let dev := { dev with totalIops := dev.totalIops + st.iops }
  devices.insert st.device
    (if active ≠ [] then
      { dev with
        attributedIops := dev.attributedIops + st.iops
        contributingSessions := active.foldl (fun ids s =>
          if s.sessionId ∈ ids then ids
            else ids ++ [s.sessionId]) dev.contributingSessions }
    else { dev with unattributedIops := dev.unattributedIops + st.iops })

/-- Part (d) of `refresh`: the report. -/
def snapshotOf (now : Int) (stats : List ProcessIoStat) (reg : Registry) :
    ProfileSnapshot :=
  let sessions := reg.sessions.values
  let devices := stats.foldl (attributeStat sessions) .empty
  let warned := devices.values.map (fun dev =>
    let pids := ((stats.filter (fun st =>
      decide (st.device = dev.name ∧ 0 < st.iops))).map
      (·.pid)).dedup
    { dev with multiProcessWarning := decide (1 < pids.length) })
  let unmonitored := (stats.filter (fun st =>
      decide (¬ (∃ s ∈ sessions, s.pid = st.pid ∧ s.status = .active) ∧ 0 < st.iops))).map
    (fun st => ({ pid := st.pid, comm := st.comm, device := st.device, ioRate := st.iops } :
      UnmonitoredIo))
  { collectedAtNs := now
    sessions := sessions.insertionSort (fun a b =>
      (a.status = .active ∧ b.status ≠ .active) ∨
        ((a.status = .active ↔ b.status = .active) ∧
          b.sessionStartNs ≤ a.sessionStartNs))
    unmonitoredIo := unmonitored.insertionSort (fun a b => b.ioRate ≤ a.ioRate)
    devices := warned.insertionSort (fun a b => a.name ≤ b.name)
    rules := reg.rules }

/-- `refresh`: the sessions after a look at the processes. -/
def refresh (plug : Plugins) (clock : Clock) (processes : List ProcessInfo)
    (stats : List ProcessIoStat) (s : Store) : Store × ProfileSnapshot :=
  let s := refreshSessions plug clock processes stats s
  (s, snapshotOf clock.timeNs stats s.reg)

end Telemetryd
