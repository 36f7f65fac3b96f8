import Telemetryd.AdaptiveCache
import Telemetryd.ProcTick
import Telemetryd.ProcessList
import Telemetryd.TickLedger

/-!
# A host that is profiled

A kernel whose processes start, submit commands and exit, the collector that
counts the commands by pid, and the service, which puts profiles together from
the last complete tick and the process list of its cache.  A query of the kernel
takes time, and anything may happen meanwhile.

A step is described once, by what it changes; the invariants are read off that.
-/

namespace Telemetryd

open PyText PyError Counters GroupedSums

/-! ### The statistics of a tick -/

/-- The statistics of a tick with the counters `m`, as they are parsed from what
is printed of it. -/
def tickStats (o : PrintOrder) (m : Maps) :
    Except PyError (List ProcessIoStat) :=
  processStats (Procs.updateAll .empty (processChanges o m)) none

/-- The text of a tick gives its statistics. -/
theorem tickStats_of_text [UnicodeDb] {o : PrintOrder} {m : Maps}
    {ls : List PrintedLine}
    (h : TickOf o m ls) (hm : m.NamesHarmless) {x : PyText}
    (hx : x = [] ∨ x = ['\n']) :
    (parseTick (x ++ linesText ls) >>= fun procs => processStats procs none) =
      tickStats o m := by
  rw [h.parseTick_eq hm hx]
  rfl

/-- The commands that a tick counts under a pid, on all controllers. -/
def Maps.opsOfPid (m : Maps) (pid : Int) : Nat :=
  groupSum (fun e => e.1.2.1.toInt) (fun e => e.2.toNat) m.procOps.items pid

theorem toStat_eq {c t : Int} {raw : RawProc} {st : ProcessIoStat}
    (h : toStat c t raw = .ok st) :
    st.pid = t ∧ st.iops = raw.ops := by
  unfold toStat at h
  simp only [Fallible.bind_eq_ok] at h
  obtain ⟨lat, -, iops, hiops, seq, -, threads, -, read, -, write, -, bandwidth,
    -, hst⟩ := h
  obtain rfl := Except.ok.inj hst
  exact ⟨rfl, (floatOfInt_eq_ok.mp hiops).2⟩

/-- The rates of a pid, in the statistics of some records. -/
theorem iopsOf_mapM {l : List ((Int × Int) × RawProc)}
    {out : List ProcessIoStat}
    (h : l.mapM (fun e => toStat e.1.1 e.1.2 e.2) = .ok out) (pid : Int) :
    iopsOf (statsOf out pid) =
      (groupSum (fun e => e.1.2) (fun e => e.2.ops) l pid : Int) := by
  induction l generalizing out with
  | nil =>
      obtain rfl := Except.ok.inj h
      rfl
  | cons e l ih =>
      rw [List.mapM_cons] at h
      obtain ⟨st, hst, h⟩ := Fallible.bind_eq_ok.mp h
      obtain ⟨rest, hrest, h⟩ := Fallible.bind_eq_ok.mp h
      obtain rfl := Except.ok.inj h
      obtain ⟨hpid, hiops⟩ := toStat_eq hst
      rw [groupSum_cons, Int.cast_add, ← ih hrest]
      unfold statsOf iopsOf
      by_cases hp : e.1.2 = pid
      · rw [if_pos hp, List.filter_cons_of_pos (by simp [hpid, hp]),
          List.map_cons, List.sum_cons, hiops]
      · rw [if_neg hp, List.filter_cons_of_neg (by simp [hpid, hp]),
          Int.cast_zero, zero_add]

theorem hasProcess_of_mem {m : Maps} {e : (Int64 × Int64 × Comm) × UInt64}
    (he : e ∈ m.procOps.items) :
    m.HasProcess e.1.1 e.1.2.1 :=
  Or.inl ⟨e.1.2.2, List.mem_map_of_mem he⟩

/-- What was decoded of a tick has the commands of a pid that the tick
counts. -/
theorem Decoded.groupSum_ops {m : Maps} {procs : Procs} (h : Decoded m procs)
    (pid : Int) :
    groupSum (fun e => e.1.2) (fun e => e.2.ops) procs.items pid =
      (m.opsOfPid pid : Int) := by
  have hops : ∀ e ∈ procs.items,
      e.2.ops = groupSum (fun e => pairOf e.1.1 e.1.2.1)
      (fun e => (e.2.toNat : Int)) m.procOps.items e.1 := by
    intro e he
    obtain ⟨c, p, hkey, -⟩ := (h.keys e.1).mp (List.mem_map_of_mem he)
    have hget := OrderedDict.get?_eq_some_iff.mpr he
    rw [hkey] at hget ⊢
    rw [(h.counters c p e.2 hget).ops]
    unfold Maps.opsOf groupSum
    simp only [pairOf_eq_iff, Prod.mk.injEq]
  have hkeys :
      ((procs.items.filter (fun e => decide (e.1.2 = pid))).map
      Prod.fst).Nodup :=
    procs.nodup.sublist (List.filter_sublist.map _)
  have hin : ∀ e ∈ m.procOps.items, decide (e.1.2.1.toInt = pid) = true ↔
      pairOf e.1.1 e.1.2.1 ∈
        (procs.items.filter (fun e => decide (e.1.2 = pid))).map Prod.fst := by
    intro e he
    have hmem : pairOf e.1.1 e.1.2.1 ∈ procs.keys :=
      (h.keys _).mpr ⟨_, _, rfl, hasProcess_of_mem he⟩
    obtain ⟨item, hitem, hkey⟩ := List.mem_map.mp hmem
    constructor
    · intro hp
      refine List.mem_map.mpr ⟨item, List.mem_filter.mpr ⟨hitem, ?_⟩, hkey⟩
      rw [hkey]
      exact hp
    · intro hp
      obtain ⟨item', hitem', hkey'⟩ := List.mem_map.mp hp
      have hpid := (List.mem_filter.mp hitem').2
      rw [hkey'] at hpid
      exact hpid
  have hsum :=
    sum_groupSum (fun e : (Int64 × Int64 × Comm) × UInt64 =>
    pairOf e.1.1 e.1.2.1)
    (fun e => (e.2.toNat : Int)) hkeys hin
  rw [List.map_map] at hsum
  unfold Maps.opsOfPid
  rw [← groupSum_natCast]
  refine Eq.trans (congrArg List.sum ?_) hsum
  exact List.map_congr_left fun e he => hops e (List.mem_of_mem_filter he)

/-- **The rate of a pid** in the statistics of a tick is what the tick counts
under it. -/
theorem iopsOf_tickStats {o : PrintOrder} {m : Maps}
    {stats : List ProcessIoStat}
    (h : tickStats o m = .ok stats) (pid : Int) :
    iopsOf (statsOf stats pid) = m.opsOfPid pid := by
  unfold tickStats processStats at h
  obtain ⟨out, hout, h⟩ := Fallible.bind_eq_ok.mp h
  obtain rfl := Except.ok.inj h
  have hperm :
      iopsOf (statsOf (out.insertionSort (fun a b => b.iops ≤ a.iops)) pid)
      = iopsOf (statsOf out pid) :=
    (((List.perm_insertionSort _ out).filter _).map _).sum_eq
  have hall : (Procs.updateAll .empty (processChanges o m)).items.filter
      (fun e => decide ((none : Option Int) = none ∨ some e.1.1 = none))
        = (Procs.updateAll .empty (processChanges o m)).items :=
    List.filter_eq_self.mpr fun e _ => decide_eq_true (Or.inl rfl)
  rw [hall] at hout
  rw [hperm, iopsOf_mapM hout, (decoded_updateAll o m).groupSum_ops]
  rfl

/-! ### The host -/

/-- A command and the start of the process that submitted it: with the pid of
the command, the identity of that process. -/
structure Issued where
  cmd : SetupCmd
  startTimeNs : Int

/-- The process that issued a command. -/
def Issued.identity (c : Issued) : Int × Int := (c.cmd.pid.toInt, c.startTimeNs)

/-- The ledger of a run, with the processes. -/
structure Issues where
  inFlight : Key3 → Option Issued := fun _ => none
  submitted : List Issued := []
  completed : List Issued := []

/-- A probe is recorded; `startTimeNs` is the start of the process that
submits. -/
def Issues.step (i : Issues) (startTimeNs : Int) : Probe → Issues
  | .setupCmd a =>
      { i with
        inFlight := fun k => if k = a.cmd then some ⟨a, startTimeNs⟩
          else i.inFlight k
        submitted := i.submitted ++ [⟨a, startTimeNs⟩] }
  | .completeRq a =>
      { i with
        inFlight := fun k => if k = a.cmd then none else i.inFlight k
        completed := i.completed ++ (i.inFlight a.cmd).toList }
  | .nvmeTimeout _ => i
  | .interval => { i with submitted := [], completed := [] }

/-- A tick: the counters that are printed, and the commands behind them. -/
structure Tick where
  maps : Maps := {}
  issues : Issues := {}

/-- The commands of a tick: those that were submitted since the tick before, and
those that were completed since then. -/
def Tick.commands (t : Tick) : List Issued :=
  t.issues.submitted ++ t.issues.completed

/-- A call of `get_profile` that waits for the process list. -/
structure Polling where
  tick : Tick
  stats : List ProcessIoStat
  since : ℚ
  procs : Option (List ProcessInfo) := none

/-- What a call returned, and the tick it was measured from. -/
structure Profiled where
  tick : Tick
  snapshot : ProfileSnapshot

/-- A host: the processes that run and the identities of all that ever ran, the
collector with what it has counted, the last complete tick, and the service.
Before the first tick there are no statistics, as after a tick without I/O. -/
structure Host where
  now : ℚ := 0
  running : List ProcessInfo := []
  identities : List (Int × Int) := []
  collector : Collector := {}
  issues : Issues := {}
  tick : Tick := {}
  cache : AdaptiveTtlCache PyText (List ProcessInfo)
  store : Store
  polling : Option Polling := none
  answer : Option Profiled := none

/-- `PROC_INFO_CACHE_KEY` -/
def procInfoCacheKey : PyText := "procinfo.list_processes".toList

namespace Host

/-- The process that holds a pid. -/
def holder (s : Host) (pid : Int) : Option ProcessInfo :=
  s.running.find? (fun p => decide (p.pid = pid))

/-- A process gets a pid that is free, later than every process that had it. -/
def startProcess (s : Host) (p : ProcessInfo) : Host :=
  if p.pid ∉ s.running.map (·.pid) ∧
      ∀ id ∈ s.identities, id.1 = p.pid → id.2 < p.startTimeNs then
    { s with running := s.running ++ [p], identities := s.identities ++ [p.identity] }
  else s

/-- A process exits. -/
def exitProcess (s : Host) (pid : Int) : Host :=
  { s with running := s.running.filter (fun p => decide (p.pid ≠ pid)) }

/-- A probe that a process sets off. -/
def record (o : PrintOrder) (s : Host) (startTimeNs : Int) (p : Probe) : Host :=
  { s with
    collector := (s.collector.step o p).1
    issues := s.issues.step startTimeNs p }

/-- A probe fires.  Only a process that runs submits a command, and what is
counted at an interval is a complete tick. -/
def probe (o : PrintOrder) (s : Host) : Probe → Host
  | .setupCmd a => match s.holder a.pid.toInt with
      | some p => s.record o p.startTimeNs (.setupCmd a)
      | none => s
  | .completeRq a => s.record o 0 (.completeRq a)
  | .nvmeTimeout a => s.record o 0 (.nvmeTimeout a)
  | .interval =>
      { s.record o 0 .interval with tick := ⟨s.collector.maps, s.issues⟩ }

/-- `get_profile`, once it has the statistics of a tick and the processes. -/
def profile (plug : Plugins) (clock : Clock) (tick : Tick)
    (stats : List ProcessIoStat)
    (procs : List ProcessInfo) (s : Host) : Host :=
  let (store, snapshot) := getProfile plug clock true stats procs s.store
  { s with store := store, polling := none, answer := some ⟨tick, snapshot⟩ }

/-- An exception leaves `get_profile`. -/
def raised (s : Host) : Host := { s with polling := none, answer := none }

/-- `get_profile` is called, unless the worker is still busy with a call.  The
statistics are read first. -/
def poll (o : PrintOrder) (plug : Plugins) (clock : Clock) (s : Host) : Host :=
  if s.polling.isSome then s
  else match tickStats o s.tick.maps with
    | .error _ => s.raised
    | .ok stats => match s.cache.hit procInfoCacheKey s.now with
        | some procs => s.profile plug clock s.tick stats procs
        | none => { s with polling := some { tick := s.tick, stats := stats, since := s.now } }

/-- The query of the kernel sees the processes that run. -/
def list (s : Host) : Host :=
  { s with polling := s.polling.map (fun p =>
    { p with procs := some (p.procs.getD s.running) }) }

/-- The query of the kernel is over, with an exception or with what it has
seen. -/
def finish (plug : Plugins) (clock : Clock) (error : Option PyError)
    (s : Host) : Host :=
  match s.polling with
  | some { tick, stats, since, procs := some procs } =>
      let compute := match error with
        | some e => .error e
        | none => .ok procs
      let (cache, answer) :=
        s.cache.getOrCompute ⟨procInfoCacheKey, since, compute, s.now⟩
      match answer.result with
      | .ok procs =>
          { s with cache := cache }.profile plug clock tick stats procs
      | .error _ => { s with cache := cache }.raised
  | _ => s

end Host

/-- What can happen: a process starts, or exits; a probe of the collector fires,
the interval among them; time passes; `get_profile` is called, its query of the
kernel sees the processes, and the query is over. -/
inductive HostStep where
  | start (p : ProcessInfo)
  | exit (pid : Int)
  | probe (p : Probe)
  | wait (seconds : ℚ)
  | poll (clock : Clock)
  | list
  | finish (clock : Clock) (error : Option PyError)

/-- One step of the host. -/
def Host.step (o : PrintOrder) (plug : Plugins) (s : Host) : HostStep → Host
  | .start p => s.startProcess p
  | .exit pid => s.exitProcess pid
  | .probe p => s.probe o p
  | .wait seconds => { s with now := s.now + max 0 seconds }
  | .poll clock => s.poll o plug clock
  | .list => s.list
  | .finish clock error => s.finish plug clock error

/-- A host whose registry has a history, before anything runs on it. -/
def Host.booted (minTtl durationFactor : ℚ) (store : Store) : Host where
  cache := .new minTtl durationFactor
  store := store

/-- The tick and the processes that a step puts together, if it does. -/
def Host.joins (o : PrintOrder) (s : Host) :
    HostStep → Option (Tick × List ProcessInfo)
  | .poll _ =>
      if s.polling.isSome ∨ (tickStats o s.tick.maps).toOption = none then none
      else (s.cache.hit procInfoCacheKey s.now).map (fun procs =>
        (s.tick, procs))
  | .finish _ none =>
      s.polling.bind (fun p => p.procs.map (fun procs => (p.tick, procs)))
  | _ => none

/-! ### Steps -/

/-- The query of the kernel that has seen some processes, as a call of the
cache. -/
def Host.query (s : Host) (since : ℚ) (procs : List ProcessInfo) :
    CacheCall PyText (List ProcessInfo) PyError :=
  ⟨procInfoCacheKey, since, .ok procs, s.now⟩

/-- The list is stored under its key, once the query is over. -/
def Host.stored (s : Host) (since : ℚ) (procs : List ProcessInfo) : Host :=
  { s with cache := (s.cache.getOrCompute (s.query since procs)).1 }

theorem Host.getOrCompute_query {s : Host} {since : ℚ}
    (hmiss : s.cache.hit procInfoCacheKey since = none)
    (procs : List ProcessInfo) :
    s.cache.getOrCompute (s.query since procs) = ({ s.cache with
      entries := s.cache.entries.insert procInfoCacheKey
        ⟨s.now, procs, s.cache.ttl (s.now - since)⟩ },
          .computed (.ok procs)) := by
  have hcall : s.cache.hit (s.query since procs).key (s.query since procs).now =
    none := hmiss
  exact getOrCompute_of_ok hcall rfl

theorem Host.get?_stored {s : Host} {since : ℚ}
    (hmiss : s.cache.hit procInfoCacheKey since = none)
    (procs : List ProcessInfo) :
    (s.stored since procs).cache.entries.get? procInfoCacheKey
      = some ⟨s.now, procs, s.cache.ttl (s.now - since)⟩ := by
  unfold Host.stored
  rw [Host.getOrCompute_query hmiss]
  exact OrderedDict.get?_insert_self _ _ _

/-- What a step can do. -/
inductive Host.Moves (o : PrintOrder) (plug : Plugins) (s : Host) :
    HostStep → Host → Prop
  | same {step : HostStep} (hjoins : s.joins o step = none) :
    Moves o plug s step s
  | start {p : ProcessInfo} (hfree : p.pid ∉ s.running.map (·.pid)) :
      Moves o plug s (.start p)
        { s with running := s.running ++ [p], identities := s.identities ++ [p.identity] }
  | exit (pid : Int) : Moves o plug s (.exit pid) (s.exitProcess pid)
  | submit {a : SetupCmd} {p : ProcessInfo} (hp : p ∈ s.running)
      (hpid : p.pid = a.pid.toInt) :
      Moves o plug s (.probe (.setupCmd a))
        (s.record o p.startTimeNs (.setupCmd a))
  | record {p : Probe} (hp : ∀ a, p ≠ .setupCmd a) :
    Moves o plug s (.probe p) (s.record o 0 p)
  | tick : Moves o plug s (.probe .interval)
      { s.record o 0 .interval with tick := ⟨s.collector.maps, s.issues⟩ }
  | wait (seconds : ℚ) :
    Moves o plug s (.wait seconds) { s with now := s.now + max 0 seconds }
  | list : Moves o plug s .list s.list
  | raised {step : HostStep} (hjoins : s.joins o step = none) :
    Moves o plug s step s.raised
  | asked {clock : Clock} {stats : List ProcessIoStat}
      (hjoins : s.joins o (.poll clock) = none)
      (hstats : tickStats o s.tick.maps =
        .ok stats) (hmiss : s.cache.hit procInfoCacheKey s.now = none) :
      Moves o plug s (.poll clock)
        { s with polling := some { tick := s.tick, stats := stats, since := s.now } }
  | cached {clock : Clock} {stats : List ProcessIoStat}
      {e : CacheEntry (List ProcessInfo)}
      (hjoins : s.joins o (.poll clock) = some (s.tick, e.value))
      (hstats : tickStats o s.tick.maps = .ok stats)
      (hentry : s.cache.entries.get? procInfoCacheKey = some e) :
      Moves o plug s (.poll clock) (s.profile plug clock s.tick stats e.value)
  | finished {clock : Clock} {p : Polling} {procs : List ProcessInfo}
      (hjoins : s.joins o (.finish clock none) =
        some (p.tick, procs)) (hpolling : s.polling = some p)
      (hprocs : p.procs =
        some procs) (hmiss : s.cache.hit procInfoCacheKey p.since = none) :
      Moves o plug s (.finish clock none)
        ((s.stored p.since procs).profile plug clock p.tick p.stats procs)

section Moves

variable {o : PrintOrder} {plug : Plugins}

theorem Host.moves_probe (s : Host) (p : Probe) :
    s.Moves o plug (.probe p) (s.probe o p) := by
  cases p with
  | setupCmd a =>
      unfold Host.probe
      dsimp only
      split
      next q hholder =>
        have hpid : q.pid = a.pid.toInt := by simpa using List.find?_some hholder
        exact .submit (List.mem_of_find?_eq_some hholder) hpid
      next => exact .same rfl
  | completeRq a => exact .record (fun _ h => absurd h (by simp))
  | nvmeTimeout a => exact .record (fun _ h => absurd h (by simp))
  | interval => exact .tick

theorem Host.moves_poll (s : Host) (clock : Clock) :
    s.Moves o plug (.poll clock) (s.poll o plug clock) := by
  unfold Host.poll
  by_cases hbusy : s.polling.isSome = true
  · rw [if_pos hbusy]
    exact .same (if_pos (Or.inl hbusy))
  · rw [if_neg hbusy]
    cases hstats : tickStats o s.tick.maps with
    | error e =>
        refine .raised (if_pos (Or.inr ?_))
        rw [hstats]
        rfl
    | ok stats =>
        have hjoins : s.joins o (.poll clock)
            = (s.cache.hit procInfoCacheKey s.now).map (fun procs =>
              (s.tick, procs)) := by
          refine if_neg ?_
          rw [hstats]
          simpa [Except.toOption] using hbusy
        cases hhit : s.cache.hit procInfoCacheKey s.now with
        | none => exact .asked (by rw [hjoins, hhit]; rfl) hstats hhit
        | some procs =>
            obtain ⟨e, he, -, rfl⟩ := hit_eq_some.mp hhit
            exact .cached (by rw [hjoins, hhit]; rfl) hstats he

/-- While a query runs, there is no live entry from before it. -/
def Host.Missed (s : Host) : Prop :=
  ∀ p ∈ s.polling, s.cache.hit procInfoCacheKey p.since = none

theorem Host.moves_finish {s : Host} (hmissed : s.Missed) (clock : Clock)
    (error : Option PyError) :
    s.Moves o plug (.finish clock error) (s.finish plug clock error) := by
  have hjoins : s.joins o (.finish clock none)
      = s.polling.bind (fun p => p.procs.map (fun procs => (p.tick, procs))) :=
        rfl
  have hnone :
      (s.polling.bind (fun p => p.procs.map (fun procs => (p.tick, procs)))) =
      none →
      s.joins o (.finish clock error) = none := by
    intro h
    cases error with
    | none => exact h
    | some e => rfl
  unfold Host.finish
  cases hpolling : s.polling with
  | none => exact .same (hnone (by rw [hpolling]; rfl))
  | some p =>
      have hmiss := hmissed p hpolling
      obtain ⟨tick, stats, since, seen⟩ := p
      cases seen with
      | none => exact .same (hnone (by rw [hpolling]; rfl))
      | some procs =>
          dsimp only
          cases error with
          | some e =>
              rw [getOrCompute_of_raise hmiss rfl]
              exact .raised rfl
          | none =>
              have hget := Host.getOrCompute_query hmiss procs
              unfold Host.query at hget
              have hmove : s.Moves o plug (.finish clock none)
                  ((s.stored since procs).profile plug clock tick stats procs) :=
                .finished (p := ⟨tick, stats, since, some procs⟩)
                  (by rw [hjoins, hpolling]; rfl) hpolling rfl hmiss
              unfold Host.stored Host.query at hmove
              rw [hget] at hmove ⊢
              dsimp only [Answer.result]
              exact hmove

/-- **What a step can do.** -/
theorem Host.moves {s : Host} (hmissed : s.Missed) (step : HostStep) :
    s.Moves o plug step (s.step o plug step) := by
  cases step with
  | start p =>
      unfold Host.step Host.startProcess
      dsimp only
      split
      next hfree => exact .start hfree.1
      next => exact .same rfl
  | exit pid => exact .exit pid
  | probe p => exact s.moves_probe p
  | wait seconds => exact .wait seconds
  | poll clock => exact s.moves_poll clock
  | list => exact .list
  | finish clock error => exact Host.moves_finish hmissed clock error

end Moves

/-! ### What stays in a host -/

/-- A property of every list of processes in use: those that run, those that are
stored, and those that a query has seen. -/
structure Host.Lists (L : List ProcessInfo → Prop) (s : Host) : Prop where
  running : L s.running
  cached : ∀ e, s.cache.entries.get? procInfoCacheKey = some e → L e.value
  listed : ∀ p ∈ s.polling, ∀ procs ∈ p.procs, L procs

/-- A property of every tick in use: the last complete one, and those that
profiles are and were made from. -/
structure Host.Ticks (T : Tick → Prop) (s : Host) : Prop where
  tick : T s.tick
  polling : ∀ p ∈ s.polling, T p.tick
  answer : ∀ a ∈ s.answer, T a.tick

section Invariants

variable {o : PrintOrder} {plug : Plugins} {s next : Host} {step : HostStep}

theorem Host.Lists.mono {L L' : List ProcessInfo → Prop} (hL : ∀ l, L l → L' l)
    (h : s.Lists L) :
    s.Lists L' :=
  ⟨hL _ h.running, fun e he => hL _ (h.cached e he), fun p hp procs hprocs =>
    hL _ (h.listed p hp procs hprocs)⟩

theorem Host.Ticks.mono {T T' : Tick → Prop} (hT : ∀ t, T t → T' t)
    (h : s.Ticks T) : s.Ticks T' :=
  ⟨hT _ h.tick, fun p hp => hT _ (h.polling p hp), fun a ha =>
    hT _ (h.answer a ha)⟩

/-- A free worker has seen nothing. -/
theorem Host.Lists.of_free {L : List ProcessInfo → Prop}
    (hrunning : L next.running)
    (hcached : ∀ e, next.cache.entries.get? procInfoCacheKey = some e →
      L e.value)
    (hfree : next.polling = none) : next.Lists L := by
  refine ⟨hrunning, hcached, fun p hp => ?_⟩
  rw [hfree] at hp
  exact absurd hp (by simp)

/-- **No step makes up a list**: the processes are those that run at some
time. -/
theorem Host.Lists.moves {L : List ProcessInfo → Prop} (h : s.Lists L)
    (hmove : s.Moves o plug step next)
    (hrunning : L next.running) : next.Lists L := by
  cases hmove with
  | same | start | exit | submit | record | tick | wait =>
      exact ⟨hrunning, h.cached, h.listed⟩
  | list =>
      refine ⟨hrunning, h.cached, fun p hp procs hprocs => ?_⟩
      obtain ⟨q, hq, rfl⟩ := Option.map_eq_some_iff.mp hp
      obtain rfl := Option.some.inj hprocs
      cases hseen : q.procs with
      | none => exact h.running
      | some seen => exact h.listed q hq seen hseen
  | raised | cached => exact .of_free hrunning h.cached rfl
  | asked =>
      refine ⟨hrunning, h.cached, fun p hp procs hprocs => ?_⟩
      obtain rfl := Option.some.inj hp
      exact absurd hprocs (by simp)
  | finished hjoins hpolling hprocs hmiss =>
      refine .of_free hrunning (fun e he => ?_) rfl
      obtain rfl := Option.some.inj ((Host.get?_stored hmiss _).symm.trans he)
      exact h.listed _ hpolling _ hprocs

/-- **No step makes up a tick**: it is what was counted since the tick
before. -/
theorem Host.Ticks.moves {T : Tick → Prop} (h : s.Ticks T)
    (hmove : s.Moves o plug step next)
    (hcounted : T ⟨s.collector.maps, s.issues⟩) : next.Ticks T := by
  have hanswer : ∀ {t : Tick} {snapshot : ProfileSnapshot}, T t →
      ∀ a ∈ some (⟨t, snapshot⟩ : Profiled), T a.tick := by
    intro t snapshot ht a ha
    obtain rfl := Option.some.inj ha
    exact ht
  cases hmove with
  | same | start | exit | submit | record | wait =>
      exact ⟨h.tick, h.polling, h.answer⟩
  | tick => exact ⟨hcounted, h.polling, h.answer⟩
  | list =>
      refine ⟨h.tick, fun p hp => ?_, h.answer⟩
      obtain ⟨q, hq, rfl⟩ := Option.map_eq_some_iff.mp hp
      exact h.polling q hq
  | raised =>
      exact ⟨h.tick, fun _ hp => absurd hp (by simp [Host.raised]), fun _ ha =>
        absurd ha (by simp [Host.raised])⟩
  | asked =>
      refine ⟨h.tick, fun p hp => ?_, h.answer⟩
      obtain rfl := Option.some.inj hp
      exact h.tick
  | cached =>
      exact ⟨h.tick, fun _ hp => absurd hp (by simp [Host.profile]),
        hanswer h.tick⟩
  | finished hjoins hpolling =>
      exact ⟨h.tick, fun _ hp => absurd hp (by simp [Host.profile]),
        hanswer (h.polling _ hpolling)⟩

/-- The invariant of a host. -/
structure Host.Ready (o : PrintOrder) (s : Host) : Prop where
  good : s.store.Good
  lists : s.Lists DistinctPids
  measured : ∀ p ∈ s.polling, tickStats o p.tick.maps = .ok p.stats
  missed : s.Missed

/-- The processes that run keep distinct pids. -/
theorem Host.Moves.distinctPids (hmove : s.Moves o plug step next)
    (h : DistinctPids s.running) :
    DistinctPids next.running := by
  cases hmove with
  | start hfree =>
      unfold DistinctPids
      rw [List.map_append, List.nodup_append]
      refine ⟨h, List.nodup_singleton _, ?_⟩
      intro pid hpid pid' hpid' heq
      rw [heq, List.mem_singleton.mp hpid'] at hpid
      exact hfree hpid
  | exit pid => exact h.sublist (List.filter_sublist.map _)
  | same | submit | record | tick | wait | list | raised | asked | cached | finished =>
      exact h

theorem Host.Ready.moves (h : s.Ready o) (hmove : s.Moves o plug step next) :
    next.Ready o := by
  have hlists := h.lists.moves hmove (hmove.distinctPids h.lists.running)
  have hfree : ∀ {C : Polling → Prop}, ∀ p ∈ (none : Option Polling), C p :=
    fun _ hp => absurd hp (by simp)
  cases hmove with
  | same | start | exit | submit | record | tick | wait =>
      exact ⟨h.good, hlists, h.measured, h.missed⟩
  | list =>
      refine ⟨h.good, hlists, fun p hp => ?_, fun p hp => ?_⟩
      · obtain ⟨q, hq, rfl⟩ := Option.map_eq_some_iff.mp hp
        exact h.measured q hq
      · obtain ⟨q, hq, rfl⟩ := Option.map_eq_some_iff.mp hp
        exact h.missed q hq
  | raised => exact ⟨h.good, hlists, hfree, hfree⟩
  | asked hjoins hstats hmiss =>
      refine ⟨h.good, hlists, fun p hp => ?_, fun p hp => ?_⟩
      · obtain rfl := Option.some.inj hp
        exact hstats
      · obtain rfl := Option.some.inj hp
        exact hmiss
  | cached hjoins hstats hentry =>
      exact ⟨(refreshSessions_spec plug _ _ h.good
        (h.lists.cached _ hentry)).1.good, hlists, hfree, hfree⟩
  | finished hjoins hpolling hprocs =>
      exact ⟨(refreshSessions_spec plug _ _ h.good
        (h.lists.listed _ hpolling _ hprocs)).1.good, hlists,
        hfree, hfree⟩

theorem Host.booted_ready (minTtl durationFactor : ℚ) {store : Store}
    (hs : store.Good) :
    (Host.booted minTtl durationFactor store).Ready o := by
  have hnone : ∀ {C : Polling → Prop}, ∀ p ∈ (none : Option Polling), C p :=
    fun _ hp => absurd hp (by simp)
  exact ⟨hs, .of_free List.nodup_nil (fun _ he =>
    absurd he (by simp [Host.booted, AdaptiveTtlCache.new])) rfl,
    hnone, hnone⟩

end Invariants

end Telemetryd
