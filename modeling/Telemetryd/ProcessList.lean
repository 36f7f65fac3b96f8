import Mathlib.Data.List.Sort
import Telemetryd.SessionRules
import Telemetryd.TargetAttribution
import Telemetryd.Lib.GroupedSums

/-!
# The process list

`services/profiler/service.py`: the list that targets are chosen from, and the
profile.  Both are made from the same processes and the same statistics, but
by two pieces of code.  The list matches the rules and adds up the I/O of a pid
on its own; the profile goes through the sessions of the registry.  A process
that has gone is in the statistics only, and the list gets an entry for it from
a loop of its own.
-/

namespace Telemetryd

open PyText GroupedSums

/-! ### The service -/

/-- The I/O of one pid: its rate, its devices and the name it first came
with. -/
structure IoActivity where
  rate : ℚ
  devices : List PyText
  comm : PyText

/-- `setdefault(st.pid, …)` -/
def IoActivity.start (st : ProcessIoStat) : IoActivity := ⟨0, [], st.comm⟩

/-- The activity of one more statistic of a process. -/
def IoActivity.add (io : IoActivity) (st : ProcessIoStat) : IoActivity :=
  { io with rate := io.rate + st.iops, devices := io.devices.insert st.device }

/-- The activity of each process that has statistics. -/
def ioByPid (stats : List ProcessIoStat) : OrderedDict Int IoActivity :=
  stats.foldl (OrderedDict.gather (·.pid) IoActivity.start IoActivity.add)
    .empty

/-- `_process_stats`; `read` is what `read_process_stats` returns. -/
def profilerStats (available : Bool) (read : List ProcessIoStat) :
    List ProcessIoStat :=
  if available then read else []

/-- The reason why a kernel thread cannot be chosen. -/
def kernelThreadReason : PyText := "커널 스레드 — 프로파일 대상이 아님".toList

/-- The entry of a process of the kernel's list. -/
def listedEntry (plug : Plugins) (rules : List TargetRule)
    (io : OrderedDict Int IoActivity)
    (proc : ProcessInfo) : ProcessListEntry :=
  let matched := firstRule plug rules proc
  let activity := io.get? proc.pid
  let entry : ProcessListEntry :=
    { info := proc
      ioActive := activity.any (fun a => decide (0 < a.rate))
      ioRate := (activity.map (·.rate)).getD 0
      targetDevices :=
        ((activity.map (·.devices)).getD []).insertionSort (· ≤ ·)
      isTarget := matched.isSome
      matchedRule := matched.map (fun r => r.kind.text ++ '=' :: r.value) }
  if "커널 스레드".toList <:+: proc.error.getD [] then
    { entry with selectable := false, unselectableReason := some kernelThreadReason }
  else entry

/-- The entry of a pid that has I/O and is not in the kernel's list. -/
def goneEntry (e : Int × IoActivity) : ProcessListEntry where
  info := { pid := e.1, comm := e.2.comm,
            error := some "프로세스 목록에서 사라짐(종료 중일 수 있음)".toList }
  ioActive := decide (0 < e.2.rate)
  ioRate := e.2.rate
  targetDevices := e.2.devices.insertionSort (· ≤ ·)
  selectable := false
  unselectableReason := some "이미 종료된 것으로 보임".toList

/-- The order of `key=lambda e: (-e.io_rate, e.info.pid)`. -/
def ProcessListEntry.Before (a b : ProcessListEntry) : Prop :=
  b.ioRate < a.ioRate ∨ (a.ioRate = b.ioRate ∧ a.info.pid ≤ b.info.pid)

instance : DecidableRel ProcessListEntry.Before :=
  fun a b => inferInstanceAs (Decidable (b.ioRate < a.ioRate ∨
    (a.ioRate = b.ioRate ∧ _)))

/-- The entries, before they are filtered and sorted. -/
def processEntries (plug : Plugins) (rules : List TargetRule)
    (procs : List ProcessInfo)
    (stats : List ProcessIoStat) : List ProcessListEntry :=
  let io := ioByPid stats
  procs.map (listedEntry plug rules io) ++
    (io.items.filter (fun e => decide (e.1 ∉ procs.map (·.pid)))).map goneEntry

/-- `list_processes` of the backend. -/
def listProcesses (plug : Plugins) (available : Bool)
    (read : List ProcessIoStat)
    (procs : List ProcessInfo) (onlyIo : Bool) (s : Store) :
    List ProcessListEntry :=
  let entries :=
    processEntries plug s.reg.rules procs (profilerStats available read)
  (if onlyIo then entries.filter (·.ioActive)
    else entries).insertionSort ProcessListEntry.Before

/-- `get_profile` of the backend. -/
def getProfile (plug : Plugins) (clock : Clock) (available : Bool)
    (read : List ProcessIoStat)
    (procs : List ProcessInfo) (s : Store) : Store × ProfileSnapshot :=
  if available then refresh plug clock procs (profilerStats available read) s
  else
    let (s, snap) := refresh plug clock procs [] s
    (s, { snap with
      available := false
      error := some ("eBPF 수집기 없음 — 프로세스별 I/O 측정값이 비어 있다. ".toList ++
        "세션 자체는 만들어지므로 대상 선택은 계속 쓸 수 있다".toList) })

/-! ### Sorting what is left -/

section Sorting

variable {α : Type*} (r : α → α → Prop) [DecidableRel r] [IsTrans α r]
    [Std.Total r]

omit [Std.Total r] in
/-- Inserting in order and filtering can be exchanged. -/
theorem filter_orderedInsert (p : α → Bool) (a : α) :
    ∀ l : List α, l.Pairwise r → (l.orderedInsert r a).filter p
      = if p a = true then (l.filter p).orderedInsert r a else l.filter p := by
  intro l
  induction l with
  | nil =>
      intro _
      by_cases ha : p a = true <;> simp [ha]
  | cons b l ih =>
      intro hsorted
      obtain ⟨hb, hl⟩ := List.pairwise_cons.mp hsorted
      by_cases hab : r a b
      · rw [List.orderedInsert_cons_of_le r l hab]
        by_cases ha : p a = true
        · rw [List.filter_cons_of_pos ha, if_pos ha]
          -- everything that is left is above `a`
          have habove : ∀ c ∈ (b :: l).filter p, r a c := by
            intro c hc
            rcases List.mem_cons.mp (List.mem_filter.mp hc).1 with rfl | hc
            · exact hab
            · exact IsTrans.trans _ _ _ hab (hb c hc)
          cases hrest : (b :: l).filter p with
          | nil => rfl
          | cons c rest =>
              exact (List.orderedInsert_cons_of_le r rest
                (habove c (hrest ▸ List.mem_cons_self))).symm
        · rw [List.filter_cons_of_neg ha, if_neg ha]
      · rw [List.orderedInsert_of_not_le r l hab]
        by_cases hpb : p b = true
        · rw [List.filter_cons_of_pos hpb, List.filter_cons_of_pos hpb, ih hl]
          by_cases ha : p a = true
          · rw [if_pos ha, if_pos ha, List.orderedInsert_of_not_le r _ hab]
          · rw [if_neg ha, if_neg ha]
        · rw [List.filter_cons_of_neg hpb, List.filter_cons_of_neg hpb, ih hl]

/-- Filtering and sorting can be exchanged. -/
theorem filter_insertionSort (p : α → Bool) (l : List α) :
    (l.insertionSort r).filter p = (l.filter p).insertionSort r := by
  induction l with
  | nil => rfl
  | cons a l ih =>
      rw [List.insertionSort_cons,
        filter_orderedInsert r p a _ (List.pairwise_insertionSort r l), ih]
      by_cases ha : p a = true
      · rw [if_pos ha, List.filter_cons_of_pos ha, List.insertionSort_cons]
      · rw [if_neg ha, List.filter_cons_of_neg ha]

end Sorting

instance : IsTrans ProcessListEntry ProcessListEntry.Before where
  trans a b c hab hbc := by
    unfold ProcessListEntry.Before at *
    grind

instance : Std.Total ProcessListEntry.Before where
  total a b := by
    unfold ProcessListEntry.Before
    grind

/-! ### One pid -/

/-- The statistics of one pid, gathered. -/
def activityOf (st : ProcessIoStat) (rest : List ProcessIoStat) : IoActivity :=
  rest.foldl IoActivity.add ((IoActivity.start st).add st)

/-- The activity of a process is that of all its statistics. -/
theorem get?_ioByPid (stats : List ProcessIoStat) (pid : Int) :
    (ioByPid stats).get? pid = match statsOf stats pid with
      | [] => none
      | st :: rest => some (activityOf st rest) := by
  unfold ioByPid activityOf
  rw [OrderedDict.get?_foldl_gather, OrderedDict.get?_empty]
  change List.foldl _ none (statsOf stats pid) = _
  cases statsOf stats pid with
  | nil => rfl
  | cons st rest =>
      have hsome : ∀ (rest : List ProcessIoStat) (io : IoActivity),
          rest.foldl (fun o a =>
            some (IoActivity.add (o.getD (IoActivity.start a)) a)) (some io)
            = some (rest.foldl IoActivity.add io) := by
        intro rest
        induction rest with
        | nil => exact fun _ => rfl
        | cons a rest ih => exact fun io => ih (io.add a)
      exact hsome rest _

/-- The processes with activity are those with statistics. -/
theorem mem_keys_ioByPid {stats : List ProcessIoStat} {pid : Int} :
    pid ∈ (ioByPid stats).keys ↔ pid ∈ stats.map (·.pid) := by
  have hnil : statsOf stats pid = [] ↔ pid ∉ stats.map (·.pid) := by
    simp [statsOf, List.filter_eq_nil_iff]
  rw [OrderedDict.mem_keys_iff, get?_ioByPid]
  cases h : statsOf stats pid with
  | nil => simpa using hnil.mp h
  | cons st rest =>
      have hmem : pid ∈ stats.map (·.pid) := by
        by_contra hno
        rw [hnil.mpr hno] at h
        cases h
      exact iff_of_true ⟨_, rfl⟩ hmem

/-- The rate adds up over the statistics. -/
theorem rate_foldl_add (stats : List ProcessIoStat) (io : IoActivity) :
    (stats.foldl IoActivity.add io).rate = io.rate + iopsOf stats := by
  induction stats generalizing io with
  | nil => simp [iopsOf]
  | cons st stats ih =>
      rw [List.foldl_cons, ih]
      simp only [IoActivity.add, iopsOf, List.map_cons, List.sum_cons]
      ring

/-- The devices are those of the statistics, each of them once. -/
theorem devices_foldl_add (stats : List ProcessIoStat) (io : IoActivity)
    (h : io.devices.Nodup) :
    (stats.foldl IoActivity.add io).devices.Nodup ∧
      ∀ d, d ∈ (stats.foldl IoActivity.add io).devices ↔
        d ∈ io.devices ∨ d ∈ stats.map (·.device) := by
  induction stats generalizing io with
  | nil => exact ⟨h, by simp⟩
  | cons st stats ih =>
      obtain ⟨hnd, hmem⟩ := ih (io.add st) (h.insert (a := st.device))
      refine ⟨hnd, fun d => ?_⟩
      rw [List.foldl_cons, hmem d]
      simp only [IoActivity.add, List.mem_insert_iff, List.map_cons,
        List.mem_cons]
      grind

/-- The rate of a process is the sum of its statistics. -/
theorem rate_activityOf (st : ProcessIoStat) (rest : List ProcessIoStat) :
    (activityOf st rest).rate = iopsOf (st :: rest) := by
  have h := rate_foldl_add (st :: rest) (IoActivity.start st)
  rwa [show (IoActivity.start st).rate = 0 from rfl, zero_add] at h

/-- The sorted devices of a pid are those of its session. -/
theorem devices_activityOf (st : ProcessIoStat) (rest : List ProcessIoStat) :
    (activityOf st rest).devices.insertionSort (· ≤ ·)
      = ((st :: rest).map (·.device)).dedup.insertionSort (· ≤ ·) := by
  obtain ⟨hnd, hmem⟩ :=
    devices_foldl_add (st :: rest) (IoActivity.start st) List.nodup_nil
  have hperm :
      (activityOf st rest).devices.Perm
      ((st :: rest).map (·.device)).dedup := by
    refine (List.perm_ext_iff_of_nodup hnd (List.nodup_dedup _)).mpr fun d => ?_
    rw [List.mem_dedup, hmem d]
    simp [IoActivity.start]
  refine List.Perm.eq_of_pairwise (fun a b _ _ => le_antisymm)
    (List.pairwise_insertionSort _ _)
    (List.pairwise_insertionSort _ _) ?_
  exact (List.perm_insertionSort _ _).trans
    (hperm.trans (List.perm_insertionSort _ _).symm)

/-- What an entry reports of the I/O of its pid. -/
structure ReportsIo (stats : List ProcessIoStat) (e : ProcessListEntry) :
    Prop where
  rate : e.ioRate = iopsOf (statsOf stats e.info.pid)
  active : e.ioActive = decide (0 < e.ioRate)
  devices : e.targetDevices
    = ((statsOf stats e.info.pid).map (·.device)).dedup.insertionSort (· ≤ ·)

/-- The fields of an entry for a process that runs. -/
theorem listedEntry_fields (plug : Plugins) (rules : List TargetRule)
    (io : OrderedDict Int IoActivity) (proc : ProcessInfo) :
    (listedEntry plug rules io proc).info = proc ∧
      (listedEntry plug rules io proc).isTarget =
        (firstRule plug rules proc).isSome := by
  unfold listedEntry
  split <;> exact ⟨rfl, rfl⟩

/-- The entry of a process that runs reports its activity. -/
theorem reportsIo_listed (plug : Plugins) (rules : List TargetRule)
    (stats : List ProcessIoStat)
    (proc : ProcessInfo) :
    ReportsIo stats (listedEntry plug rules (ioByPid stats) proc) := by
  have hget := get?_ioByPid stats proc.pid
  have hall : ∀ e : ProcessListEntry, e.info.pid = proc.pid →
      e.ioRate = (((ioByPid stats).get? proc.pid).map (·.rate)).getD 0 →
      e.ioActive =
        ((ioByPid stats).get? proc.pid).any (fun a => decide (0 < a.rate)) →
      e.targetDevices =
        ((((ioByPid stats).get? proc.pid).map (·.devices)).getD
        []).insertionSort
        (· ≤ ·) → ReportsIo stats e := by
    intro e hpid hrate hactive hdevices
    cases hst : statsOf stats proc.pid with
    | nil =>
        rw [hst] at hget
        rw [hget] at hrate hactive hdevices
        refine ⟨?_, ?_, ?_⟩
        · rw [hpid, hst, hrate]
          rfl
        · rw [hrate, hactive]
          simp
        · rw [hpid, hst, hdevices]
          rfl
    | cons st rest =>
        rw [hst] at hget
        rw [hget] at hrate hactive hdevices
        refine ⟨?_, ?_, ?_⟩
        · rw [hpid, hst, hrate]
          exact rate_activityOf st rest
        · rw [hrate, hactive]
          rfl
        · rw [hpid, hst, hdevices]
          exact devices_activityOf st rest
  unfold listedEntry
  split <;> exact hall _ rfl rfl rfl rfl

/-- So does that of one that is gone. -/
theorem reportsIo_gone {stats : List ProcessIoStat} {e : Int × IoActivity}
    (h : e ∈ (ioByPid stats).items) : ReportsIo stats (goneEntry e) := by
  have hget :=
    (get?_ioByPid stats e.1).symm.trans (OrderedDict.get?_eq_some_iff.mpr h)
  cases hst : statsOf stats e.1 with
  | nil =>
      rw [hst] at hget
      cases hget
  | cons st rest =>
      rw [hst] at hget
      have hio : activityOf st rest = e.2 := Option.some.inj hget
      refine ⟨?_, rfl, ?_⟩
      · change e.2.rate = iopsOf (statsOf stats e.1)
        rw [hst, ← hio, rate_activityOf]
      · change e.2.devices.insertionSort (· ≤ ·) =
          ((statsOf stats e.1).map (·.device)).dedup.insertionSort _
        rw [hst, ← hio, devices_activityOf]

/-! ### The list -/

section Entries

variable {plug : Plugins} {rules : List TargetRule} {procs : List ProcessInfo}
  {stats : List ProcessIoStat}

/-- Every entry reports the activity of its process. -/
theorem reportsIo_entries {e : ProcessListEntry}
    (h : e ∈ processEntries plug rules procs stats) :
    ReportsIo stats e := by
  rcases List.mem_append.mp h with h | h
  · obtain ⟨proc, -, rfl⟩ := List.mem_map.mp h
    exact reportsIo_listed plug rules stats proc
  · obtain ⟨io, hio, rfl⟩ := List.mem_map.mp h
    exact reportsIo_gone (List.mem_filter.mp hio).1

/-- The processes of the list: those that run, then those that are gone. -/
theorem pids_entries : (processEntries plug rules procs stats).map (·.info.pid)
    = procs.map (·.pid) ++ (ioByPid stats).keys.filter (fun pid =>
      decide (pid ∉ procs.map (·.pid))) := by
  unfold processEntries OrderedDict.keys
  rw [List.map_append, List.map_map, List.map_map, List.filter_map]
  congr 1
  exact List.map_congr_left fun proc _ =>
    congrArg ProcessInfo.pid (listedEntry_fields _ _ _ _).1

/-- A process is listed exactly if it runs or has statistics. -/
theorem mem_pids_entries {pid : Int} :
    pid ∈ (processEntries plug rules procs stats).map (·.info.pid) ↔
      pid ∈ procs.map (·.pid) ∨ pid ∈ stats.map (·.pid) := by
  rw [pids_entries, List.mem_append, List.mem_filter, mem_keys_ioByPid,
    decide_eq_true_eq]
  tauto

/-- No pid has two entries. -/
theorem nodup_pids_entries (h : DistinctPids procs) :
    ((processEntries plug rules procs stats).map (·.info.pid)).Nodup := by
  rw [pids_entries]
  refine List.nodup_append.mpr ⟨h, (OrderedDict.keys_nodup _).filter _, ?_⟩
  intro a ha b hb hab
  exact of_decide_eq_true (List.mem_filter.mp hb).2 (hab ▸ ha)

/-- The rates of the entries are those of the statistics. -/
theorem sum_rate_entries (h : DistinctPids procs) :
    ((processEntries plug rules procs stats).map (·.ioRate)).sum =
      iopsOf stats := by
  have hrates : (processEntries plug rules procs stats).map (·.ioRate)
      = ((processEntries plug rules procs stats).map (·.info.pid)).map
          (groupSum (·.pid) (·.iops) stats) := by
    rw [List.map_map]
    exact List.map_congr_left fun e he => (reportsIo_entries he).rate
  rw [hrates, sum_groupSum_of_forall _ _ (nodup_pids_entries h)]
  · rfl
  · exact fun st hst => mem_pids_entries.mpr (Or.inr (List.mem_map_of_mem hst))

end Entries

/-! ### The list and the profile -/

/-- The sessions of a profile are those of the refresh. -/
theorem sessions_getProfile (plug : Plugins) (clock : Clock) (available : Bool)
    (read : List ProcessIoStat) (procs : List ProcessInfo) (s : Store) :
    (getProfile plug clock available read procs s).2.sessions
      = (refresh plug clock procs (profilerStats available read)
        s).2.sessions := by
  cases available <;> rfl

section Profile

variable {plug : Plugins} {clock : Clock} {procs : List ProcessInfo}
    {stats : List ProcessIoStat}
  {s : Store} {proc : ProcessInfo}

/-- An active session of the pid of a listed process is the session of that
process, brought up to date. -/
theorem active_session_of_pid (hs : s.Good) (hprocs : DistinctPids procs)
    (hproc : proc ∈ procs)
    {sess : Session}
    (hsess : sess ∈ (refresh plug clock procs stats s).2.sessions)
    (hact : sess.status = .active) (hpid : sess.pid = proc.pid) :
    ∃ rule base, firstRule plug s.reg.rules proc = some rule ∧
      base.core.identity = proc.identity ∧
      sess = observe plug proc rule (statsOf stats proc.pid) base := by
  obtain ⟨sid, hget⟩ := mem_sessions_snapshot.mp hsess
  rcases refresh_cases hs hprocs hget with ⟨p, hp, rule, base, hrule, hbase,
    rfl⟩ | hleft
  · have hident : base.core.identity = p.identity := hbase.identity
    have hsame : p.pid = proc.pid := (congrArg Prod.fst hident).symm.trans hpid
    obtain rfl : p = proc := List.inj_on_of_nodup_map hprocs hp hproc hsame
    exact ⟨rule, base, hrule, hident, rfl⟩
  · rw [status_leftBehind hleft] at hact
    cases hact

/-- Every matched process has an active session. -/
theorem exists_active_session (hs : s.Good) (hprocs : DistinctPids procs)
    (hproc : proc ∈ procs)
    (hrule : (firstRule plug s.reg.rules proc).isSome) :
    ∃ sess ∈ (refresh plug clock procs stats s).2.sessions,
      sess.status = .active ∧ sess.pid = proc.pid := by
  obtain ⟨-, hiff, hex⟩ := refreshSessions_spec plug clock stats hs hprocs
  have hmatched := (mem_matchedProcesses hprocs).mpr ⟨hproc, hrule⟩
  obtain ⟨sid, sess, hget, hident, -⟩ := hex proc hmatched
  exact ⟨sess, mem_sessions_snapshot.mpr ⟨sid, hget⟩,
    (hiff sid sess hget).mpr ⟨proc, hmatched, hident⟩,
    congrArg Prod.fst hident⟩

/-- The entry of a process and its session. -/
theorem entry_agrees (hs : s.Good) (hprocs : DistinctPids procs)
    (hproc : proc ∈ procs)
    {e : ProcessListEntry} (hinfo : e.info = proc)
    (htarget : e.isTarget = (firstRule plug s.reg.rules proc).isSome)
    (hio : ReportsIo stats e) :
    (e.isTarget = true ↔ ∃ sess ∈ (refresh plug clock procs stats s).2.sessions,
        sess.status = .active ∧ sess.pid = proc.pid) ∧
      ∀ sess ∈ (refresh plug clock procs stats s).2.sessions,
        sess.status = .active →
        sess.pid = proc.pid → sess.startTimeNs = proc.startTimeNs ∧
          sess.aggregate.map (·.iops) = some e.ioRate ∧
            sess.devices = e.targetDevices := by
  subst hinfo
  refine ⟨⟨fun h => ?_, fun h => ?_⟩, fun sess hsess hact hpid => ?_⟩
  · exact exists_active_session hs hprocs hproc (htarget ▸ h)
  · obtain ⟨sess, hsess, hact, hpid⟩ := h
    obtain ⟨rule, -, hrule, -⟩ :=
      active_session_of_pid hs hprocs hproc hsess hact hpid
    rw [htarget, hrule]
    rfl
  · obtain ⟨rule, base, -, hident, rfl⟩ :=
      active_session_of_pid hs hprocs hproc hsess hact hpid
    refine ⟨congrArg Prod.snd hident, ?_, hio.devices.symm⟩
    rw [hio.rate, ← iops_measuredFromStats]
    rfl

end Profile

/-- **The process list and the profile agree.**  In every reachable state, for
the same processes and the same statistics: a process is a target of the list
exactly if the profile has an active session of it, and then the session has the
rate and the devices of the list; every pid of the processes and of the
statistics has one entry, and no other has any; the rates add up to those of the
statistics; and the list of what does I/O is the part of the list with a
positive rate. -/
theorem process_list_agrees (plug : Plugins) (maxFinished : Nat)
    (ops : List RegistryOp)
    (hops : ∀ op ∈ ops, op.DistinctPids) (clock : Clock)
    (procs : List ProcessInfo)
    (hprocs : DistinctPids procs) (available : Bool)
    (read : List ProcessIoStat) :
    let s := runOps plug (Store.fresh maxFinished) ops
    let stats := profilerStats available read
    let entries := listProcesses plug available read procs false s
    let snap := (getProfile plug clock available read procs s).2
    (∀ proc ∈ procs, ∃ e ∈ entries, e.info = proc ∧
      (e.isTarget = true ↔
        ∃ sess ∈ snap.sessions, sess.status = .active ∧ sess.pid = proc.pid) ∧
      ∀ sess ∈ snap.sessions, sess.status = .active → sess.pid = proc.pid →
        sess.startTimeNs = proc.startTimeNs ∧
          sess.aggregate.map (·.iops) = some e.ioRate ∧
          sess.devices = e.targetDevices) ∧
    (∀ pid, (entries.map (·.info.pid)).count pid
      = if pid ∈ procs.map (·.pid) ∨ pid ∈ stats.map (·.pid) then 1 else 0) ∧
    (entries.map (·.ioRate)).sum = (stats.map (·.iops)).sum ∧
    listProcesses plug available read procs true s
      = entries.filter (fun e => decide (0 < e.ioRate)) := by
  intro s stats entries snap
  have hs : s.Good := runOps_good plug (Store.fresh_good maxFinished) hops
  have hsnap : snap.sessions = (refresh plug clock procs stats s).2.sessions :=
    sessions_getProfile plug clock available read procs s
  have hentries : entries
      = (processEntries plug s.reg.rules procs stats).insertionSort
        ProcessListEntry.Before := rfl
  have hperm : entries.Perm (processEntries plug s.reg.rules procs stats) :=
    hentries ▸ List.perm_insertionSort _ _
  refine ⟨?_, ?_, ?_, ?_⟩
  · intro proc hproc
    have hmem : listedEntry plug s.reg.rules (ioByPid stats) proc
        ∈ processEntries plug s.reg.rules procs stats :=
      List.mem_append_left _ (List.mem_map_of_mem hproc)
    obtain ⟨hinfo, htarget⟩ :=
      listedEntry_fields plug s.reg.rules (ioByPid stats) proc
    rw [hsnap]
    exact ⟨_, hperm.mem_iff.mpr hmem, hinfo,
      entry_agrees hs hprocs hproc hinfo htarget (reportsIo_entries hmem)⟩
  · intro pid
    rw [(hperm.map _).count_eq, (nodup_pids_entries hprocs).count]
    exact if_congr mem_pids_entries rfl rfl
  · rw [(hperm.map _).sum_eq]
    exact sum_rate_entries hprocs
  · have hactive :
        (processEntries plug s.reg.rules procs stats).filter (·.ioActive)
        = (processEntries plug s.reg.rules procs stats).filter (fun e =>
          decide (0 < e.ioRate)) :=
      List.filter_congr fun e he => (reportsIo_entries he).active
    rw [hentries, filter_insertionSort, ← hactive]
    rfl

/-- I/O of one pid on one device. -/
def ioOn (device : PyText) (pid : Int) (iops : ℚ) : ProcessIoStat where
  device := device
  pid := pid
  comm := "fio".toList
  iops := iops
  readIops := iops
  writeIops := 0
  bandwidthBps := 0
  avgLatencyUs := 0
  ioSizeDominant := 4096
  ioSizeHist := []
  queues := []
  queueDepthEst := 0
  seqRatio := none
  threads := []

/-- A target on two devices, and a process that has gone. -/
theorem process_list_agrees_gone :
    let s := runOps plainPlugins (Store.fresh 50) observedByName
    let read := [ioOn "nvme1".toList 7 5, ioOn "nvme0".toList 9 30,
      ioOn "nvme0".toList 7 10]
    let entries := listProcesses plainPlugins true read [fioProcess] false s
    entries.map (fun e => (e.info.pid, e.isTarget, e.selectable))
      = [(9, false, false), (7, true, true)] ∧
    (entries.map (·.ioRate)).sum = (read.map (·.iops)).sum :=
  ⟨by decide +kernel,
    (process_list_agrees plainPlugins 50 observedByName observedByName_distinct (stillClock 300)
      [fioProcess] (by decide) true _).2.2.1⟩

end Telemetryd
