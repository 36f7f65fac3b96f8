import Mathlib.Data.List.Induction
import Telemetryd.CommandLine
import Telemetryd.Lib.Fallible
import Telemetryd.ProcessList

/-!
# Which processes are kernel threads

`list_processes` of `backend/procinfo.py` goes through the tasks once and makes
a process of each thread group.  A kernel thread is a process without an `mm`,
but this is not what is asked: a process is taken for a kernel thread if it has
neither a command line nor the path of a program, and both are empty too where
they cannot be read.
-/

namespace Telemetryd

open PyText Utf8

/-! ### Tasks -/

/-- How the read of a pointer goes: the attribute is lost, the memory of the
pointer cannot be read, or it can. -/
inductive Reading where
  | lost
  | faults (e : Raised)
  | fetched
  deriving DecidableEq

/-- A pointer as it is read; `none` where it is NULL or the attribute is
lost. -/
def Reading.pointer {α : Type} (reading : Reading) (target : Option α) :
    Except Raised (Option α) :=
  match reading with
  | .lost => .ok none
  | .faults e => .error e
  | .fetched => .ok target

/-- A task, and what reading it does.  A number or a text is `none` where it
cannot be read; a pointer is `none` where it is NULL.  The pointer `mm` is read
twice. -/
structure Task where
  tgid : Option Int
  pid : Option Int
  comm : Option Bytes
  mm : Option MmStruct
  mmForCmdline : Reading
  mmForExe : Reading
  /-- `access_process_vm` of this task -/
  accessProcessVm : Nat → Nat → Except Raised (Option Bytes)
  exeReading : Reading
  /-- `mm->exe_file`, and what `d_path` gives for it -/
  exeFile : Option (Option Bytes)
  startBoottime : Option Int

/-- `_comm` -/
def Task.name (task : Task) : PyText := (task.comm.map decode).getD []

/-- `_cmdline` -/
def Task.cmdline (task : Task) (read : PhysRead) (pageOffsetBase : Int) :
    Except Raised (PyText × Option PyText) := do
  let mm ← task.mmForCmdline.pointer task.mm
  return Telemetryd.cmdline mm task.accessProcessVm read pageOffsetBase

/-- `_exe_path` -/
def Task.exePath (task : Task) : Except Raised PyText := do
  match ← task.mmForExe.pointer task.mm with
  | none => return []
  | some _ =>
      match ← task.exeReading.pointer task.exeFile with
      | none => return []
      | some path => return (path.map decode).getD []

/-! ### Processes -/

/-- The threads of a process and its leader, if that was met. -/
structure TaskGroup where
  leader : Option Task := none
  threads : List (Int × PyText) := []

/-- The body of the loop over the tasks. -/
def addTask (groups : OrderedDict Int TaskGroup) (task : Task) :
    OrderedDict Int TaskGroup :=
  match task.tgid, task.pid with
  | some tgid, some tid =>
      let g := (groups.get? tgid).getD {}
      groups.insert tgid
        { leader := if tid = tgid then some task else g.leader
          threads := g.threads ++ [(tid, task.name)] }
  | _, _ => groups

/-- The error of a process that is taken for a kernel thread. -/
def kernelThreadError : PyText := "커널 스레드(mm 없음) — cmdline/exe 없음".toList

/-- `_cmdline(prog, leader) if with_cmdline else ("", None)` -/
def askedCmdline (withCmdline : Bool) (read : PhysRead) (pageOffsetBase : Int)
    (leader : Task) :
    Except Raised (PyText × Option PyText) :=
  if withCmdline then leader.cmdline read pageOffsetBase else .ok ([], none)

/-- The process of a thread group. -/
def processOf (withCmdline : Bool) (read : PhysRead) (pageOffsetBase : Int)
    (tgid : Int)
    (g : TaskGroup) : Except Raised ProcessInfo :=
  let threads :=
    g.threads.insertionSort (fun a b => a.1 < b.1 ∨ (a.1 = b.1 ∧ a.2 ≤ b.2))
  match g.leader with
  | none => .ok
      { pid := tgid
        comm := (threads.head?.map Prod.snd).getD []
        threadCount := threads.length
        threads := threads
        error := some "스레드 그룹 리더를 못 찾음(종료 중일 수 있음)".toList }
  | some leader => do
      let cmd ← askedCmdline withCmdline read pageOffsetBase leader
      let exePath ← leader.exePath
      return {
        pid := tgid
        comm := leader.name
        cmdline := cmd.1
        exePath := exePath
        startTimeNs := leader.startBoottime.getD 0
        threadCount := threads.length
        threads := threads
        error := if cmd.1 = [] ∧ exePath = [] then some kernelThreadError
          else if cmd.2.getD [] ≠ [] then cmd.2 else none }

/-- `list_processes` -/
def kernelListProcesses (withCmdline : Bool) (read : PhysRead)
    (pageOffsetBase : Int)
    (tasks : List Task) : Except Raised (List ProcessInfo) := do
  let groups := tasks.foldl addTask .empty
  let out ← groups.items.mapM (fun e =>
    processOf withCmdline read pageOffsetBase e.1 e.2)
  return out.insertionSort (fun a b => a.pid ≤ b.pid)

/-! ### Leaders -/

/-- The leader of a process: the last task that is met with its number. -/
def leaderOf (tasks : List Task) (tgid : Int) : Option Task :=
  (tasks.filter (fun t =>
    decide (t.tgid = some tgid ∧ t.pid = some tgid))).getLast?

theorem leader_addTask (groups : OrderedDict Int TaskGroup) (task : Task)
    (tgid : Int) :
    ((addTask groups task).get? tgid).bind (·.leader)
      = if task.tgid = some tgid ∧ task.pid = some tgid then some task
        else (groups.get? tgid).bind (·.leader) := by
  unfold addTask
  split
  case h_1 t tid htgid hpid =>
    rw [htgid, hpid, OrderedDict.get?_insert]
    by_cases ht : tgid = t
    · subst ht
      by_cases htid : tid = tgid
      · simp [htid]
      · cases groups.get? tgid with
        | none => simp [htid]
        | some g => simp [htid]
    · simp [ht, Ne.symm ht]
  case h_2 hnone =>
    rw [if_neg]
    intro hboth
    exact hnone _ _ hboth.1 hboth.2

theorem leader_groups (tasks : List Task) (tgid : Int) :
    ((tasks.foldl addTask .empty).get? tgid).bind (·.leader) =
      leaderOf tasks tgid := by
  induction tasks using List.reverseRecOn with
  | nil => rfl
  | append_singleton tasks task ih =>
      have hlast : (tasks ++ [task]).foldl addTask .empty =
          addTask (tasks.foldl addTask .empty) task := by
        rw [List.foldl_append]
        rfl
      unfold leaderOf at ih ⊢
      rw [hlast, leader_addTask, ih, List.filter_append]
      by_cases hown : task.tgid = some tgid ∧ task.pid = some tgid
      · simp [hown]
      · simp [hown]

/-- The process of a leader is made of its group. -/
theorem group_of_leader {tasks : List Task} {tgid : Int} {leader : Task} :
    leaderOf tasks tgid = some leader ↔
      ∃ g, (tgid, g) ∈ (tasks.foldl addTask .empty).items ∧
        g.leader = some leader := by
  rw [← leader_groups, Option.bind_eq_some_iff]
  exact exists_congr fun g => and_congr OrderedDict.get?_eq_some_iff Iff.rfl

/-! ### The text of the arguments -/

/-- A text has a piece between its NULs if it has another character. -/
theorem exists_piece_iff (s : PyText) :
    (∃ x ∈ splitOn ['\x00'] s, x ≠ []) ↔ ∃ c ∈ s, c ≠ '\x00' := by
  have hgo : (∃ x ∈ splitGo ['\x00'] 0 s, x ≠ []) ↔ ∃ c ∈ s, c ≠ '\x00' := by
    induction s with
    | nil => simp [splitGo]
    | cons c s ih =>
        by_cases hc : c = '\x00'
        · have hcut : splitGo ['\x00'] 0 (c :: s) =
              [] :: splitGo ['\x00'] 0 s := by
            simp [splitGo, hc]
          rw [hcut]
          simp only [List.exists_mem_cons_iff, ne_eq, not_true_eq_false,
            false_or, hc]
          exact ih
        · have hkeep :
              splitGo ['\x00'] 0 (c :: s) =
              consHead c (splitGo ['\x00'] 0 s) := by
            simp [splitGo, Ne.symm hc]
          refine iff_of_true ?_ ⟨c, List.mem_cons_self, hc⟩
          rw [hkeep]
          cases splitGo ['\x00'] 0 s with
          | nil => exact ⟨[c], List.mem_cons_self, List.cons_ne_nil _ _⟩
          | cons piece rest =>
              exact ⟨c :: piece, List.mem_cons_self, List.cons_ne_nil _ _⟩
  exact hgo

theorem argumentText_ne_nil_iff (raw : Bytes) :
    argumentText raw ≠ [] ↔ ∃ c ∈ decode raw, c ≠ '\x00' := by
  rw [← exists_piece_iff]
  unfold argumentText
  constructor
  · intro hne
    by_contra hno
    have hnone :
        (splitOn ['\x00'] (decode raw)).filter (fun x => decide (x ≠ [])) =
        [] := by
      apply List.filter_eq_nil_iff.mpr
      intro x hx hsome
      exact hno ⟨x, hx, of_decide_eq_true hsome⟩
    rw [hnone] at hne
    exact hne rfl
  · intro hsome
    obtain ⟨x, hx, hne⟩ := hsome
    have hmem : x ∈
        (splitOn ['\x00'] (decode raw)).filter (fun x => decide (x ≠ [])) :=
      List.mem_filter.mpr ⟨hx, decide_eq_true hne⟩
    intro hnil
    have hspread := Shlex.length_join (x := ' ') (List.ne_nil_of_mem hmem)
    rw [hnil] at hspread
    have hlen : x.length + 1 ≤ Shlex.spread _ :=
      List.single_le_sum (fun _ _ => Nat.zero_le _) _
        (List.mem_map_of_mem (f := fun w : PyText => w.length + 1) hmem)
    have hpos := List.length_pos_iff.mpr hne
    simp only [List.length_nil] at hspread
    omega

theorem argumentText_nil : argumentText [] = [] := by
  by_contra hne
  obtain ⟨c, hc, -⟩ := (argumentText_ne_nil_iff []).mp hne
  cases hc

/-! ### What decides -/

/-- The reason for an empty command line if both ways to read it fail. -/
def unreadReason (helperErr e : Raised) : PyText :=
  "유저 메모리 읽기 실패: ".toList ++ helperErr.typeName ++
    " -> 페이지테이블 폴백도 실패: ".toList ++ e.typeName ++ ": ".toList ++ e.text

/-- The words by which the service knows a kernel thread. -/
def kernelThreadWords : PyText := "커널 스레드".toList

/-- What comes of the two ways to read the argument area. -/
def areaOutcome (helper : Except Raised (Option Bytes))
    (fallback : Except Raised Bytes) :
    PyText × Option PyText :=
  match helper with
  | .ok none => ([], some "유저 메모리 읽기 실패(빈 결과)".toList)
  | .ok (some raw) => (argumentText raw, none)
  | .error helperErr =>
      match fallback with
      | .error e => ([], some (unreadReason helperErr e))
      | .ok [] => ([], some "유저 메모리가 매핑돼 있지 않음(스왑/미할당)".toList)
      | .ok raw => (argumentText raw, none)

theorem cmdline_some (mm : MmStruct)
    (accessProcessVm : Nat → Nat → Except Raised (Option Bytes))
    (read : PhysRead) (pageOffsetBase : Int) :
    cmdline (some mm) accessProcessVm read pageOffsetBase =
      if mm.argStart = 0 ∨ mm.argEnd ≤ mm.argStart then
        ([], some "mm->arg_start/arg_end가 비어 있음".toList)
      else
        let n := min (mm.argEnd - mm.argStart) cmdlineMax
        areaOutcome (accessProcessVm mm.argStart n)
          (readUserViaPagetable read pageOffsetBase mm.pgd mm.argStart n) := by
  unfold cmdline areaOutcome unreadReason
  rfl

theorem reason_areaOutcome (helper : Except Raised (Option Bytes))
    (fallback : Except Raised Bytes) :
    ∀ reason, (areaOutcome helper fallback).2 = some reason → reason ≠ [] := by
  intro reason h
  unfold areaOutcome at h
  cases helper with
  | ok out =>
      cases out with
      | none =>
          obtain rfl := Option.some.inj h
          decide
      | some raw => cases h
  | error helperErr =>
      cases fallback with
      | error e =>
          obtain rfl := Option.some.inj h
          intro hnil
          have hfront := (List.append_eq_nil_iff.mp hnil).1
          have hcolon := (List.append_eq_nil_iff.mp hfront).2
          cases hcolon
      | ok raw =>
          cases raw with
          | nil =>
              obtain rfl := Option.some.inj h
              decide
          | cons b raw => cases h

theorem reason_ne_nil (mm : MmStruct)
    (accessProcessVm : Nat → Nat → Except Raised (Option Bytes))
    (read : PhysRead)
    (pageOffsetBase : Int) : ∀ reason,
      (cmdline (some mm) accessProcessVm read pageOffsetBase).2 = some reason →
        reason ≠ [] := by
  intro reason h
  rw [cmdline_some] at h
  split at h
  · obtain rfl := Option.some.inj h
    decide
  · exact reason_areaOutcome _ _ reason h

/-- A text is read if one of the ways gives a character. -/
theorem text_areaOutcome (helper : Except Raised (Option Bytes))
    (fallback : Except Raised Bytes) :
    (areaOutcome helper fallback).1 ≠ [] ↔ ∃ raw, (helper = .ok (some raw) ∨
      ∃ e, helper = .error e ∧ fallback = .ok raw) ∧ ∃ c ∈ decode raw,
        c ≠ '\x00' := by
  simp only [← argumentText_ne_nil_iff]
  unfold areaOutcome
  cases helper with
  | ok out =>
      cases out with
      | none => simp
      | some raw => simp
  | error helperErr =>
      cases fallback with
      | error e => simp
      | ok raw =>
          cases raw with
          | nil => simp [argumentText_nil]
          | cons b raw => simp

theorem words_areaOutcome (helper : Except Raised (Option Bytes))
    (fallback : Except Raised Bytes) :
    (∃ reason, (areaOutcome helper fallback).2 = some reason ∧
      kernelThreadWords <:+: reason) ↔
      ∃ helperErr e, helper = .error helperErr ∧ fallback = .error e ∧
        kernelThreadWords <:+: unreadReason helperErr e := by
  have hplain : ¬ kernelThreadWords <:+: "유저 메모리 읽기 실패(빈 결과)".toList ∧
      ¬ kernelThreadWords <:+: "유저 메모리가 매핑돼 있지 않음(스왑/미할당)".toList := by decide
  unfold areaOutcome
  cases helper with
  | ok out =>
      cases out with
      | none => simpa using hplain.1
      | some raw => simp
  | error helperErr =>
      cases fallback with
      | error e => simp
      | ok raw =>
          cases raw with
          | nil => simpa using hplain.2
          | cons b raw => simp

namespace Task

variable (task : Task) (withCmdline : Bool) (read : PhysRead)
    (pageOffsetBase : Int)

/-- The pointer `mm` is read, for the command line or for the path. -/
def MmRead : Prop :=
  (withCmdline = true ∧ task.mmForCmdline = .fetched) ∨ task.mmForExe = .fetched

/-- No pointer is asked for that is in memory which cannot be read. -/
structure Unfaulted : Prop where
  cmdline : withCmdline = true → ∀ e, task.mmForCmdline ≠ .faults e
  exe : ∀ e, task.mmForExe ≠ .faults e
  exeFile : task.mmForExe = .fetched → task.mm ≠ none →
    ∀ e, task.exeReading ≠ .faults e

/-- The argument area is asked for. -/
def AreaKnown (mm : MmStruct) : Prop :=
  task.mmForCmdline = .fetched ∧ mm.argStart ≠ 0 ∧ mm.argStart < mm.argEnd

/-- What the two ways to read the argument area give. -/
def helperOf (mm : MmStruct) : Except Raised (Option Bytes) :=
  task.accessProcessVm mm.argStart (min (mm.argEnd - mm.argStart) cmdlineMax)

/-- The argument area, read over the page tables. -/
def fallbackOf (mm : MmStruct) : Except Raised Bytes :=
  readUserViaPagetable read pageOffsetBase mm.pgd mm.argStart
    (min (mm.argEnd - mm.argStart) cmdlineMax)

/-- The argument area is read, one way or the other, and has a character. -/
def ArgumentsRead (mm : MmStruct) : Prop :=
  task.AreaKnown mm ∧ ∃ raw, (task.helperOf mm = .ok (some raw) ∨
    ∃ e, task.helperOf mm = .error e ∧ fallbackOf read pageOffsetBase mm =
      .ok raw) ∧
    ∃ c ∈ decode raw, c ≠ '\x00'

/-- Both ways fail, and the exceptions have the words for a kernel thread. -/
def Misleading (mm : MmStruct) : Prop :=
  task.AreaKnown mm ∧ ∃ helperErr e, task.helperOf mm = .error helperErr ∧
    fallbackOf read pageOffsetBase mm = .error e ∧
      kernelThreadWords <:+: unreadReason helperErr e

/-- The path of the program is read and not empty. -/
def PathRead : Prop :=
  task.mmForExe = .fetched ∧ task.exeReading = .fetched ∧
    ∃ path, task.exeFile = some (some path) ∧ decode path ≠ []

/-- The reads of a leader tell a kernel thread from a user process. -/
structure Telling : Prop where
  unfaulted : task.Unfaulted withCmdline
  kernel : task.mm = none → task.MmRead withCmdline
  user : ∀ mm, task.mm = some mm →
    ((withCmdline = true ∧ task.ArgumentsRead read pageOffsetBase mm) ∨
      task.PathRead) ∧
      (withCmdline = true → ¬ task.Misleading read pageOffsetBase mm)

section

variable {task : Task} {read : PhysRead} {pageOffsetBase : Int}

theorem cmdline_cases (task : Task) (read : PhysRead) (pageOffsetBase : Int) :
    task.cmdline read pageOffsetBase = match task.mmForCmdline with
      | .lost => .ok ([], none)
      | .faults e => .error e
      | .fetched =>
          .ok (Telemetryd.cmdline task.mm task.accessProcessVm read
            pageOffsetBase) := by
  unfold Task.cmdline Reading.pointer
  cases task.mmForCmdline with
  | lost => rfl
  | faults e => rfl
  | fetched => rfl

/-- The command line is not empty if the argument area is read. -/
theorem argumentsRead_iff {mm : MmStruct} (h : task.mmForCmdline = .fetched) :
    task.ArgumentsRead read pageOffsetBase mm ↔
      (Telemetryd.cmdline (some mm) task.accessProcessVm read
        pageOffsetBase).1 ≠ [] := by
  rw [cmdline_some]
  by_cases harea : mm.argStart = 0 ∨ mm.argEnd ≤ mm.argStart
  · rw [if_pos harea]
    refine iff_of_false (fun hread => ?_) (fun hne => hne rfl)
    obtain ⟨-, hstart, hend⟩ := hread.1
    omega
  · rw [if_neg harea, text_areaOutcome]
    exact and_iff_right ⟨h, by omega, by omega⟩

/-- The reason has the words for a kernel thread only by an exception. -/
theorem misleading_iff {mm : MmStruct} (h : task.mmForCmdline = .fetched) :
    task.Misleading read pageOffsetBase mm ↔ ∃ reason,
      (Telemetryd.cmdline (some mm) task.accessProcessVm read
        pageOffsetBase).2 = some reason ∧
        kernelThreadWords <:+: reason := by
  rw [cmdline_some]
  by_cases harea : mm.argStart = 0 ∨ mm.argEnd ≤ mm.argStart
  · rw [if_pos harea]
    refine iff_of_false (fun hread => ?_) (fun hreason => ?_)
    · obtain ⟨-, hstart, hend⟩ := hread.1
      omega
    · obtain ⟨reason, heq, hwords⟩ := hreason
      obtain rfl := Option.some.inj heq
      revert hwords
      decide
  · rw [if_neg harea, words_areaOutcome]
    exact and_iff_right ⟨h, by omega, by omega⟩

/-- The path of a program is read without a fault. -/
theorem exePath_eq_ok {path : PyText} (h : task.exePath = .ok path) :
    (∀ e, task.mmForExe ≠ .faults e) ∧
    (task.mmForExe = .fetched → task.mm ≠ none →
      ∀ e, task.exeReading ≠ .faults e) ∧
    (path ≠ [] ↔ task.mm ≠ none ∧ task.PathRead) := by
  unfold Task.exePath at h
  unfold PathRead
  cases hmm : task.mmForExe with
  | lost =>
      rw [hmm] at h
      obtain rfl := Except.ok.inj h
      simp
  | faults e =>
      rw [hmm] at h
      cases h
  | fetched =>
      rw [hmm] at h
      cases htarget : task.mm with
      | none =>
          rw [htarget] at h
          obtain rfl := Except.ok.inj h
          simp
      | some mm =>
          rw [htarget] at h
          cases hexe : task.exeReading with
          | lost =>
              rw [hexe] at h
              obtain rfl := Except.ok.inj h
              simp
          | faults e =>
              rw [hexe] at h
              cases h
          | fetched =>
              rw [hexe] at h
              cases hfile : task.exeFile with
              | none =>
                  rw [hfile] at h
                  obtain rfl := Except.ok.inj h
                  simp
              | some file =>
                  rw [hfile] at h
                  obtain rfl := Except.ok.inj h
                  cases file with
                  | none => simp
                  | some raw => simp

theorem exists_exePath (hexe : ∀ e, task.mmForExe ≠ .faults e)
    (hfile : task.mmForExe = .fetched → task.mm ≠ none →
      ∀ e, task.exeReading ≠ .faults e) :
    ∃ path, task.exePath = .ok path := by
  unfold Task.exePath
  cases hmm : task.mmForExe with
  | lost => exact ⟨_, rfl⟩
  | faults e => exact absurd hmm (hexe e)
  | fetched =>
      cases htarget : task.mm with
      | none => exact ⟨_, rfl⟩
      | some mm =>
          cases hreading : task.exeReading with
          | lost => exact ⟨_, rfl⟩
          | faults e => exact absurd hreading (hfile hmm (by simp [htarget]) e)
          | fetched =>
              cases task.exeFile with
              | none => exact ⟨_, rfl⟩
              | some path => exact ⟨_, rfl⟩

end

end Task

/-! ### The list -/

/-- What the list says of a leader: its process is marked as a kernel thread, by
its error and by the service, if the pointer `mm` was read and is NULL; and the
error of a user process keeps the reason for an empty command line. -/
structure RightlyMarked (plug : Plugins) (rules : List TargetRule)
    (io : OrderedDict Int IoActivity)
    (withCmdline : Bool) (read : PhysRead) (pageOffsetBase : Int)
    (leader : Task)
    (info : ProcessInfo) : Prop where
  marked : info.error = some kernelThreadError ↔ leader.MmRead withCmdline ∧
    leader.mm = none
  unselectable : (listedEntry plug rules io info).unselectableReason =
    some kernelThreadReason ↔
    leader.MmRead withCmdline ∧ leader.mm = none
  reason : leader.mm ≠ none → withCmdline = true → ∀ reason,
    leader.cmdline read pageOffsetBase = .ok ([], some reason) →
      info.error = some reason

section

variable {withCmdline : Bool} {read : PhysRead} {pageOffsetBase : Int}

/-- A process with a leader, as far as its marks go. -/
theorem processOf_leader {tgid : Int} {g : TaskGroup} {leader : Task}
    (hg : g.leader = some leader) :
    (∀ info, processOf withCmdline read pageOffsetBase tgid g = .ok info →
      ∃ cmd path,
      askedCmdline withCmdline read pageOffsetBase leader = .ok cmd ∧
        leader.exePath = .ok path ∧
      info.pid = tgid ∧ info.error = if cmd.1 = [] ∧ path = []
        then some kernelThreadError
        else if cmd.2.getD [] ≠ [] then cmd.2 else none) ∧
    ∀ cmd path, askedCmdline withCmdline read pageOffsetBase leader = .ok cmd →
      leader.exePath = .ok path →
        ∃ info, processOf withCmdline read pageOffsetBase tgid g =
        .ok info := by
  unfold processOf askedCmdline
  rw [hg]
  constructor
  · intro info h
    obtain ⟨cmd, hcmd, h⟩ := Fallible.bind_eq_ok.mp h
    obtain ⟨path, hpath, h⟩ := Fallible.bind_eq_ok.mp h
    obtain rfl := Except.ok.inj h
    exact ⟨cmd, path, hcmd, hpath, rfl, rfl⟩
  · intro cmd path hcmd hpath
    exact ⟨_, Fallible.bind_eq_ok.mpr ⟨cmd, hcmd,
      Fallible.bind_eq_ok.mpr ⟨path, hpath, rfl⟩⟩⟩

theorem pid_processOf {tgid : Int} {g : TaskGroup} {info : ProcessInfo}
    (h : processOf withCmdline read pageOffsetBase tgid g = .ok info) :
    info.pid = tgid := by
  cases hg : g.leader with
  | none =>
      unfold processOf at h
      rw [hg] at h
      obtain rfl := Except.ok.inj h
      rfl
  | some leader =>
      obtain ⟨cmd, path, -, -, hpid, -⟩ := (processOf_leader hg).1 info h
      exact hpid

/-- The service goes by the words of the error. -/
theorem unselectable_iff (plug : Plugins) (rules : List TargetRule)
    (io : OrderedDict Int IoActivity) (info : ProcessInfo) :
    (listedEntry plug rules io info).unselectableReason =
      some kernelThreadReason ↔
      kernelThreadWords <:+: info.error.getD [] := by
  unfold listedEntry kernelThreadWords
  split
  case isTrue hwords => exact iff_of_true rfl hwords
  case isFalse hwords =>
    refine iff_of_false (fun h => ?_) hwords
    cases h

/-- What is asked for the command line, by the way `mm` is read. -/
theorem askedCmdline_eq_ok {leader : Task} {cmd : PyText × Option PyText} :
    askedCmdline withCmdline read pageOffsetBase leader = .ok cmd ↔
      (withCmdline = true → ∀ e, leader.mmForCmdline ≠ .faults e) ∧
      cmd = if withCmdline = true ∧ leader.mmForCmdline = .fetched then
          Telemetryd.cmdline leader.mm leader.accessProcessVm read
            pageOffsetBase
        else ([], none) := by
  unfold askedCmdline
  cases withCmdline with
  | false => simp [eq_comm]
  | true =>
      rw [if_pos rfl, Task.cmdline_cases]
      cases leader.mmForCmdline with
      | lost => simp [eq_comm]
      | faults e => simp
      | fetched => simp [eq_comm]

/-- What is known of the command line of a user process. -/
theorem askedCmdline_user {leader : Task} {mm : MmStruct}
    (hmm : leader.mm = some mm)
    {cmd : PyText × Option PyText}
    (h : askedCmdline withCmdline read pageOffsetBase leader = .ok cmd) :
    (cmd.1 ≠ [] ↔ withCmdline = true ∧
      leader.ArgumentsRead read pageOffsetBase mm) ∧
    ((∃ reason, cmd.2 = some reason ∧ kernelThreadWords <:+: reason) ↔
      withCmdline = true ∧ leader.Misleading read pageOffsetBase mm) ∧
    ∀ reason, cmd.2 = some reason → reason ≠ [] := by
  obtain ⟨-, hcmd⟩ := askedCmdline_eq_ok.mp h
  by_cases hasked : withCmdline = true ∧ leader.mmForCmdline = .fetched
  · rw [if_pos hasked, hmm] at hcmd
    rw [hcmd, Task.argumentsRead_iff hasked.2, Task.misleading_iff hasked.2]
    exact ⟨(and_iff_right hasked.1).symm, (and_iff_right hasked.1).symm,
      reason_ne_nil _ _ _ _⟩
  · rw [if_neg hasked] at hcmd
    rw [hcmd]
    refine ⟨iff_of_false (fun hne => hne rfl) ?_, iff_of_false ?_ ?_, ?_⟩
    · intro hread
      exact hasked ⟨hread.1, hread.2.1.1⟩
    · intro hreason
      obtain ⟨reason, heq, -⟩ := hreason
      cases heq
    · intro hwords
      exact hasked ⟨hwords.1, hwords.2.1.1⟩
    · intro reason heq
      cases heq

/-- The words are in the error, if there is one. -/
theorem words_error_iff (error : Option PyText) :
    kernelThreadWords <:+: error.getD [] ↔ ∃ reason, error = some reason ∧
      kernelThreadWords <:+: reason := by
  cases error with
  | none =>
      refine iff_of_false (by decide) (fun h => ?_)
      obtain ⟨reason, heq, -⟩ := h
      cases heq
  | some reason => simp

theorem words_kernelThreadError : kernelThreadWords <:+: kernelThreadError := by
  decide

/-- A process without a memory map gets the error of a kernel thread. -/
theorem error_kernel {tgid : Int} {g : TaskGroup} {leader : Task}
    (hg : g.leader = some leader)
    (hmm : leader.mm = none) {info : ProcessInfo}
    (hinfo : processOf withCmdline read pageOffsetBase tgid g = .ok info) :
    info.error = some kernelThreadError := by
  obtain ⟨cmd, path, hcmd, hpath, -, herror⟩ :=
    (processOf_leader hg).1 info hinfo
  obtain ⟨-, hvalue⟩ := askedCmdline_eq_ok.mp hcmd
  have hempty : cmd = ([], none) := by
    rw [hvalue, hmm]
    exact ite_self _
  have hnopath : path = [] := by
    by_contra hne
    exact ((Task.exePath_eq_ok hpath).2.2.mp hne).1 hmm
  rw [herror, hempty, hnopath]
  exact if_pos ⟨rfl, rfl⟩

/-- A user process gets the error of a kernel thread if neither its command line
nor its path is read; else its error is the reason for its command line. -/
theorem error_user {tgid : Int} {g : TaskGroup} {leader : Task}
    (hg : g.leader = some leader)
    {mm : MmStruct} (hmm : leader.mm = some mm) {info : ProcessInfo}
    (hinfo : processOf withCmdline read pageOffsetBase tgid g = .ok info) :
    ∃ cmd, askedCmdline withCmdline read pageOffsetBase leader = .ok cmd ∧
      (¬ ((withCmdline = true ∧ leader.ArgumentsRead read pageOffsetBase mm) ∨
        leader.PathRead) →
        info.error = some kernelThreadError) ∧
      ((withCmdline = true ∧ leader.ArgumentsRead read pageOffsetBase mm) ∨
        leader.PathRead →
        info.error = cmd.2) := by
  obtain ⟨cmd, path, hcmd, hpath, -, herror⟩ :=
    (processOf_leader hg).1 info hinfo
  obtain ⟨htext, -, hreason⟩ := askedCmdline_user hmm hcmd
  have hpathText : path ≠ [] ↔ leader.PathRead := by
    rw [(Task.exePath_eq_ok hpath).2.2]
    exact and_iff_right (by rw [hmm]; exact Option.some_ne_none mm)
  refine ⟨cmd, hcmd, ?_, ?_⟩
  · intro hnothing
    rw [← htext, ← hpathText] at hnothing
    rw [herror]
    exact if_pos ⟨not_not.mp fun h => hnothing (.inl h), not_not.mp fun h =>
      hnothing (.inr h)⟩
  · intro hread
    rw [← htext, ← hpathText] at hread
    rw [herror, if_neg (not_and_or.mpr hread)]
    cases hkept : cmd.2 with
    | none => rfl
    | some reason => exact if_pos (hreason reason hkept)

/-- A kernel thread is rightly marked if its NULL pointer was read. -/
theorem rightlyMarked_kernel_iff {plug : Plugins} {rules : List TargetRule}
    {io : OrderedDict Int IoActivity} {tgid : Int} {g : TaskGroup}
    {leader : Task}
    (hg : g.leader = some leader) (hmm : leader.mm = none) {info : ProcessInfo}
    (hinfo : processOf withCmdline read pageOffsetBase tgid g = .ok info) :
    RightlyMarked plug rules io withCmdline read pageOffsetBase leader info ↔
      leader.MmRead withCmdline := by
  have hkernel := error_kernel hg hmm hinfo
  constructor
  · intro hright
    exact (hright.marked.mp hkernel).1
  · intro hread
    refine ⟨iff_of_true hkernel ⟨hread, hmm⟩, ?_, fun hsome => absurd hmm hsome⟩
    rw [unselectable_iff, hkernel]
    exact iff_of_true words_kernelThreadError ⟨hread, hmm⟩

/-- A user process is rightly marked if its command line or its path is read and
no exception has the words for a kernel thread. -/
theorem rightlyMarked_user_iff {plug : Plugins} {rules : List TargetRule}
    {io : OrderedDict Int IoActivity} {tgid : Int} {g : TaskGroup}
    {leader : Task}
    (hg : g.leader = some leader) {mm : MmStruct} (hmm : leader.mm = some mm)
    {info : ProcessInfo}
    (hinfo : processOf withCmdline read pageOffsetBase tgid g = .ok info) :
    RightlyMarked plug rules io withCmdline read pageOffsetBase leader info ↔
      ((withCmdline = true ∧ leader.ArgumentsRead read pageOffsetBase mm) ∨
        leader.PathRead) ∧
        (withCmdline = true → ¬ leader.Misleading read pageOffsetBase mm) := by
  obtain ⟨cmd, hcmd, hnothing, hsomething⟩ := error_user hg hmm hinfo
  obtain ⟨-, hwords, -⟩ := askedCmdline_user hmm hcmd
  have huser : ¬ (leader.MmRead withCmdline ∧ leader.mm = none) := by
    rw [hmm]
    intro hnull
    cases hnull.2
  constructor
  · intro hright
    have hread :
        (withCmdline = true ∧ leader.ArgumentsRead read pageOffsetBase mm) ∨
        leader.PathRead := by
      by_contra hnot
      exact huser (hright.marked.mp (hnothing hnot))
    refine ⟨hread, fun hwith hmislead => huser (hright.unselectable.mp ?_)⟩
    rw [unselectable_iff, hsomething hread, words_error_iff]
    exact hwords.mpr ⟨hwith, hmislead⟩
  · intro htelling
    obtain ⟨hread, hplain⟩ := htelling
    have hnowords : ¬ kernelThreadWords <:+: info.error.getD [] := by
      rw [hsomething hread, words_error_iff, hwords]
      exact fun hboth => hplain hboth.1 hboth.2
    refine ⟨iff_of_false (fun hkernel => hnowords ?_) huser, ?_, ?_⟩
    · rw [hkernel]
      exact words_kernelThreadError
    · rw [unselectable_iff]
      exact iff_of_false hnowords huser
    · intro _ hwith reason hgiven
      have hasked : askedCmdline withCmdline read pageOffsetBase leader =
          .ok ([], some reason) := by
        unfold askedCmdline
        rw [if_pos hwith]
        exact hgiven
      obtain rfl := Except.ok.inj (hcmd.symm.trans hasked)
      exact hsomething hread

/-- **One leader.**  Its process is rightly marked if its reads are telling. -/
theorem rightlyMarked_iff {plug : Plugins} {rules : List TargetRule}
    {io : OrderedDict Int IoActivity} {tgid : Int} {g : TaskGroup}
    {leader : Task}
    (hg : g.leader = some leader) {info : ProcessInfo}
    (hinfo : processOf withCmdline read pageOffsetBase tgid g = .ok info) :
    RightlyMarked plug rules io withCmdline read pageOffsetBase leader info ↔
      leader.Telling withCmdline read pageOffsetBase := by
  obtain ⟨cmd, path, hcmd, hpath, -, -⟩ := (processOf_leader hg).1 info hinfo
  obtain ⟨hexe, hfile, -⟩ := Task.exePath_eq_ok hpath
  have hunfaulted : leader.Unfaulted withCmdline :=
    ⟨(askedCmdline_eq_ok.mp hcmd).1, hexe, hfile⟩
  cases hmm : leader.mm with
  | none =>
      rw [rightlyMarked_kernel_iff hg hmm hinfo]
      refine ⟨fun hread => ⟨hunfaulted, fun _ => hread, ?_⟩, fun htelling =>
        htelling.kernel hmm⟩
      intro mm hsome
      rw [hmm] at hsome
      cases hsome
  | some mm =>
      rw [rightlyMarked_user_iff hg hmm hinfo]
      refine ⟨fun hread => ⟨hunfaulted, ?_, ?_⟩, fun htelling =>
        htelling.user mm hmm⟩
      · intro hnone
        rw [hmm] at hnone
        cases hnone
      · intro mm' hsome
        obtain rfl := Option.some.inj (hmm.symm.trans hsome)
        exact hread

/-- A leader whose reads are telling does not stop the list. -/
theorem exists_processOf {tgid : Int} {g : TaskGroup}
    (h : ∀ leader, g.leader = some leader → leader.Unfaulted withCmdline) :
    ∃ info, processOf withCmdline read pageOffsetBase tgid g = .ok info := by
  cases hg : g.leader with
  | none =>
      unfold processOf
      rw [hg]
      exact ⟨_, rfl⟩
  | some leader =>
      have hunfaulted := h leader hg
      obtain ⟨path, hpath⟩ :=
        Task.exists_exePath hunfaulted.exe hunfaulted.exeFile
      exact (processOf_leader hg).2 _ path
        (askedCmdline_eq_ok.mpr ⟨hunfaulted.cmdline, rfl⟩) hpath

end

/-- **Are only kernel threads marked as kernel threads?**  The list is made and
marks every process with a leader rightly exactly if the reads of all leaders
are telling: nothing faults, a NULL pointer was read, and of a user process the
command line or the path is read, while no exception has the words for a kernel
thread. -/
theorem kernel_threads_marked_iff (plug : Plugins) (rules : List TargetRule)
    (io : OrderedDict Int IoActivity) (withCmdline : Bool) (read : PhysRead)
    (pageOffsetBase : Int)
    (tasks : List Task) :
    (∃ infos, kernelListProcesses withCmdline read pageOffsetBase tasks =
      .ok infos ∧
      ∀ tgid leader, leaderOf tasks tgid = some leader →
        ∃ info ∈ infos, info.pid = tgid ∧
        RightlyMarked plug rules io withCmdline read pageOffsetBase
          leader info) ↔
      ∀ tgid leader, leaderOf tasks tgid = some leader →
        leader.Telling withCmdline read pageOffsetBase := by
  have hlist :
      ∀ infos, kernelListProcesses withCmdline read pageOffsetBase tasks =
      .ok infos ↔
      ∃ out, (tasks.foldl addTask .empty).items.mapM
          (fun e => processOf withCmdline read pageOffsetBase e.1 e.2) =
            .ok out ∧
        out.insertionSort (fun a b => a.pid ≤ b.pid) = infos := by
    intro infos
    refine Fallible.bind_eq_ok.trans (exists_congr fun out =>
      and_congr Iff.rfl ?_)
    exact ⟨fun h => Except.ok.inj h, fun h => congrArg Except.ok h⟩
  constructor
  · intro hmarked tgid leader hleader
    obtain ⟨infos, hinfos, hright⟩ := hmarked
    obtain ⟨out, hout, rfl⟩ := (hlist infos).mp hinfos
    obtain ⟨info, hinfo, hpid, hright⟩ := hright tgid leader hleader
    obtain ⟨g, hg, hgleader⟩ := group_of_leader.mp hleader
    have hmem : info ∈ out := (List.perm_insertionSort _ out).mem_iff.mp hinfo
    obtain ⟨e, he, hprocess⟩ := Fallible.exists_of_mem_mapM hout hmem
    -- the groups have different numbers
    have hgroup : e = (tgid, g) := by
      have hkey : e.1 = tgid := (pid_processOf hprocess).symm.trans hpid
      exact List.inj_on_of_nodup_map (tasks.foldl addTask .empty).nodup
        he hg hkey
    rw [hgroup] at hprocess
    exact (rightlyMarked_iff hgleader hprocess).mp hright
  · intro htelling
    obtain ⟨out, hout⟩ := Fallible.exists_mapM_eq_ok
      (f := fun e : Int × TaskGroup =>
        processOf withCmdline read pageOffsetBase e.1 e.2)
      (l := (tasks.foldl addTask .empty).items) (by
        intro e he
        refine exists_processOf fun leader hleader => ?_
        exact (htelling e.1 leader
          (group_of_leader.mpr ⟨e.2, he, hleader⟩)).unfaulted)
    refine ⟨_, (hlist _).mpr ⟨out, hout, rfl⟩, ?_⟩
    intro tgid leader hleader
    obtain ⟨g, hg, hgleader⟩ := group_of_leader.mp hleader
    obtain ⟨info, hinfo, hprocess⟩ := Fallible.exists_of_mem hout hg
    refine ⟨info, (List.perm_insertionSort _ out).mem_iff.mpr hinfo,
      pid_processOf hprocess, ?_⟩
    exact (rightlyMarked_iff hgleader hprocess).mpr
      (htelling tgid leader hleader)

/-- A user process with arguments that were paged out and a program that has no
file any more. -/
def silentTask : Task where
  tgid := some 9
  pid := some 9
  comm := some (encode "worker".toList)
  mm := some ⟨4096, 8192, 0⟩
  mmForCmdline := .fetched
  mmForExe := .fetched
  accessProcessVm := fun _ _ => .ok none
  exeReading := .fetched
  exeFile := none
  startBoottime := some 1

/-- **A user process that is marked as a kernel thread.**  Its error does not
say that its memory could not be read. -/
theorem silent_process_marked :
    (kernelListProcesses true noMemory 0 [silentTask]).toOption.map
      (List.map (·.error))
      = some [some kernelThreadError] ∧
    silentTask.cmdline noMemory 0 = .ok ([], some "유저 메모리 읽기 실패(빈 결과)".toList) ∧
    silentTask.mm ≠ none ∧
    ¬ ∃ infos, kernelListProcesses true noMemory 0 [silentTask] = .ok infos ∧
      ∀ tgid leader, leaderOf [silentTask] tgid = some leader →
        ∃ info ∈ infos, info.pid = tgid ∧
        RightlyMarked plainPlugins [] .empty true noMemory 0 leader info := by
  have hlist :
      (kernelListProcesses true noMemory 0 [silentTask]).toOption.map
      (List.map (·.error))
      = some [some kernelThreadError] := by decide +kernel
  refine ⟨hlist, by rfl, by simp [silentTask], ?_⟩
  intro hmarked
  obtain ⟨infos, hinfos, hright⟩ := hmarked
  obtain ⟨info, hinfo, -, hone⟩ := hright 9 silentTask (by rfl)
  rw [hinfos] at hlist
  have herrors : infos.map (·.error) = [some kernelThreadError] :=
    Option.some.inj hlist
  have herror : info.error ∈ infos.map (·.error) := List.mem_map_of_mem hinfo
  rw [herrors, List.mem_singleton] at herror
  cases (hone.marked.mp herror).2

end Telemetryd
