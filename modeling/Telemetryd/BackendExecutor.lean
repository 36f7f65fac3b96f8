import Telemetryd.Lib.Runs
import Mathlib.Data.List.Basic
import Mathlib.Data.List.Nodup
import Mathlib.Data.List.Pairwise
import Mathlib.Data.List.Perm.Basic

/-!
# The one worker of the backend

The gRPC server serves many calls at a time on its event loop, but drgn and QMP
stand only one user.  `_run` hands the backend calls that need them (devices,
snapshots, entries, PRP payloads, tree nodes, topology, processes and profiles)
to an executor with a single worker and awaits the result.  The other calls,
such as `GetPerformance`, `GetEvents`, `GetErrorStats` and those for the
targets, read files or memory on the event loop itself; they are no part of this
model. A client that goes away cancels its handler: a job that has not begun is
then skipped, one that has begun runs on and its result is thrown away.

A unary handler submits one job.  A stream submits a job, sends the result,
sleeps and submits the next, until its client leaves or a job fails.
-/

namespace Telemetryd

/-- A job of the executor, with the call that awaits it.  `cancelled` is the
state of its future. -/
structure Job where
  number : Nat
  call : Nat
  cancelled : Bool
  deriving DecidableEq

/-- A call that is being handled: the job that it awaits, or none while the
stream sends and sleeps. -/
structure Call where
  id : Nat
  stream : Bool
  job : Option Nat
  deriving DecidableEq

/-- `TelemetrydServicer` with its executor.  `jobs` and `opened` count the jobs
and the calls so far, `queue` is the work queue of the executor, and `started`
the jobs that the worker has begun, which is what the backend has seen. -/
structure Servicer where
  jobs : Nat
  opened : Nat
  queue : List Job
  running : Option Job
  calls : List Call
  started : List Job

/-- The server when it has been started. -/
def Servicer.initial : Servicer := ⟨0, 0, [], none, [], []⟩

namespace Servicer

/-- `_run` up to its `await`, in the handler of call `c`. -/
def run (c : Nat) (s : Servicer) : Servicer :=
  { s with
    jobs := s.jobs + 1
    queue := s.queue ++ [⟨s.jobs, c, false⟩]
    calls := s.calls.map fun k => if k.id = c then { k with job := some s.jobs }
      else k }

/-- A call arrives and its handler begins. -/
def receive (stream : Bool) (s : Servicer) : Servicer :=
  run s.opened { s with
    opened := s.opened + 1
    calls := s.calls ++ [⟨s.opened, stream, none⟩] }

/-- The worker takes the next job from the queue, if it is free.  A job whose
future has been cancelled is dropped. -/
def take (s : Servicer) : Servicer :=
  match s.running, s.queue with
  | none, j :: rest =>
      if j.cancelled then { s with queue := rest }
      else { s with queue := rest, running := some j, started := s.started ++ [j] }
  | _, _ => s

/-- What becomes of the call whose job is done: a stream goes on if the job has
not failed. -/
def resume (j : Job) (ok : Bool) (k : Call) : Option Call :=
  if k.id = j.call ∧ k.job = some j.number then
    if k.stream ∧ ok then some { k with job := none } else none
  else some k

/-- The job that is running ends. -/
def finish (ok : Bool) (s : Servicer) : Servicer :=
  match s.running with
  | none => s
  | some j =>
      { s with running := none, calls := s.calls.filterMap (resume j ok) }

/-- A stream has sent what it got and has slept. -/
def wake (c : Nat) (s : Servicer) : Servicer :=
  if ∃ k ∈ s.calls, k.id = c ∧ k.job = none then s.run c else s

/-- The future of a job of call `c` is cancelled. -/
def cancel (c : Nat) (j : Job) : Job :=
  if j.call = c then { j with cancelled := true } else j

/-- The client of call `c` goes away, which cancels the handler and with it the
future that it awaits. -/
def leave (c : Nat) (s : Servicer) : Servicer :=
  { s with
    calls := s.calls.filter (·.id ≠ c)
    queue := s.queue.map (cancel c) }

end Servicer

/-- What happens to the server. -/
inductive ServerEvent where
  | receive (stream : Bool)
  | take
  | finish (ok : Bool)
  | wake (c : Nat)
  | leave (c : Nat)
  deriving DecidableEq

/-- One event at the server. -/
def Servicer.step (s : Servicer) : ServerEvent → Servicer
  | .receive stream => s.receive stream
  | .take => s.take
  | .finish ok => s.finish ok
  | .wake c => s.wake c
  | .leave c => s.leave c

/-- The worker will not drop the job. -/
def Job.live (j : Job) : Bool := !j.cancelled

namespace Servicer

/-! ### What every run keeps -/

/-- Calls and jobs are numbered in the order in which they came, the worker
takes the jobs in that order, and the live jobs are those that the calls
await. -/
structure Sound (s : Servicer) : Prop where
  ids : (s.calls.map Call.id).Nodup
  opened : ∀ k ∈ s.calls, k.id < s.opened
  ordered : (s.started ++ s.queue).Pairwise fun i j => i.number < j.number
  numbered : ∀ j ∈ s.started ++ s.queue, j.number < s.jobs
  begun : ∀ j, s.running = some j → j ∈ s.started
  served : ∀ j ∈ s.queue, j.live → ∃ k ∈ s.calls, k.id = j.call ∧
    k.job = some j.number
  awaited : ∀ k ∈ s.calls, ∀ n, k.job = some n →
    ∃ j, (j ∈ s.queue ∧ j.live ∨ s.running = some j) ∧ j.number = n ∧
      j.call = k.id

/-- A server that has just started is sound. -/
theorem sound_initial : initial.Sound := by
  constructor <;> simp [initial]

/-- Calls with the same id are the same. -/
theorem Sound.call_eq {s : Servicer} (hs : s.Sound) {k k' : Call}
    (hk : k ∈ s.calls)
    (hk' : k' ∈ s.calls) (h : k.id = k'.id) : k = k' :=
  List.inj_on_of_nodup_map hs.ids hk hk' h

/-- A call that awaits nothing submits a job. -/
theorem sound_run {s : Servicer} (hs : s.Sound) {c : Nat} {k : Call}
    (hk : k ∈ s.calls)
    (hid : k.id = c) (hjob : k.job = none) : (s.run c).Sound := by
  have hids : (s.run c).calls.map Call.id = s.calls.map Call.id := by
    simp only [run, List.map_map]
    refine List.map_congr_left fun x _ => ?_
    simp only [Function.comp_apply]
    split <;> rfl
  -- the other calls are as before
  have hother : ∀ x ∈ s.calls, x.id ≠ c → x ∈ (s.run c).calls := by
    intro x hx hne
    exact List.mem_map.mpr ⟨x, hx, if_neg hne⟩
  constructor
  · exact hids ▸ hs.ids
  · intro x hx
    obtain ⟨y, hy, rfl⟩ := List.mem_map.mp hx
    have := hs.opened y hy
    split <;> exact this
  · change (s.started ++ (s.queue ++ [_])).Pairwise _
    rw [← List.append_assoc, List.pairwise_append]
    refine ⟨hs.ordered, List.pairwise_singleton _ _, ?_⟩
    intro i hi j hj
    rw [List.mem_singleton.mp hj]
    exact hs.numbered i hi
  · intro j hj
    change j ∈ s.started ++ (s.queue ++ [_]) at hj
    rw [← List.append_assoc] at hj
    rcases List.mem_append.mp hj with hj | hj
    · exact Nat.lt_succ_of_lt (hs.numbered j hj)
    · rw [List.mem_singleton.mp hj]
      exact Nat.lt_succ_self _
  · exact hs.begun
  · intro j hj hlive
    rcases List.mem_append.mp hj with hj | hj
    · obtain ⟨x, hx, hxid, hxjob⟩ := hs.served j hj hlive
      refine ⟨x, hother x hx fun h => ?_, hxid, hxjob⟩
      have := hs.call_eq hx hk (h.trans hid.symm)
      rw [this, hjob] at hxjob
      cases hxjob
    · obtain rfl := List.mem_singleton.mp hj
      exact ⟨{ k with job := some s.jobs },
        List.mem_map.mpr ⟨k, hk, if_pos hid⟩, hid, rfl⟩
  · intro x hx n hn
    obtain ⟨y, hy, rfl⟩ := List.mem_map.mp hx
    split at hn
    · rename_i hyc
      rw [if_pos hyc]
      exact ⟨⟨s.jobs, c, false⟩, .inl ⟨by simp [run], rfl⟩, Option.some.inj hn,
        hyc.symm⟩
    · rename_i hyc
      rw [if_neg hyc]
      obtain ⟨j, hj, hjn⟩ := hs.awaited y hy n hn
      exact ⟨j, hj.imp_left fun h => ⟨List.mem_append_left _ h.1, h.2⟩, hjn⟩

/-- A call that comes in submits a job with a new number. -/
theorem sound_receive {s : Servicer} (hs : s.Sound) (stream : Bool) :
    (s.receive stream).Sound := by
  have hnew : ∀ k ∈ s.calls, k.id ≠ s.opened :=
    fun k hk => Nat.ne_of_lt (hs.opened k hk)
  refine sound_run (k := ⟨s.opened, stream, none⟩) ?_ (by simp) rfl rfl
  constructor
  · rw [List.map_append, List.nodup_append]
    refine ⟨hs.ids, by simp, ?_⟩
    rintro _ hi _ hj rfl
    obtain ⟨k, hk, rfl⟩ := List.mem_map.mp hi
    exact hnew k hk (by simpa using hj)
  · intro k hk
    rcases List.mem_append.mp hk with hk | hk
    · exact Nat.lt_succ_of_lt (hs.opened k hk)
    · rw [List.mem_singleton.mp hk]
      exact Nat.lt_succ_self _
  · exact hs.ordered
  · exact hs.numbered
  · exact hs.begun
  · intro j hj hlive
    obtain ⟨k, hk, h⟩ := hs.served j hj hlive
    exact ⟨k, List.mem_append_left _ hk, h⟩
  · intro k hk n hn
    rcases List.mem_append.mp hk with hk | hk
    · exact hs.awaited k hk n hn
    · rw [List.mem_singleton.mp hk] at hn
      cases hn

/-- The worker takes the first job of the queue. -/
theorem sound_take {s : Servicer} (hs : s.Sound) : s.take.Sound := by
  unfold take
  split
  · rename_i j rest hrun hq
    have hord := hs.ordered
    rw [hq] at hord
    split
    · rename_i hc
      have hsub : (s.started ++ rest).Sublist (s.started ++ s.queue) := by
        rw [hq]
        exact (List.sublist_cons_self _ _).append_left _
      refine ⟨hs.ids, hs.opened, hs.ordered.sublist hsub, fun i hi =>
        hs.numbered i (hsub.subset hi),
        hs.begun, fun i hi => hs.served i (hq ▸ List.mem_cons_of_mem _ hi), ?_⟩
      intro k hk n hn
      obtain ⟨i, hi, hin⟩ := hs.awaited k hk n hn
      refine ⟨i, hi.imp_left fun h => ⟨?_, h.2⟩, hin⟩
      rcases List.mem_cons.mp (hq ▸ h.1) with rfl | hrest
      · simp [Job.live, hc] at h
      · exact hrest
    · have heq : s.started ++ [j] ++ rest = s.started ++ s.queue := by
        rw [hq, List.append_assoc, List.singleton_append]
      refine ⟨hs.ids, hs.opened, heq ▸ hs.ordered, fun i hi => hs.numbered i (heq ▸ hi), ?_,
        fun i hi => hs.served i (hq ▸ List.mem_cons_of_mem _ hi), ?_⟩
      · intro i hi
        obtain rfl := Option.some.inj hi
        simp
      · intro k hk n hn
        obtain ⟨i, hi, hin⟩ := hs.awaited k hk n hn
        refine ⟨i, ?_, hin⟩
        rcases hi with ⟨hi, hlive⟩ | hi
        · rcases List.mem_cons.mp (hq ▸ hi) with rfl | hrest
          · exact .inr rfl
          · exact .inl ⟨hrest, hlive⟩
        · rw [hrun] at hi
          cases hi
  · exact hs

/-- A call that goes on is the one it was. -/
theorem resume_eq_some {j : Job} {ok : Bool} {k k' : Call}
    (h : resume j ok k = some k') :
    k'.id = k.id ∧
      (k'.job = none ∨ k' = k ∧ ¬ (k.id = j.call ∧ k.job = some j.number)) := by
  unfold resume at h
  split at h
  · split at h
    · obtain rfl := Option.some.inj h
      exact ⟨rfl, .inl rfl⟩
    · cases h
  · rename_i hno
    obtain rfl := Option.some.inj h
    exact ⟨rfl, .inr ⟨rfl, hno⟩⟩

/-- The calls that go on were there before. -/
theorem ids_resume (j : Job) (ok : Bool) (ks : List Call) :
    ((ks.filterMap (resume j ok)).map Call.id).Sublist (ks.map Call.id) := by
  induction ks with
  | nil => exact .slnil
  | cons k ks ih =>
      cases h : resume j ok k with
      | none =>
          rw [List.filterMap_cons_none h]
          exact ih.cons _
      | some k' =>
          rw [List.filterMap_cons_some h, List.map_cons, List.map_cons,
            (resume_eq_some h).1]
          exact ih.cons_cons _

/-- A job that is done wakes the call that awaits it. -/
theorem sound_finish {s : Servicer} (hs : s.Sound) (ok : Bool) :
    (s.finish ok).Sound := by
  unfold finish
  split
  · exact hs
  · rename_i j hrun
    have hlt : ∀ i ∈ s.queue, j.number < i.number := fun i hi =>
      (List.pairwise_append.mp hs.ordered).2.2 j (hs.begun j hrun) i hi
    refine ⟨hs.ids.sublist (ids_resume j ok s.calls), ?_, hs.ordered,
      hs.numbered,
      (fun i hi => nomatch hi), ?_, ?_⟩
    · intro k' hk'
      obtain ⟨k, hk, h⟩ := List.mem_filterMap.mp hk'
      exact (resume_eq_some h).1 ▸ hs.opened k hk
    · intro i hi hlive
      obtain ⟨k, hk, hid, hjob⟩ := hs.served i hi hlive
      refine ⟨k, List.mem_filterMap.mpr ⟨k, hk, if_neg fun h => ?_⟩, hid, hjob⟩
      have : i.number = j.number := Option.some.inj (hjob.symm.trans h.2)
      exact absurd (hlt i hi) (this ▸ Nat.lt_irrefl _)
    · intro k' hk' n hn
      obtain ⟨k, hk, h⟩ := List.mem_filterMap.mp hk'
      rcases (resume_eq_some h).2 with hnone | ⟨rfl, hno⟩
      · rw [hnone] at hn
        cases hn
      · obtain ⟨i, hi | hi, hin, hic⟩ := hs.awaited k' hk n hn
        · exact ⟨i, .inl hi, hin, hic⟩
        · obtain rfl := Option.some.inj (hrun.symm.trans hi)
          exact absurd ⟨hic.symm, hin ▸ hn⟩ hno

/-- A stream that wakes submits its next job. -/
theorem sound_wake {s : Servicer} (hs : s.Sound) (c : Nat) :
    (s.wake c).Sound := by
  unfold wake
  split
  · rename_i h
    obtain ⟨k, hk, hid, hjob⟩ := h
    exact sound_run hs hk hid hjob
  · exact hs

/-- A cancelled job keeps its number. -/
@[simp] theorem number_cancel (c : Nat) (j : Job) :
    (cancel c j).number = j.number := by
  unfold cancel
  split <;> rfl

/-- It keeps its call, too. -/
@[simp] theorem call_cancel (c : Nat) (j : Job) :
    (cancel c j).call = j.call := by
  unfold cancel
  split <;> rfl

/-- The jobs of a call that leaves are no longer live, the others are as they
were. -/
theorem live_cancel (c : Nat) (j : Job) :
    (cancel c j).live = (j.live && j.call ≠ c) := by
  unfold cancel Job.live
  split <;> simp_all

/-- A client that leaves has its jobs cancelled. -/
theorem sound_leave {s : Servicer} (hs : s.Sound) (c : Nat) :
    (s.leave c).Sound := by
  obtain ⟨hstarted, hqueue, hacross⟩ := List.pairwise_append.mp hs.ordered
  refine ⟨hs.ids.sublist (List.filter_sublist.map _),
    fun k hk => hs.opened k (List.mem_of_mem_filter hk), ?_, ?_,
    hs.begun, ?_, ?_⟩
  · refine List.pairwise_append.mpr ⟨hstarted, ?_, ?_⟩
    · exact List.pairwise_map.mpr (by simpa using hqueue)
    · intro i hi j' hj'
      obtain ⟨j, hj, rfl⟩ := List.mem_map.mp hj'
      simpa using hacross i hi j hj
  · intro i hi
    rcases List.mem_append.mp hi with hi | hi
    · exact hs.numbered i (List.mem_append_left _ hi)
    · obtain ⟨j, hj, rfl⟩ := List.mem_map.mp hi
      rw [number_cancel]
      exact hs.numbered j (List.mem_append_right _ hj)
  · intro i hi hlive
    obtain ⟨j, hj, rfl⟩ := List.mem_map.mp hi
    rw [live_cancel, Bool.and_eq_true, decide_eq_true_eq] at hlive
    obtain ⟨k, hk, hid, hjob⟩ := hs.served j hj hlive.1
    refine ⟨k, List.mem_filter.mpr
      ⟨hk, ?_⟩, by simpa using hid, by simpa using hjob⟩
    simpa [hid] using hlive.2
  · intro k hk n hn
    obtain ⟨hk, hne⟩ := List.mem_filter.mp hk
    obtain ⟨i, hi, hin, hic⟩ := hs.awaited k hk n hn
    have hne : i.call ≠ c := by simpa [hic] using hne
    have hsame : cancel c i = i := if_neg hne
    refine ⟨i, hi.imp_left fun h => ⟨?_, h.2⟩, hin, hic⟩
    exact List.mem_map.mpr ⟨i, h.1, hsame⟩

/-- **One event** keeps the server sound. -/
theorem sound_step {s : Servicer} (hs : s.Sound) (e : ServerEvent) :
    (s.step e).Sound := by
  cases e with
  | receive stream => exact sound_receive hs stream
  | take => exact sound_take hs
  | finish ok => exact sound_finish hs ok
  | wake c => exact sound_wake hs c
  | leave c => exact sound_leave hs c

/-- The server after a run of events. -/
def after (es : List ServerEvent) : Servicer := es.foldl step initial

/-- The server is sound after all events. -/
theorem sound_after (es : List ServerEvent) : (after es).Sound := by
  have h : Runs.Always step Sound initial es :=
    Runs.always_of_step (fun _ h => h) (fun _ e hs =>
      sound_step hs e) es sound_initial
  exact h.last

end Servicer

end Telemetryd
