import Telemetryd.BackendExecutor

/-!
# What the one worker promises

The work queue never holds more live jobs than there are clients connected, each
call that waits has its one job, and no job of a client that has left is begun.
Every job is begun in its turn: what can still come before it are the live jobs
that were in the queue already, however many calls arrive in the meantime.
-/

namespace Telemetryd

namespace Servicer

/-! ### The jobs and the calls -/

/-- The jobs that somebody waits for: those in the queue that are live, and the
one that runs if its call is still there. -/
def wantedJobs (s : Servicer) : List Job :=
  s.running.toList.filter (fun j => ∃ k ∈ s.calls, k.id = j.call ∧
    k.job = some j.number) ++
    s.queue.filter Job.live

/-- The jobs that are wanted are in the order of their numbers. -/
theorem Sound.sublist_jobs {s : Servicer} (hs : s.Sound) :
    (s.wantedJobs.map Job.number).Pairwise (· < ·) := by
  obtain ⟨-, hqueue, hacross⟩ := List.pairwise_append.mp hs.ordered
  rw [List.pairwise_map, wantedJobs, List.pairwise_append]
  refine ⟨?_, hqueue.sublist List.filter_sublist, ?_⟩
  · cases s.running with
    | none => exact .nil
    | some j => exact (List.pairwise_singleton _ j).sublist List.filter_sublist
  · intro i hi j hj
    have hrun := Option.mem_toList.mp (List.mem_of_mem_filter hi)
    exact hacross i (hs.begun i hrun) j (List.mem_of_mem_filter hj)

/-- Jobs with the same number are the same. -/
theorem Sound.job_eq {s : Servicer} (hs : s.Sound) {i j : Job}
    (hi : i ∈ s.started ++ s.queue)
    (hj : j ∈ s.started ++ s.queue) (h : i.number = j.number) : i = j := by
  refine List.inj_on_of_nodup_map (f := Job.number) ?_ hi hj h
  exact List.pairwise_map.mpr (hs.ordered.imp Nat.ne_of_lt)

/-- A job that is awaited has been begun or is in the queue. -/
theorem Sound.awaited_mem {s : Servicer} (hs : s.Sound) {k : Call}
    (hk : k ∈ s.calls) {n : Nat}
    (hn : k.job = some n) :
    ∃ j ∈ s.wantedJobs, j ∈ s.started ++ s.queue ∧ j.number = n ∧
      j.call = k.id := by
  obtain ⟨j, hj | hj, rfl, hc⟩ := hs.awaited k hk n hn
  · exact ⟨j, List.mem_append_right _ (List.mem_filter.mpr hj),
      List.mem_append_right _ hj.1,
      rfl, hc⟩
  · refine ⟨j, List.mem_append_left _ (List.mem_filter.mpr ⟨by simp [hj], ?_⟩),
      List.mem_append_left _ (hs.begun j hj), rfl, hc⟩
    exact decide_eq_true ⟨k, hk, hc.symm, hn⟩

/-- The jobs that somebody waits for are the jobs that the calls wait for, one
each. -/
theorem Sound.perm {s : Servicer} (hs : s.Sound) :
    (s.calls.filterMap Call.job).Perm (s.wantedJobs.map Job.number) := by
  refine (List.perm_ext_iff_of_nodup ?_ (hs.sublist_jobs.imp Nat.ne_of_lt)).mpr
    fun n => ?_
  · rw [List.nodup_iff_pairwise_ne, List.pairwise_filterMap]
    have hids := List.pairwise_map.mp (List.nodup_iff_pairwise_ne.mp hs.ids)
    refine hids.imp_of_mem fun {k k'} hk hk' hne n hn n' hn' heq => hne ?_
    obtain ⟨j, -, hj, hjn, hjc⟩ := hs.awaited_mem hk hn
    obtain ⟨j', -, hj', hjn', hjc'⟩ := hs.awaited_mem hk' hn'
    have := hs.job_eq hj hj' (hjn.trans (heq.trans hjn'.symm))
    rw [← hjc, ← hjc', this]
  · constructor
    · intro h
      obtain ⟨k, hk, hn⟩ := List.mem_filterMap.mp h
      obtain ⟨j, hj, -, hjn, -⟩ := hs.awaited_mem hk hn
      exact List.mem_map.mpr ⟨j, hj, hjn⟩
    · intro h
      obtain ⟨j, hj, rfl⟩ := List.mem_map.mp h
      rcases List.mem_append.mp hj with hj | hj
      · obtain ⟨k, hk, -, hjob⟩ := of_decide_eq_true (List.mem_filter.mp hj).2
        exact List.mem_filterMap.mpr ⟨k, hk, hjob⟩
      · obtain ⟨hj, hlive⟩ := List.mem_filter.mp hj
        obtain ⟨k, hk, -, hjob⟩ := hs.served j hj hlive
        exact List.mem_filterMap.mpr ⟨k, hk, hjob⟩

/-- The backlog is no longer than the list of clients. -/
theorem Sound.length_live {s : Servicer} (hs : s.Sound) :
    (s.queue.filter Job.live).length ≤ s.calls.length := by
  calc (s.queue.filter Job.live).length ≤
    (s.wantedJobs.map Job.number).length := by
        simp [wantedJobs]
    _ = (s.calls.filterMap Call.job).length := hs.perm.length_eq.symm
    _ ≤ s.calls.length := List.length_filterMap_le _ _

/-! ### What is begun -/

/-- A step begins no job, or the live job at the head of the queue. -/
theorem started_step (s : Servicer) (e : ServerEvent) :
    (s.step e).started = s.started ∨
      ∃ j ∈ s.queue, j.live ∧ (s.step e).started = s.started ++ [j] := by
  cases e with
  | take =>
      simp only [step, take]
      split
      · rename_i j rest _ hq
        split
        · exact .inl rfl
        · rename_i hc
          exact .inr ⟨j, by simp [hq], by simpa [Job.live] using hc, rfl⟩
      · exact .inl rfl
  | finish ok =>
      simp only [step, finish]
      split <;> exact .inl rfl
  | wake c =>
      simp only [step, wake]
      split <;> exact .inl rfl
  | receive stream => exact .inl rfl
  | leave c => exact .inl rfl

/-- What has been begun stays begun. -/
theorem started_foldl (s : Servicer) (es : List ServerEvent) :
    s.started <+: (es.foldl step s).started := by
  induction es generalizing s with
  | nil => exact List.prefix_rfl
  | cons e es ih =>
      refine List.IsPrefix.trans ?_ (ih (s.step e))
      rcases started_step s e with h | ⟨j, -, -, h⟩
      · exact h ▸ List.prefix_rfl
      · exact h ▸ List.prefix_append _ _

/-- The call was there and is over. -/
def Gone (c : Nat) (s : Servicer) : Prop :=
  c < s.opened ∧ c ∉ s.calls.map Call.id

/-- Submitting a job changes no call's number. -/
theorem ids_run (c : Nat) (s : Servicer) :
    (s.run c).calls.map Call.id = s.calls.map Call.id := by
  simp only [run, List.map_map]
  refine List.map_congr_left fun x _ => ?_
  simp only [Function.comp_apply]
  split <;> rfl

/-- A call that is gone does not come back. -/
theorem gone_step {c : Nat} {s : Servicer} (hg : s.Gone c) (e : ServerEvent) :
    (s.step e).Gone c := by
  obtain ⟨hlt, hno⟩ := hg
  cases e with
  | receive stream =>
      refine ⟨Nat.lt_succ_of_lt hlt, ?_⟩
      rw [step, receive, ids_run]
      simp only [List.map_append, List.mem_append, not_or]
      exact ⟨hno, by simpa using Nat.ne_of_lt hlt⟩
  | take =>
      simp only [step, take]
      split
      · split <;> exact ⟨hlt, hno⟩
      · exact ⟨hlt, hno⟩
  | finish ok =>
      simp only [step, finish]
      split
      · exact ⟨hlt, hno⟩
      · exact ⟨hlt, fun h => hno ((ids_resume _ ok s.calls).subset h)⟩
  | wake c' =>
      simp only [step, wake]
      split
      · exact ⟨hlt, (ids_run c' s).symm ▸ hno⟩
      · exact ⟨hlt, hno⟩
  | leave c' => exact ⟨hlt, fun h => hno ((List.filter_sublist.map _).subset h)⟩

/-- A job that is begun is not of a call that is over. -/
theorem not_gone_of_live {c : Nat} {s : Servicer} (hs : s.Sound) (hg : s.Gone c)
    {j : Job}
    (hj : j ∈ s.queue) (hlive : j.live) : j.call ≠ c := by
  rintro rfl
  obtain ⟨k, hk, hid, -⟩ := hs.served j hj hlive
  exact hg.2 (List.mem_map.mpr ⟨k, hk, hid⟩)

/-- No job of a call that is gone is begun. -/
theorem begun_of_gone {c : Nat} {s : Servicer} (hs : s.Sound) (hg : s.Gone c)
    (es : List ServerEvent) :
    ∃ l, (es.foldl step s).started = s.started ++ l ∧ ∀ j ∈ l, j.call ≠ c := by
  induction es generalizing s with
  | nil => exact ⟨[], by simp, by simp⟩
  | cons e es ih =>
      obtain ⟨l, hl, hno⟩ := ih (sound_step hs e) (gone_step hg e)
      rw [List.foldl_cons, hl]
      rcases started_step s e with h | ⟨j, hj, hlive, h⟩
      · exact ⟨l, by rw [h], hno⟩
      · refine ⟨j :: l, by rw [h, List.append_assoc, List.singleton_append], ?_⟩
        rintro i hi
        rcases List.mem_cons.mp hi with rfl | hi
        · exact not_gone_of_live hs hg hj hlive
        · exact hno i hi

/-- At every moment the jobs that are live are those that the calls await, one
for each call that waits.  The backend sees the jobs in the order in which they
were submitted, none of them twice, and after a client has left, no further job
of it. -/
theorem jobs_of_calls (es : List ServerEvent) :
    ((after es).calls.filterMap Call.job).Perm
      ((after es).wantedJobs.map Job.number) ∧
    (after es).started.Pairwise (fun i j => i.number < j.number) ∧
    ∀ c, (after es).Gone c → ∀ fs, ∃ l,
      (after (es ++ fs)).started = (after es).started ++ l ∧
        ∀ j ∈ l, j.call ≠ c := by
  have hs := sound_after es
  refine ⟨hs.perm, (List.pairwise_append.mp hs.ordered).1, fun c hg fs => ?_⟩
  rw [after, List.foldl_append]
  exact begun_of_gone hs hg fs

/-! ### Waiting -/

/-- The number of live jobs in the queue before number `n`. -/
def ahead (n : Nat) (s : Servicer) : Nat :=
  (s.queue.filter fun i => i.live && decide (i.number < n)).length

/-- A step of which the client is not the one that waits begins its job, or
leaves it in the queue with no more jobs to be begun before it. -/
theorem ahead_step {s : Servicer} (hs : s.Sound) {j : Job} (hj : j ∈ s.queue)
    (hlive : j.live)
    {e : ServerEvent} (he : e ≠ .leave j.call) :
    j ∈ (s.step e).started ∨
      j ∈ (s.step e).queue ∧
        (s.step e).ahead j.number + (s.step e).started.length ≤
        s.ahead j.number + s.started.length := by
  have run_ahead {t : Servicer} (c : Nat) (hq : t.queue = s.queue)
      (hjobs : t.jobs = s.jobs)
      (hst : t.started = s.started) :
      j ∈ (t.run c).queue ∧
        (t.run c).ahead j.number + (t.run c).started.length ≤
        s.ahead j.number + s.started.length := by
    have hlt : j.number < s.jobs := hs.numbered j (List.mem_append_right _ hj)
    refine ⟨List.mem_append_left _ (hq ▸ hj), ?_⟩
    have hge : decide (s.jobs < j.number) = false :=
      decide_eq_false (Nat.lt_asymm hlt)
    simp [ahead, run, hq, hjobs, hst, List.filter_append, hge]
  cases e with
  | receive stream => exact .inr (run_ahead _ rfl rfl rfl)
  | wake c =>
      simp only [step, wake]
      split
      · exact .inr (run_ahead c rfl rfl rfl)
      · exact .inr ⟨hj, Nat.le_refl _⟩
  | finish ok =>
      simp only [step, finish]
      split <;> exact .inr ⟨hj, Nat.le_refl _⟩
  | leave c =>
      have hne : j.call ≠ c := fun h => he (by rw [h])
      refine .inr ⟨List.mem_map.mpr ⟨j, hj, if_neg hne⟩,
        Nat.add_le_add_right ?_ _⟩
      simp only [step, leave, ahead, List.filter_map, List.length_map]
      refine (List.monotone_filter_right _ fun i hi => ?_).length_le
      simp only [Function.comp_apply, live_cancel, number_cancel,
        Bool.and_eq_true] at hi ⊢
      exact ⟨hi.1.1, hi.2⟩
  | take =>
      simp only [step, take]
      split
      · rename_i i rest _ hq
        have hord : ∀ i' ∈ rest, i.number < i'.number := by
          have := (List.pairwise_append.mp hs.ordered).2.1
          rw [hq] at this
          exact (List.pairwise_cons.mp this).1
        rcases List.mem_cons.mp (hq ▸ hj) with rfl | hrest
        · have hc : ¬ j.cancelled = true := by simpa [Job.live] using hlive
          rw [if_neg hc]
          exact .inl (by simp)
        · have hahead : s.ahead j.number = (if i.live then 1 else 0) +
              (rest.filter fun i =>
                i.live && decide (i.number < j.number)).length := by
            simp only [ahead, hq, List.filter_cons, hord j hrest, decide_true,
              Bool.and_true]
            split <;> simp [Nat.add_comm]
          split
          · refine .inr ⟨hrest, ?_⟩
            rw [hahead]
            exact Nat.add_le_add_right (Nat.le_add_left _ _) _
          · rename_i hc
            refine .inr ⟨hrest, ?_⟩
            rw [hahead, if_pos (by simpa [Job.live] using hc),
              List.length_append,
              List.length_singleton]
            change (rest.filter _).length + _ ≤ _
            omega
      · exact .inr ⟨hj, Nat.le_refl _⟩

/-- A live job whose client stays is begun or keeps its place. -/
theorem ahead_foldl {s : Servicer} (hs : s.Sound) {j : Job} (hj : j ∈ s.queue)
    (hlive : j.live)
    {es : List ServerEvent} (hstay : .leave j.call ∉ es) :
    j ∈ (es.foldl step s).started ∨
      j ∈ (es.foldl step s).queue ∧
        (es.foldl step s).ahead j.number + (es.foldl step s).started.length ≤
          s.ahead j.number + s.started.length := by
  induction es generalizing s with
  | nil => exact .inr ⟨hj, Nat.le_refl _⟩
  | cons e es ih =>
      obtain ⟨hne, hrest⟩ := not_or.mp (mt List.mem_cons.mpr hstay)
      rcases ahead_step hs hj hlive (Ne.symm hne) with h | ⟨hj', hle⟩
      · exact .inl ((started_foldl (s.step e) es).subset h)
      · rcases ih (sound_step hs e) hj' hrest with h | ⟨hq, hle'⟩
        · exact .inl h
        · exact .inr ⟨hq, Nat.le_trans hle' hle⟩

/-- Fewer jobs are ahead of a live one than there are calls. -/
theorem Sound.ahead_lt {s : Servicer} (hs : s.Sound) {j : Job}
    (hj : j ∈ s.queue)
    (hlive : j.live) : s.ahead j.number < s.calls.length := by
  refine Nat.lt_of_lt_of_le ?_ hs.length_live
  have hand : (fun i : Job => i.live && decide (i.number < j.number)) =
      fun i => decide (i.number < j.number) && i.live :=
        funext fun _ => Bool.and_comm _ _
  rw [ahead, hand, ← List.filter_filter]
  refine List.length_filter_lt_length_iff_exists.mpr ⟨j,
    List.mem_filter.mpr ⟨hj, hlive⟩, ?_⟩
  simp

/-- Nobody waits for ever: while its client stays, a job in the queue is not
overtaken, which means that every job begun so far was submitted before it, and
before it is begun there are fewer jobs begun than clients connected when it was
seen in the queue, whatever else arrives. -/
theorem bounded_waiting (es fs : List ServerEvent) (j : Job)
    (hj : j ∈ (after es).queue)
    (hlive : j.live) (hstay : .leave j.call ∉ fs) :
    j ∈ (after (es ++ fs)).started ∨
      j ∈ (after (es ++ fs)).queue ∧
        (∀ i ∈ (after (es ++ fs)).started, i.number < j.number) ∧
        (after (es ++ fs)).started.length <
          (after es).started.length + (after es).calls.length := by
  have hs := sound_after es
  have hs' := sound_after (es ++ fs)
  have hfold : after (es ++ fs) = fs.foldl step (after es) := List.foldl_append
  rw [hfold] at hs' ⊢
  rcases ahead_foldl hs hj hlive hstay with h | ⟨hq, hle⟩
  · exact .inl h
  · obtain ⟨-, -, hacross⟩ := List.pairwise_append.mp hs'.ordered
    refine .inr ⟨hq, fun i hi => hacross i hi j hq, ?_⟩
    have := hs.ahead_lt hj hlive
    omega

/-- A snapshot that is asked for while a stream is being served. -/
theorem bounded_waiting_second :
    let es := [ServerEvent.receive true, .receive false]
    let fs := [ServerEvent.take, .finish true, .wake 0]
    (⟨1, 1, false⟩ : Job) ∈ (after (es ++ fs)).started ∨
      ⟨1, 1, false⟩ ∈ (after (es ++ fs)).queue ∧
        (∀ i ∈ (after (es ++ fs)).started, i.number < 1) ∧
        (after (es ++ fs)).started.length <
          (after es).started.length + (after es).calls.length :=
  bounded_waiting [.receive true,
    .receive false] [.take, .finish true, .wake 0] ⟨1, 1, false⟩
    (by decide) rfl (by decide)

end Servicer

end Telemetryd
