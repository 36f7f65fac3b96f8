import Telemetryd.AdaptiveCache

/-!
# The share of the worker

All queries run on one worker.  The cache is there so that an expensive query
never takes more than its share of it: after a compute of duration `d` its key
rests for `max(min_ttl, f * d)`, so at most one part in `1 + f` of the time is
spent computing.  That holds of computes that return.  One that raises leaves
no entry, and the next call on its key computes again at once; the share is
then kept only if the callers hold off by themselves.
-/

namespace Telemetryd

variable {κ α ε : Type*} [DecidableEq κ]

open AdaptiveTtlCache

/-- The entry a compute leaves. -/
def CacheCall.entry (minTtl f : ℚ) (call : CacheCall κ α ε) :
    Option (CacheEntry α) :=
  match call.compute with
  | .ok value => some ⟨call.finished, value, call.cooldown minTtl f⟩
  | .error _ => none

/-- **The entry of a key** is that of its latest compute, if its computes
succeed. -/
theorem get?_runCalls {c : AdaptiveTtlCache κ α}
    {calls : List (CacheCall κ α ε)} {key : κ}
    (hok : ∀ call ∈ computesOf key c calls, ∃ value, call.compute = .ok value) :
    (runCalls c calls).entries.get? key =
      match (computesOf key c calls).getLast? with
      | some last => last.entry c.minTtl c.durationFactor
      | none => c.entries.get? key := by
  induction calls generalizing c with
  | nil => rfl
  | cons call rest ih =>
      have hrun : runCalls c (call :: rest) =
        runCalls (c.getOrCompute call).1 rest := rfl
      by_cases hmiss : call.key = key ∧ c.hit call.key call.now = none
      case pos =>
        obtain ⟨rfl, hhit⟩ := hmiss
        rw [computesOf_of_miss hhit] at hok ⊢
        obtain ⟨value, hv⟩ := hok call List.mem_cons_self
        have htail :=
          ih (c := (c.getOrCompute call).1) (fun b hb =>
          hok b (List.mem_cons_of_mem _ hb))
        rw [hrun, htail, minTtl_getOrCompute, durationFactor_getOrCompute]
        cases hl : (computesOf call.key (c.getOrCompute call).1 rest).getLast?
          with
        | none =>
            have hnil := List.getLast?_eq_none_iff.mp hl
            rw [hnil]
            simp only [List.getLast?_singleton, CacheCall.entry, hv]
            rw [get?_getOrCompute_of_ok hhit hv, AdaptiveTtlCache.ttl,
              CacheCall.cooldown, mul_comm]
        | some last => simp [List.getLast?_cons, hl]
      case neg =>
        have hcomps : computesOf key c (call :: rest)
            = computesOf key (c.getOrCompute call).1 rest := by
          by_cases hkey : call.key = key
          · obtain ⟨value, hhit⟩ := Option.ne_none_iff_exists'.mp fun hnone =>
              hmiss ⟨hkey, hnone⟩
            exact computesOf_of_hit hhit
          · exact computesOf_of_ne hkey
        have hsame : (c.getOrCompute call).1.entries.get? key =
            c.entries.get? key := by
          by_cases hkey : call.key = key
          · subst hkey
            cases hhit : c.hit call.key call.now with
            | none => exact absurd ⟨rfl, hhit⟩ hmiss
            | some value => rw [getOrCompute_of_hit hhit]
          · exact get?_getOrCompute_of_ne hkey
        rw [hcomps] at hok ⊢
        rw [hrun, ih hok, hsame, minTtl_getOrCompute,
          durationFactor_getOrCompute]

/-- The computes of a key that all return are spaced by their cooldowns. -/
theorem spaced_of_ok {c : AdaptiveTtlCache κ α} {calls : List (CacheCall κ α ε)}
    {key : κ} {t : ℚ}
    (hmin : 0 ≤ c.minTtl) (hclock : ClockForward c t calls)
    (hok : ∀ call ∈ computesOf key c calls, ∃ value, call.compute = .ok value) :
    (computesOf key c calls).Pairwise
      (fun a b => a.finished + a.cooldown c.minTtl c.durationFactor ≤
        b.now) := by
  refine computes_spaced hmin hclock
    fun before a after heq hkey hraise b hb hbkey => ?_
  obtain ⟨e, hanswer⟩ := hraise
  obtain ⟨hhit, he⟩ := getOrCompute_raises_iff.mp hanswer
  have hmem : a ∈ computesOf key c calls := by
    rw [heq, computesOf_append, ← hkey, computesOf_of_miss hhit]
    exact List.mem_append_right _ List.mem_cons_self
  obtain ⟨value, hv⟩ := hok a hmem
  rw [hv] at he
  cases he

/-- A value served from a new cache is that of the latest compute, within its
lifetime. -/
theorem served_is_latest {minTtl f : ℚ} {before : List (CacheCall κ α ε)}
    {call : CacheCall κ α ε} {value : α}
    (hok : ∀ b ∈ computesOf call.key (new minTtl f : AdaptiveTtlCache κ α) before,
      ∃ value, b.compute = .ok value)
    (hserved : ((runCalls (new minTtl f) before).getOrCompute call).2 =
      .cached value) :
    ∃ latest, (computesOf call.key (new minTtl f : AdaptiveTtlCache κ α)
      before).getLast?
        = some latest ∧
      latest.compute = .ok value ∧
      call.now - latest.finished < max minTtl (f * latest.duration) := by
  have hentry := get?_runCalls hok
  cases hhit : (runCalls (new minTtl f) before).hit call.key call.now with
  | none =>
      unfold getOrCompute at hserved
      rw [hhit] at hserved
      dsimp only at hserved
      split at hserved <;> cases hserved
  | some served =>
      rw [getOrCompute_of_hit hhit] at hserved
      obtain rfl : served = value := Answer.cached.inj hserved
      obtain ⟨e, he, halive, hval⟩ := hit_eq_some.mp hhit
      rw [he] at hentry
      cases hlatest :
        (computesOf call.key (new minTtl f : AdaptiveTtlCache κ α)
        before).getLast? with
      | none =>
          rw [hlatest] at hentry
          exact absurd hentry (by simp [new])
      | some latest =>
          rw [hlatest] at hentry
          obtain ⟨v, hv⟩ := hok latest (List.mem_of_getLast? hlatest)
          simp only [CacheCall.entry, hv, Option.some.injEq] at hentry
          subst hentry
          obtain rfl : v = served := hval
          exact ⟨latest, rfl, hv, halive⟩

/-- **The duty cycle.**  In every run on a clock that never goes back, with
computes of a key that return: each compute of the key starts only when the
cooldown of each earlier one is over; the time spent in all but the last is at
most one part in `1 + f` of the time between the first start and the last; a
value served without computing is that of the latest compute and is younger
than its lifetime; and calls on other keys leave the entry as it is. -/
theorem worker_share (minTtl f : ℚ) (hmin : 0 ≤ minTtl) (key : κ) (t : ℚ)
    (calls : List (CacheCall κ α ε))
    (hclock : ClockForward (new minTtl f : AdaptiveTtlCache κ α) t calls)
    (hok : ∀ call ∈ computesOf key (new minTtl f : AdaptiveTtlCache κ α) calls,
      ∃ value, call.compute = .ok value) :
    let cache : AdaptiveTtlCache κ α := new minTtl f
    (computesOf key cache calls).Pairwise
      (fun a b => a.now + a.duration + max minTtl (f * a.duration) ≤ b.now) ∧
    (∀ first last, (computesOf key cache calls).head? = some first →
      (computesOf key cache calls).getLast? = some last →
      (1 + f) * busyTime (computesOf key cache calls) ≤ last.now - first.now) ∧
    (∀ before call after value, calls = before ++ call :: after →
      call.key = key →
      ((runCalls cache before).getOrCompute call).2 = .cached value →
      ∃ latest, (computesOf key cache before).getLast? = some latest ∧
        latest.compute = .ok value ∧
        call.now - latest.finished < max minTtl (f * latest.duration)) ∧
    (∀ before others after, calls = before ++ (others ++ after) →
      (∀ call ∈ others, call.key ≠ key) →
      (runCalls cache (before ++ others)).entries.get? key
        = (runCalls cache before).entries.get? key) := by
  have hspaced := spaced_of_ok (c := new minTtl f) hmin hclock hok
  refine ⟨hspaced.imp fun {a b} hab => ?_, ?_, ?_, ?_⟩
  · rw [show a.now + a.duration = a.finished by simp [CacheCall.duration]]
    exact hab
  · intro first last hfirst hlast
    exact busyTime_le hspaced hfirst hlast
  · intro before call after value heq hkey hserved
    subst hkey
    refine served_is_latest (fun b hb => hok b ?_) hserved
    rw [heq, computesOf_append]
    exact List.mem_append_left _ hb
  · intro before others after _ hother
    rw [runCalls_append]
    exact get?_runCalls_of_ne hother

/-- A query of 20 s that is asked for at 0, 50 and 80 s. -/
def polledQuery : List (CacheCall Unit Nat Unit) :=
  [⟨(), 0, .ok 1, 20⟩, ⟨(), 50, .ok 2, 50⟩, ⟨(), 80, .ok 3, 95⟩]

theorem computesOf_polledQuery :
    computesOf () (new 30 3) polledQuery =
      [⟨(), 0, .ok 1, 20⟩, ⟨(), 80, .ok 3, 95⟩] := by
  norm_num [computesOf, Answer.isComputed, polledQuery, getOrCompute, hit, new,
    AdaptiveTtlCache.ttl]

/-- The call at 50 s is served from the cache, the one at 80 s is not. -/
theorem worker_share_polled :
    (1 + 3) * busyTime (computesOf () (new 30 3) polledQuery) ≤ 80 - 0 :=
  (worker_share 30 3 (by norm_num) () 0 polledQuery (by decide +kernel)
    (by
      intro call hcall
      rw [computesOf_polledQuery] at hcall
      rcases List.mem_cons.mp hcall with rfl | hcall
      · exact ⟨1, rfl⟩
      · rw [List.mem_singleton.mp hcall]
        exact ⟨3, rfl⟩)).2.1 ⟨(), 0, .ok 1, 20⟩ ⟨(), 80, .ok 3, 95⟩
    (by rw [computesOf_polledQuery]; rfl) (by rw [computesOf_polledQuery]; rfl)

/-! ### Computes that raise -/

/-- A key without a living entry is computed by the next call on it. -/
theorem dead_key_computes {c : AdaptiveTtlCache κ α}
    {calls : List (CacheCall κ α ε)} {key : κ}
    {t : ℚ} (hdead : c.hit key t = none) (hclock : ClockForward c t calls)
    {b : CacheCall κ α ε} (hb : b ∈ calls) (hkey : b.key = key) :
    ∃ d ∈ computesOf key c calls, d.now ≤ b.now := by
  induction calls generalizing c t with
  | nil => cases hb
  | cons call rest ih =>
      obtain ⟨hnow, hend, hrest⟩ := hclock
      by_cases hcall : call.key = key
      case pos =>
        subst hcall
        have hmiss : c.hit call.key call.now = none :=
          hit_eq_none_mono hnow hdead
        refine ⟨call, by rw [computesOf_of_miss hmiss]; exact List.mem_cons_self, ?_⟩
        rcases List.mem_cons.mp hb with rfl | hb
        · exact le_rfl
        · exact hend.trans (hrest.le_now hb)
      case neg =>
        have hb : b ∈ rest := by
          rcases List.mem_cons.mp hb with rfl | hb
          · exact absurd hkey hcall
          · exact hb
        have hdead' : (c.getOrCompute call).1.hit key (call.ends c) = none := by
          have hlater := hit_eq_none_mono (hnow.trans hend) hdead
          rw [hit_eq_none] at hlater ⊢
          rwa [get?_getOrCompute_of_ne hcall]
        rw [computesOf_of_ne hcall]
        exact ih hdead' hrest hb

/-- A compute of the key that raises is followed by a rest of its cooldown, and
the computes, whether they return or raise, take at most one part in `1 + f` of
the time. -/
def KeepsShare (minTtl f : ℚ) (computes : List (CacheCall κ α ε)) : Prop :=
  computes.Pairwise (fun a b =>
    (∃ e, a.compute = .error e) →
      a.finished + max minTtl (f * a.duration) ≤ b.now) ∧
  ∀ first last, computes.head? = some first → computes.getLast? = some last →
    busyTime computes ≤ (last.now - first.now) / (1 + f)

/-- **When failing computes keep the share.**  Exactly when the callers hold
off: no call on the key comes within the cooldown of a compute that raised. -/
theorem failed_share_iff (minTtl f : ℚ) (hmin : 0 ≤ minTtl) (hf : 0 ≤ f)
    (key : κ) (t : ℚ)
    (calls : List (CacheCall κ α ε))
    (hclock : ClockForward (new minTtl f : AdaptiveTtlCache κ α) t calls) :
    KeepsShare minTtl f
      (computesOf key (new minTtl f : AdaptiveTtlCache κ α) calls) ↔
      HoldsOff key (new minTtl f : AdaptiveTtlCache κ α) calls := by
  constructor
  · intro ⟨hspaced, _⟩ before a after heq hkey hraise b hb hbkey
    subst hkey
    rw [heq] at hclock hspaced
    obtain ⟨-, t', -, hnow, hend, hafter⟩ := hclock.append
    obtain ⟨e, hanswer⟩ := hraise
    obtain ⟨hmiss, he⟩ := getOrCompute_raises_iff.mp hanswer
    have hsame := getOrCompute_of_raise hmiss he
    have hdead : ((runCalls (new minTtl f) before).getOrCompute a).1.hit a.key
        (a.ends (runCalls (new minTtl f) before)) = none := by
      rw [hsame]
      exact hit_eq_none_mono hend hmiss
    obtain ⟨d, hd, hle⟩ := dead_key_computes hdead hafter hb hbkey
    rw [computesOf_append, computesOf_of_miss hmiss] at hspaced
    have hrest :=
      (List.pairwise_cons.mp (List.pairwise_append.mp hspaced).2.1).1 d
      hd ⟨e, he⟩
    exact hrest.trans hle
  · intro hoff
    have hspaced : (computesOf key (new minTtl f) calls).Pairwise
        (fun a b => a.finished + a.cooldown minTtl f ≤ b.now) :=
      computes_spaced (c := new minTtl f) hmin hclock hoff
    refine ⟨hspaced.imp ?_, ?_⟩
    · intro a b hab _
      exact hab
    · intro first last hfirst hlast
      have hpos : 0 < 1 + f := by linarith
      rw [le_div_iff₀ hpos, mul_comm]
      exact busyTime_le hspaced hfirst hlast

/-- Callers that wait as long as the cooldown after a failure of 60 s. -/
theorem failed_share_iff_patient :
    let calls : List (CacheCall Unit Nat Unit) :=
  [⟨(), 0, .error (), 60⟩, ⟨(), 240, .ok 1, 250⟩]
    KeepsShare 30 3 (computesOf () (new 30 3) calls) ∧
      HoldsOff () (new 30 3) calls := by
  intro calls
  have hkeeps : KeepsShare 30 3 (computesOf () (new 30 3) calls) := by
    have hcomputes : computesOf () (new 30 3) calls = calls := rfl
    rw [hcomputes]
    refine ⟨by simp [calls, CacheCall.duration]; norm_num, ?_⟩
    intro first last hfirst hlast
    obtain rfl := Option.some.inj hfirst
    obtain rfl := Option.some.inj hlast
    simp [calls, busyTime, CacheCall.duration]
    norm_num
  exact ⟨hkeeps, (failed_share_iff 30 3 (by norm_num) (by norm_num) () 0 calls
    (by decide +kernel)).mp hkeeps⟩

/-- **A failing query takes the worker.**  A query fails after 60 s and is
asked for again 2 s later: it is computed again, 178 s too early. -/
theorem failing_query_not_spaced :
    let calls : List (CacheCall Unit Nat Unit) :=
  [⟨(), 0, .error (), 60⟩, ⟨(), 62, .error (), 122⟩]
    ClockForward (new 30 3 : AdaptiveTtlCache Unit Nat) 0 calls ∧
    computesOf () (new 30 3) calls = calls ∧
    ¬ KeepsShare 30 3 (computesOf () (new 30 3) calls) := by
  intro calls
  have hcomputes : computesOf () (new 30 3) calls = calls := rfl
  refine ⟨by decide +kernel, hcomputes, ?_⟩
  rw [hcomputes]
  intro ⟨hspaced, _⟩
  have := (List.pairwise_cons.mp hspaced).1 _ List.mem_cons_self ⟨(), rfl⟩
  norm_num [CacheCall.duration] at this

end Telemetryd
