import Mathlib.Algebra.Order.Ring.Rat
import Mathlib.Data.List.Chain
import Telemetryd.Lib.DutyCycle
import Telemetryd.Lib.OrderedDict

/-!
# The adaptive cache

`AdaptiveTtlCache` of `platform/cache.py`: expensive queries are answered from
a cache whose entries live in proportion to the time their value took to
compute.  A run is a list of calls of `get_or_compute` on any keys, each with
the readings of the clock and with what `compute` does should it be run.

Keys, values and exceptions are arbitrary; times are exact rationals.
-/

namespace Telemetryd

variable {κ α ε : Type*} [DecidableEq κ]

/-- What is stored for a key: the value, when it was ready, and how long it
lives. -/
structure CacheEntry (α : Type*) where
  cachedAt : ℚ
  value : α
  ttl : ℚ

/-- The cache: what it holds, and the settings of its time to live. -/
structure AdaptiveTtlCache (κ α : Type*) [DecidableEq κ] where
  minTtl : ℚ
  durationFactor : ℚ
  entries : OrderedDict κ (CacheEntry α)

/-- A new cache.  The source's defaults are 30 s and 3. -/
def AdaptiveTtlCache.new (minTtl durationFactor : ℚ) : AdaptiveTtlCache κ α :=
  ⟨minTtl, durationFactor, .empty⟩

/-- One call of `get_or_compute`.  `now` is the clock at its start; `compute`
is what the query returns or raises if it is run, and `finished` the clock when
it is over. -/
structure CacheCall (κ α ε : Type*) where
  key : κ
  now : ℚ
  compute : Except ε α
  finished : ℚ

/-- How a call was answered. -/
inductive Answer (α ε : Type*) where
  | cached (value : α)
  | computed (result : Except ε α)

/-- What the caller gets: a value or an exception. -/
def Answer.result : Answer α ε → Except ε α
  | .cached value => .ok value
  | .computed result => result

/-- The call ran `compute`. -/
def Answer.isComputed : Answer α ε → Bool
  | .cached _ => false
  | .computed _ => true

namespace AdaptiveTtlCache

/-- The value of a key if it is still alive. -/
def hit (c : AdaptiveTtlCache κ α) (key : κ) (now : ℚ) : Option α :=
  match c.entries.get? key with
  | some e => if now - e.cachedAt < e.ttl then some e.value else none
  | none => none

/-- The lifetime of a value that took `duration` to compute. -/
def ttl (c : AdaptiveTtlCache κ α) (duration : ℚ) : ℚ :=
  max c.minTtl (duration * c.durationFactor)

/-- An exception of `compute` leaves before anything is stored. -/
def getOrCompute (c : AdaptiveTtlCache κ α) (call : CacheCall κ α ε) :
    AdaptiveTtlCache κ α × Answer α ε :=
  match c.hit call.key call.now with
  | some value => (c, .cached value)
  | none =>
      match call.compute with
      | .ok value =>
          let entry := ⟨call.finished, value, c.ttl (call.finished - call.now)⟩
          ({ c with entries := c.entries.insert call.key entry },
            .computed (.ok value))
      | .error e => (c, .computed (.error e))

end AdaptiveTtlCache

open AdaptiveTtlCache

/-- The cache after a list of calls. -/
def runCalls (c : AdaptiveTtlCache κ α) (calls : List (CacheCall κ α ε)) :
    AdaptiveTtlCache κ α :=
  calls.foldl (fun c call => (c.getOrCompute call).1) c

/-- The calls of a run that were answered by running `compute` for a key. -/
def computesOf (key : κ) (c : AdaptiveTtlCache κ α) :
    List (CacheCall κ α ε) → List (CacheCall κ α ε)
  | [] => []
  | call :: rest =>
      if call.key = key ∧ (c.getOrCompute call).2.isComputed then
        call :: computesOf key (c.getOrCompute call).1 rest
      else computesOf key (c.getOrCompute call).1 rest

/-- The last reading of the clock in a call. -/
def CacheCall.ends (c : AdaptiveTtlCache κ α) (call : CacheCall κ α ε) : ℚ :=
  if (c.getOrCompute call).2.isComputed then call.finished else call.now

/-- From `t` on, the clock never goes back during a run. -/
def ClockForward (c : AdaptiveTtlCache κ α) (t : ℚ) :
    List (CacheCall κ α ε) → Prop
  | [] => True
  | call :: rest => t ≤ call.now ∧ call.now ≤ call.ends c ∧
      ClockForward (c.getOrCompute call).1 (call.ends c) rest

instance decidableClockForward : ∀ (c : AdaptiveTtlCache κ α) (t : ℚ)
    (calls : List (CacheCall κ α ε)), Decidable (ClockForward c t calls)
  | _, _, [] => isTrue trivial
  | c, _, call :: rest => @instDecidableAnd _ _ inferInstance
      (@instDecidableAnd _ _ inferInstance
        (decidableClockForward (c.getOrCompute call).1 (call.ends c) rest))

/-- The time a call spends in `compute`. -/
def CacheCall.duration (call : CacheCall κ α ε) : ℚ := call.finished - call.now

/-- How long the key of a compute is meant to rest after it. -/
def CacheCall.cooldown (minTtl f : ℚ) (call : CacheCall κ α ε) : ℚ :=
  max minTtl (f * call.duration)

/-- The time that a call takes of the worker. -/
def CacheCall.span (call : CacheCall κ α ε) : DutyCycle.Span ℚ :=
  ⟨call.now, call.finished⟩

/-- The time spent in all computes but the last. -/
def busyTime (computes : List (CacheCall κ α ε)) : ℚ :=
  (computes.dropLast.map CacheCall.duration).sum

/-! ### One call -/

section Step

variable {c : AdaptiveTtlCache κ α} {call : CacheCall κ α ε} {key : κ}

theorem minTtl_getOrCompute (c : AdaptiveTtlCache κ α)
    (call : CacheCall κ α ε) :
    (c.getOrCompute call).1.minTtl = c.minTtl := by
  unfold getOrCompute
  split
  · rfl
  · split <;> rfl

theorem durationFactor_getOrCompute (c : AdaptiveTtlCache κ α)
    (call : CacheCall κ α ε) :
    (c.getOrCompute call).1.durationFactor = c.durationFactor := by
  unfold getOrCompute
  split
  · rfl
  · split <;> rfl

/-- A call on another key leaves the entry alone. -/
theorem get?_getOrCompute_of_ne (h : call.key ≠ key) :
    (c.getOrCompute call).1.entries.get? key = c.entries.get? key := by
  unfold getOrCompute
  split
  · rfl
  · split
    · exact OrderedDict.get?_insert_of_ne (Ne.symm h)
    · rfl

theorem getOrCompute_of_hit {value : α}
    (h : c.hit call.key call.now = some value) :
    c.getOrCompute call = (c, .cached value) := by
  unfold getOrCompute
  rw [h]

theorem getOrCompute_of_raise {e : ε} (h : c.hit call.key call.now = none)
    (he : call.compute = .error e) :
    c.getOrCompute call = (c, .computed (.error e)) := by
  unfold getOrCompute
  rw [h]
  dsimp only
  rw [he]

theorem getOrCompute_of_ok {value : α} (h : c.hit call.key call.now = none)
    (hv : call.compute = .ok value) : c.getOrCompute call
      = ({ c with entries := c.entries.insert call.key ⟨call.finished, value,
        c.ttl call.duration⟩ },
        .computed (.ok value)) := by
  unfold getOrCompute
  rw [h]
  dsimp only
  rw [hv]
  rfl

theorem get?_getOrCompute_of_ok {value : α} (h : c.hit call.key call.now = none)
    (hv : call.compute = .ok value) :
    (c.getOrCompute call).1.entries.get? call.key
      = some ⟨call.finished, value, c.ttl call.duration⟩ := by
  rw [getOrCompute_of_ok h hv]
  exact OrderedDict.get?_insert_self _ _ _

/-- A call runs `compute` exactly if its key has no living entry. -/
theorem isComputed_getOrCompute :
    (c.getOrCompute call).2.isComputed = (c.hit call.key call.now).isNone := by
  cases hhit : c.hit call.key call.now with
  | some value => rw [getOrCompute_of_hit hhit]; rfl
  | none =>
      cases hcomp : call.compute with
      | ok value => rw [getOrCompute_of_ok hhit hcomp]; rfl
      | error e => rw [getOrCompute_of_raise hhit hcomp]; rfl

/-- A call raises exactly if it runs a `compute` that does. -/
theorem getOrCompute_raises_iff {e : ε} :
    (c.getOrCompute call).2 = .computed (.error e) ↔
      c.hit call.key call.now = none ∧ call.compute = .error e := by
  cases hhit : c.hit call.key call.now with
  | some value => simp [getOrCompute_of_hit hhit]
  | none =>
      cases hcomp : call.compute with
      | ok value => simp [getOrCompute_of_ok hhit hcomp]
      | error e' => simp [getOrCompute_of_raise hhit hcomp]

/-- A value is served while it is younger than its lifetime. -/
theorem hit_eq_some {now : ℚ} {value : α} :
    c.hit key now = some value ↔
      ∃ e, c.entries.get? key = some e ∧ now - e.cachedAt < e.ttl ∧
        e.value = value := by
  unfold hit
  cases c.entries.get? key with
  | none => simp
  | some e =>
      by_cases h : now - e.cachedAt < e.ttl
      · simp [h]
      · simp [h]

theorem hit_eq_none {now : ℚ} :
    c.hit key now = none ↔ ∀ e, c.entries.get? key = some e →
      e.cachedAt + e.ttl ≤ now := by
  unfold hit
  cases c.entries.get? key with
  | none => simp
  | some e =>
      by_cases h : now - e.cachedAt < e.ttl
      · simp only [h, if_true, Option.some.injEq, forall_eq', reduceCtorEq,
          false_iff]
        intro hle
        linarith
      · simp only [h, if_false, Option.some.injEq, forall_eq', true_iff]
        linarith

/-- The entry of a key dies and does not come back to life. -/
theorem hit_eq_none_mono {now later : ℚ} (hle : now ≤ later)
    (h : c.hit key now = none) :
    c.hit key later = none := by
  rw [hit_eq_none] at h ⊢
  exact fun e he => (h e he).trans hle

theorem ttl_nonneg (hmin : 0 ≤ c.minTtl) (d : ℚ) : 0 ≤ c.ttl d :=
  hmin.trans (le_max_left _ _)

end Step

/-! ### Runs -/

section Runs

variable {c : AdaptiveTtlCache κ α} {calls : List (CacheCall κ α ε)}
    {key : κ} {t : ℚ}

theorem runCalls_append (c : AdaptiveTtlCache κ α)
    (before after : List (CacheCall κ α ε)) :
    runCalls c (before ++ after) = runCalls (runCalls c before) after :=
  List.foldl_append

/-- A call on a key without a living entry is one of its computes. -/
theorem computesOf_of_miss {call : CacheCall κ α ε}
    (h : c.hit call.key call.now = none) :
    computesOf call.key c (call :: calls)
      = call :: computesOf call.key (c.getOrCompute call).1 calls := by
  rw [computesOf, if_pos ⟨rfl, by rw [isComputed_getOrCompute, h]; rfl⟩]

/-- A call that is served is no compute. -/
theorem computesOf_of_hit {call : CacheCall κ α ε} {value : α}
    (h : c.hit call.key call.now = some value) :
    computesOf key c (call :: calls) =
      computesOf key (c.getOrCompute call).1 calls := by
  rw [computesOf, if_neg]
  rw [isComputed_getOrCompute, h]
  simp

/-- A call on another key is no compute of this one. -/
theorem computesOf_of_ne {call : CacheCall κ α ε} (h : call.key ≠ key) :
    computesOf key c (call :: calls) =
      computesOf key (c.getOrCompute call).1 calls :=
  if_neg fun hc => h hc.1

theorem computesOf_append (key : κ) (c : AdaptiveTtlCache κ α)
    (before after : List (CacheCall κ α ε)) :
    computesOf key c (before ++ after)
      = computesOf key c before ++
        computesOf key (runCalls c before) after := by
  induction before generalizing c with
  | nil => rfl
  | cons call rest ih =>
      simp only [List.cons_append, computesOf, ih]
      split
      · rfl
      · rfl

/-- A compute of the key is a call of the run, on the key. -/
theorem mem_computesOf {b : CacheCall κ α ε} (h : b ∈ computesOf key c calls) :
    b ∈ calls ∧ b.key = key := by
  induction calls generalizing c with
  | nil => cases h
  | cons call rest ih =>
      simp only [computesOf] at h
      split at h
      case isTrue hc =>
        rcases List.mem_cons.mp h with rfl | h
        · exact ⟨List.mem_cons_self, hc.1⟩
        · exact ⟨List.mem_cons_of_mem _ (ih h).1, (ih h).2⟩
      case isFalse => exact ⟨List.mem_cons_of_mem _ (ih h).1, (ih h).2⟩

/-- Calls on other keys leave the entry alone. -/
theorem get?_runCalls_of_ne (h : ∀ call ∈ calls, call.key ≠ key) :
    (runCalls c calls).entries.get? key = c.entries.get? key := by
  induction calls generalizing c with
  | nil => rfl
  | cons call rest ih =>
      have hrest : ∀ other ∈ rest, other.key ≠ key :=
        fun other ho => h other (List.mem_cons_of_mem _ ho)
      exact (ih hrest).trans
        (get?_getOrCompute_of_ne (h call List.mem_cons_self))

theorem ClockForward.append {before after : List (CacheCall κ α ε)}
    (h : ClockForward c t (before ++ after)) :
    ClockForward c t before ∧ ∃ t', t ≤ t' ∧
      ClockForward (runCalls c before) t' after := by
  induction before generalizing c t with
  | nil => exact ⟨trivial, t, le_rfl, h⟩
  | cons call rest ih =>
      obtain ⟨hnow, hend, hrest⟩ := h
      obtain ⟨hbefore, t', ht', hafter⟩ := ih hrest
      exact ⟨⟨hnow, hend, hbefore⟩, t', (hnow.trans hend).trans ht', hafter⟩

/-- Every call comes after the reading the run starts from. -/
theorem ClockForward.le_now (h : ClockForward c t calls) {b : CacheCall κ α ε}
    (hb : b ∈ calls) : t ≤ b.now := by
  obtain ⟨before, after, rfl⟩ := List.append_of_mem hb
  obtain ⟨-, t', ht', hafter⟩ := h.append
  exact ht'.trans hafter.1

/-- **Rest.**  While a key has an entry, no compute of it starts before the end
of the entry's life. -/
theorem entry_rests {e : CacheEntry α} (hmin : 0 ≤ c.minTtl)
    (hclock : ClockForward c t calls) (he : c.entries.get? key = some e) :
    ∀ b ∈ computesOf key c calls, e.cachedAt + e.ttl ≤ b.now := by
  induction calls generalizing c t e with
  | nil => intro b hb; cases hb
  | cons call rest ih =>
      intro b hb
      obtain ⟨-, hend, hrest⟩ := hclock
      have hmin' : 0 ≤ (c.getOrCompute call).1.minTtl := by
        rwa [minTtl_getOrCompute]
      by_cases hkey : call.key = key
      case neg =>
        rw [computesOf_of_ne hkey] at hb
        exact ih hmin' hrest ((get?_getOrCompute_of_ne hkey).trans he) b hb
      case pos =>
        subst hkey
        cases hhit : c.hit call.key call.now with
        | some value =>
            rw [computesOf_of_hit hhit] at hb
            refine ih hmin' hrest ?_ b hb
            rwa [getOrCompute_of_hit hhit]
        | none =>
            have hnow : e.cachedAt + e.ttl ≤ call.now :=
              hit_eq_none.mp hhit e he
            rw [computesOf_of_miss hhit] at hb
            rcases List.mem_cons.mp hb with rfl | hb
            · exact hnow
            cases hcomp : call.compute with
            | error err =>
                refine ih hmin' hrest ?_ b hb
                rwa [getOrCompute_of_raise hhit hcomp]
            | ok value =>
                have hlater :=
                  ih hmin' hrest (get?_getOrCompute_of_ok hhit hcomp) b hb
                have hfin : call.now ≤ call.finished := by
                  simpa [CacheCall.ends, isComputed_getOrCompute,
                    hhit] using hend
                have hpos := ttl_nonneg hmin call.duration
                simp only at hlater
                linarith

/-- **After a compute that succeeds** the key rests for its cooldown. -/
theorem success_rests {call : CacheCall κ α ε} {value : α} (hmin : 0 ≤ c.minTtl)
    (hclock : ClockForward c t (call :: calls))
    (hhit : c.hit call.key call.now = none)
    (hv : call.compute = .ok value) :
    ∀ b ∈ computesOf call.key (c.getOrCompute call).1 calls,
      call.finished + call.cooldown c.minTtl c.durationFactor ≤ b.now := by
  intro b hb
  have hmin' : 0 ≤ (c.getOrCompute call).1.minTtl := by
    rwa [minTtl_getOrCompute]
  have hrest :=
    entry_rests hmin' hclock.2.2 (get?_getOrCompute_of_ok hhit hv) b hb
  rwa [show (c.ttl call.duration) = call.cooldown c.minTtl c.durationFactor by
    rw [AdaptiveTtlCache.ttl, CacheCall.cooldown, mul_comm]] at hrest

/-- After a call on the key whose compute raises, the callers make no call on
the key before its cooldown is over. -/
def HoldsOff (key : κ) (c : AdaptiveTtlCache κ α)
    (calls : List (CacheCall κ α ε)) : Prop :=
  ∀ before a after, calls = before ++ a :: after → a.key = key →
    (∃ e, ((runCalls c before).getOrCompute a).2 = .computed (.error e)) →
    ∀ b ∈ after, b.key = key →
      a.finished + a.cooldown c.minTtl c.durationFactor ≤ b.now

/-- The computes of a key are spaced by their cooldowns if the callers hold off
after those that raise. -/
theorem computes_spaced (hmin : 0 ≤ c.minTtl) (hclock : ClockForward c t calls)
    (hraise : HoldsOff key c calls) :
    (computesOf key c calls).Pairwise
      (fun a b => a.finished + a.cooldown c.minTtl c.durationFactor ≤
        b.now) := by
  induction calls generalizing c t with
  | nil => exact List.Pairwise.nil
  | cons call rest ih =>
      have hrest : (computesOf key (c.getOrCompute call).1 rest).Pairwise
          (fun a b => a.finished + a.cooldown c.minTtl c.durationFactor ≤
            b.now) := by
        have htail :=
          ih (c := (c.getOrCompute call).1) (by rwa [minTtl_getOrCompute])
          hclock.2.2
        unfold HoldsOff at htail
        rw [minTtl_getOrCompute, durationFactor_getOrCompute] at htail
        refine htail fun before a after heq => ?_
        exact hraise (call :: before) a after (by rw [heq, List.cons_append])
      simp only [computesOf]
      split
      case isFalse => exact hrest
      case isTrue hc =>
        obtain ⟨rfl, hnone⟩ := hc
        have hhit : c.hit call.key call.now = none := by
          rwa [isComputed_getOrCompute, Option.isNone_iff_eq_none] at hnone
        refine List.pairwise_cons.mpr ⟨?_, hrest⟩
        cases hcomp : call.compute with
        | ok value => exact success_rests hmin hclock hhit hcomp
        | error e =>
            intro b hb
            obtain ⟨hmem, hkey⟩ := mem_computesOf hb
            exact hraise [] call rest rfl rfl ⟨e,
              getOrCompute_raises_iff.mpr ⟨hhit, hcomp⟩⟩ b hmem hkey

omit [DecidableEq κ] in
/-- **The share of the worker**, from the spacing. -/
theorem busyTime_le {minTtl f : ℚ} {computes : List (CacheCall κ α ε)}
    (hspaced : computes.Pairwise (fun a b =>
      a.finished + a.cooldown minTtl f ≤ b.now))
    {first last : CacheCall κ α ε} (hfirst : computes.head? = some first)
    (hlast : computes.getLast? = some last) :
    (1 + f) * busyTime computes ≤ last.now - first.now := by
  have hchain : (computes.map CacheCall.span).IsChain
      (fun s t => s.finish + f * s.length ≤ t.start) := by
    rw [List.isChain_map]
    refine hspaced.isChain.imp fun a b hab => ?_
    have hle : f * a.span.length ≤ a.cooldown minTtl f := le_max_right _ _
    exact (add_le_add_right hle a.finished).trans hab
  have hbusy :
      busyTime computes = DutyCycle.busy (computes.map CacheCall.span) := by
    unfold busyTime DutyCycle.busy
    rw [← List.map_dropLast, List.map_map]
    rfl
  rw [hbusy]
  have h1 : (computes.map CacheCall.span).head? = some first.span := by
    simp [hfirst]
  have h2 : (computes.map CacheCall.span).getLast? = some last.span := by
    simp [hlast]
  exact DutyCycle.busy_le_elapsed hchain h1 h2

end Runs

end Telemetryd
