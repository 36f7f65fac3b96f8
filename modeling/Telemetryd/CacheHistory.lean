import Telemetryd.AdaptiveCache
import Telemetryd.Lib.LatestEntry

/-!
# What the cache answers

The other operations of `AdaptiveTtlCache`, `peek`, `invalidate` and `ttl_of`,
and what a client sees of a run of all four, in any order, on any keys, with any
readings of the clock and with computes that may raise.  The exchanges of a run
are told apart from any other exchanges by the past alone: what counts for a key
is the latest value that was computed for it, unless the key was invalidated
since.
-/

namespace Telemetryd

open AdaptiveTtlCache LatestEntry

variable {κ α ε : Type*} [DecidableEq κ]

namespace AdaptiveTtlCache

/-- The value that is stored, dead or alive. -/
def peek (c : AdaptiveTtlCache κ α) (key : κ) : Option α :=
  match c.entries.get? key with
  | none => none
  | some hit => some hit.value

/-- One key, or all without one. -/
def invalidate (c : AdaptiveTtlCache κ α) : Option κ → AdaptiveTtlCache κ α
  | none => { c with entries := .empty }
  | some key => { c with entries := c.entries.erase key }

/-- The lifetime of the value that is stored. -/
def ttlOf (c : AdaptiveTtlCache κ α) (key : κ) : Option ℚ :=
  match c.entries.get? key with
  | none => none
  | some hit => some hit.ttl

end AdaptiveTtlCache

/-- A call of a method of the cache. -/
inductive CacheRequest (κ α ε : Type*) where
  | getOrCompute (call : CacheCall κ α ε)
  | peek (key : κ)
  | invalidate (key : Option κ)
  | ttlOf (key : κ)

/-- What the call returns; that of `get_or_compute` with how it came about. -/
inductive CacheReply (α ε : Type*) where
  | answer (answer : Answer α ε)
  | peeked (value : Option α)
  | invalidated
  | lifetime (ttl : Option ℚ)

/-- A call and what it returned. -/
abbrev CacheExchange (κ α ε : Type*) := CacheRequest κ α ε × CacheReply α ε

namespace AdaptiveTtlCache

/-- The cache after a call, and what the call returns. -/
def serve (c : AdaptiveTtlCache κ α) :
    CacheRequest κ α ε → AdaptiveTtlCache κ α × CacheReply α ε
  | .getOrCompute call =>
      ((c.getOrCompute call).1, .answer (c.getOrCompute call).2)
  | .peek key => (c, .peeked (c.peek key))
  | .invalidate key => (c.invalidate key, .invalidated)
  | .ttlOf key => (c, .lifetime (c.ttlOf key))

/-- The cache after a run. -/
def served (c : AdaptiveTtlCache κ α) (requests : List (CacheRequest κ α ε)) :
    AdaptiveTtlCache κ α :=
  requests.foldl (fun c request => (c.serve request).1) c

/-- The exchanges of a run. -/
def exchanges (c : AdaptiveTtlCache κ α) :
    List (CacheRequest κ α ε) → List (CacheExchange κ α ε)
  | [] => []
  | request :: rest =>
      (request, (c.serve request).2) :: exchanges (c.serve request).1 rest

end AdaptiveTtlCache

/-! ### The past -/

/-- What an exchange does to the value of a key: a compute that returned sets
it, and it is dropped when it is invalidated. -/
def cacheEffect (minTtl f : ℚ) (key : κ) :
    CacheExchange κ α ε → Effect (CacheEntry α)
  | (.getOrCompute call, .answer (.computed (.ok value))) =>
      if call.key = key
        then .sets ⟨call.finished, value, max minTtl (call.duration * f)⟩
        else .leaves
  | (.invalidate none, _) => .drops
  | (.invalidate (some dropped), _) => if dropped = key then .drops else .leaves
  | _ => .leaves

/-- What may be returned after the exchanges of the past.  A value is served if
it is the latest and has not outlived its lifetime, and else it is computed. -/
def Answers (minTtl f : ℚ) (past : List (CacheExchange κ α ε)) :
    CacheRequest κ α ε → CacheReply α ε → Prop
  | .getOrCompute call, .answer (.cached value) =>
      ∃ e, Latest (cacheEffect minTtl f call.key) past e ∧ e.value = value ∧
        call.now - e.cachedAt < e.ttl
  | .getOrCompute call, .answer (.computed result) =>
      result = call.compute ∧
        ∀ e, Latest (cacheEffect minTtl f call.key) past e →
          e.ttl ≤ call.now - e.cachedAt
  | .peek key, .peeked found =>
      ∀ value, found = some value ↔
        ∃ e, Latest (cacheEffect minTtl f key) past e ∧ e.value = value
  | .invalidate _, .invalidated => True
  | .ttlOf key, .lifetime found =>
      ∀ ttl, found = some ttl ↔ ∃ e, Latest (cacheEffect minTtl f key) past e ∧
        e.ttl = ttl
  | _, _ => False

/-- Every exchange is answered from those before it. -/
def AnsweredFromPast (minTtl f : ℚ) (log : List (CacheExchange κ α ε)) : Prop :=
  ∀ past x rest, log = past ++ x :: rest → Answers minTtl f past x.1 x.2

/-! ### One call -/

theorem eq_map_iff {β γ : Type*} {g : β → γ} {stored : Option β}
    {found : Option γ} :
    (∀ c, found = some c ↔ ∃ b, stored = some b ∧ g b = c) ↔
      found = stored.map g := by
  rw [Option.ext_iff]
  simp only [Option.map_eq_some_iff]

section

variable {c : AdaptiveTtlCache κ α} {request : CacheRequest κ α ε} {key : κ}

theorem peek_eq_map :
    c.peek key = (c.entries.get? key).map CacheEntry.value := by
  unfold peek
  cases c.entries.get? key <;> rfl

theorem ttlOf_eq_map :
    c.ttlOf key = (c.entries.get? key).map CacheEntry.ttl := by
  unfold ttlOf
  cases c.entries.get? key <;> rfl

theorem get?_invalidate {dropped : Option κ} :
    (c.invalidate dropped).entries.get? key =
    if dropped.all (· = key) then none else c.entries.get? key := by
  cases dropped with
  | none => rfl
  | some k =>
      rw [invalidate, OrderedDict.get?_erase]
      simp [eq_comm]

/-- A value is served as it was stored, or is what the compute gives. -/
theorem getOrCompute_eq_iff {call : CacheCall κ α ε} {answer : Answer α ε} :
    (c.getOrCompute call).2 = answer ↔ match answer with
      | .cached value => c.hit call.key call.now = some value
      | .computed result =>
          c.hit call.key call.now = none ∧ result = call.compute := by
  cases hhit : c.hit call.key call.now with
  | some value =>
      rw [getOrCompute_of_hit hhit]
      cases answer <;> simp
  | none =>
      have hcomputed : (c.getOrCompute call).2 = .computed call.compute := by
        cases hcompute : call.compute with
        | error e => rw [getOrCompute_of_raise hhit hcompute]
        | ok value => rw [getOrCompute_of_ok hhit hcompute]
      rw [hcomputed]
      cases answer <;> simp [eq_comm]

/-- The settings stay, and the entry of a key becomes what the exchange makes of
it. -/
theorem serve_spec (c : AdaptiveTtlCache κ α) (request : CacheRequest κ α ε)
    (key : κ) : (c.serve request).1.minTtl = c.minTtl ∧
    (c.serve request).1.durationFactor = c.durationFactor ∧
    (c.serve request).1.entries.get? key =
      (cacheEffect c.minTtl c.durationFactor key
        (request, (c.serve request).2)).apply
        (c.entries.get? key) := by
  cases request with
  | peek k => exact ⟨rfl, rfl, rfl⟩
  | ttlOf k => exact ⟨rfl, rfl, rfl⟩
  | invalidate dropped =>
      cases dropped with
      | none => exact ⟨rfl, rfl, rfl⟩
      | some k =>
          refine ⟨rfl, rfl, get?_invalidate.trans ?_⟩
          by_cases hk : k = key <;> simp [hk, cacheEffect, Effect.apply]
  | getOrCompute call =>
      refine ⟨minTtl_getOrCompute c call, durationFactor_getOrCompute c call,
        ?_⟩
      show (c.getOrCompute call).1.entries.get? key =
        (cacheEffect c.minTtl c.durationFactor key
        (.getOrCompute call, .answer (c.getOrCompute call).2)).apply
          (c.entries.get? key)
      cases hhit : c.hit call.key call.now with
      | some value =>
          rw [getOrCompute_of_hit hhit]
          rfl
      | none =>
          cases hcompute : call.compute with
          | error e =>
              rw [getOrCompute_of_raise hhit hcompute]
              rfl
          | ok value =>
              rw [getOrCompute_of_ok hhit hcompute]
              by_cases hk : call.key = key
              · subst hk
                simp [cacheEffect, Effect.apply, AdaptiveTtlCache.ttl]
              · rw [cacheEffect, if_neg hk]
                exact OrderedDict.get?_insert_of_ne (Ne.symm hk)

end

/-! ### Runs -/

section

variable {minTtl f : ℚ} {requests : List (CacheRequest κ α ε)}
    {request : CacheRequest κ α ε}

theorem served_concat (c : AdaptiveTtlCache κ α) :
    c.served (requests ++ [request]) = ((c.served requests).serve request).1 :=
  List.foldl_concat _ _ _ _

theorem exchanges_concat (c : AdaptiveTtlCache κ α) :
    c.exchanges (requests ++ [request]) =
    c.exchanges requests ++
      [(request, ((c.served requests).serve request).2)] := by
  induction requests generalizing c with
  | nil => rfl
  | cons first rest ih => exact congrArg _ (ih (c.serve first).1)

/-- The entries of a run are what its exchanges leave. -/
theorem served_spec (key : κ) :
    ((new minTtl f).served requests : AdaptiveTtlCache κ α).minTtl = minTtl ∧
    ((new minTtl f).served requests : AdaptiveTtlCache κ α).durationFactor = f ∧
    ((new minTtl f).served requests).entries.get? key =
      remains (cacheEffect minTtl f key)
        ((new minTtl f : AdaptiveTtlCache κ α).exchanges requests) := by
  induction requests using List.reverseRecOn with
  | nil => exact ⟨rfl, rfl, rfl⟩
  | append_singleton requests request ih =>
      obtain ⟨hmin, hf, hentry⟩ := ih
      obtain ⟨hmin', hf', hentry'⟩ :=
        serve_spec ((new minTtl f).served requests) request key
      rw [served_concat, exchanges_concat, remains_concat, ← hentry]
      rw [hmin, hf] at hentry'
      exact ⟨hmin'.trans hmin, hf'.trans hf, hentry'⟩

/-- The latest value of a key is that of its entry. -/
theorem latest_exchanges_iff {key : κ} {e : CacheEntry α} :
    Latest (cacheEffect minTtl f key) ((new minTtl f).exchanges requests) e ↔
      ((new minTtl f).served requests).entries.get? key = some e := by
  rw [latest_iff, (served_spec key).2.2]

/-- After a run, what may be returned is what the cache returns. -/
theorem answers_iff_of_serve {reply : CacheReply α ε} :
    Answers minTtl f ((new minTtl f).exchanges requests) request reply ↔
      reply = (((new minTtl f).served requests).serve request).2 := by
  generalize hc : (new minTtl f).served requests = c
  have hlatest :
      ∀ key e, Latest (cacheEffect minTtl f key)
      ((new minTtl f).exchanges requests) e ↔
      c.entries.get? key = some e := by
    intro key e
    rw [latest_exchanges_iff, hc]
  cases request with
  | invalidate dropped => cases reply <;> simp [Answers, serve]
  | peek key =>
      cases reply <;> simp [Answers, serve, hlatest, peek_eq_map, eq_map_iff]
  | ttlOf key =>
      cases reply <;> simp [Answers, serve, hlatest, ttlOf_eq_map, eq_map_iff]
  | getOrCompute call =>
      cases reply with
      | peeked _ | invalidated | lifetime _ => simp [Answers, serve]
      | answer answer =>
          have hserve :
              CacheReply.answer answer = (c.serve (.getOrCompute call)).2 ↔
              (c.getOrCompute call).2 = answer :=
            ⟨fun h => (CacheReply.answer.inj h).symm, fun h =>
              congrArg _ h.symm⟩
          rw [hserve, getOrCompute_eq_iff]
          cases answer with
          | cached value => simp [Answers, hlatest, hit_eq_some, and_comm]
          | computed result =>
              simp [Answers, hlatest, hit_eq_none, le_sub_iff_add_le', and_comm]

/-- **What the cache answers.**  The exchanges of a run are exactly those that
are answered from their past. -/
theorem answeredFromPast_iff (log : List (CacheExchange κ α ε)) :
    AnsweredFromPast minTtl f log ↔
      log = (new minTtl f).exchanges (log.map Prod.fst) := by
  induction log using List.reverseRecOn with
  | nil =>
      exact ⟨fun _ => rfl, fun _ past x rest h => by cases past <;> cases h⟩
  | append_singleton log x ih =>
      rw [List.map_append, List.map_singleton, exchanges_concat]
      constructor
      · intro h
        have hlog := ih.mp fun past y rest heq =>
          h past y (rest ++ [x]) (by rw [heq]; simp)
        have hx := h log x [] rfl
        rw [hlog, answers_iff_of_serve] at hx
        rw [← hlog]
        exact congrArg (fun y => log ++ [y]) (Prod.ext rfl hx)
      · intro h
        obtain ⟨hlog, hx⟩ := List.append_inj' h rfl
        intro past y rest heq
        rcases List.eq_nil_or_concat' rest with rfl | ⟨rest, z, rfl⟩
        · obtain ⟨rfl, hy⟩ := List.append_inj' heq rfl
          obtain rfl : x = y := by simpa using hy
          rw [hlog, answers_iff_of_serve]
          exact congrArg Prod.snd (List.singleton_inj.mp hx)
        · rw [← List.cons_append, ← List.append_assoc] at heq
          obtain ⟨rfl, -⟩ := List.append_inj' heq rfl
          exact ih.mpr hlog past y rest rfl

end

end Telemetryd
