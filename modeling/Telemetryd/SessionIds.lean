import Mathlib.Data.Finset.Card
import Telemetryd.Lib.JsonValue
import Telemetryd.Lib.WhileLoop
import Telemetryd.Targets

/-!
# Fresh session ids

`_session_id` makes the id of a session from the local time and the pid.  If
that is in use, it puts the start time of the process behind it, and if that is
in use as well, a number that it counts up until the id is free.

Ids in use may come from a state file, so they are any texts, with surrogates
too.  Since the candidates are pairwise different, a finite set does not have
all of them, and the loop returns.
-/

namespace Telemetryd

open PyText

/-! ### The loop -/

/-- `time.localtime()`, as far as an id shows it. -/
structure StructTime where
  year : Int
  month : Nat
  day : Nat
  hour : Nat
  minute : Nat
  second : Nat

/-- A month, a day, an hour, a minute or a second. -/
def twoDigits (n : Nat) : PyText := (ofNat n).leftpad 2 '0'

/-- `time.strftime('%Y%m%d_%H%M%S', t)` -/
def StructTime.strftime (t : StructTime) : PyText :=
  ofInt t.year ++ twoDigits t.month ++ twoDigits t.day ++
    '_' :: (twoDigits t.hour ++ twoDigits t.minute ++ twoDigits t.second)

/-- One round of the loop of `_session_id`, with the next number and the
candidate. -/
def candidateRound (stem : PyText) (taken : Finset JsonText)
    (s : Nat × PyText) :
    (Nat × PyText) ⊕ PyText :=
  if JsonText.ofText s.2 ∈ taken then .inl (s.1 + 1, stem ++ '_' :: ofNat s.1)
    else .inr s.2

/-- `_session_id` returns an id, given a set of texts or `None`. -/
def SessionIdReturns (stamp : PyText) (pid startNs : Int)
    (taken : Option (Finset JsonText))
    (sid : PyText) : Prop :=
  let base := sessionIdBase stamp pid
  match taken with
  | none => sid = base
  | some taken =>
      if JsonText.ofText base ∉ taken then sid = base
      else
        let stem := base ++ '_' :: hex 4 (startNs % 65536)
        WhileLoop.Returns (candidateRound stem taken) (2, stem) sid

/-! ### The candidates -/

/-- What the loop tries, in its order. -/
def candidateId (stem : PyText) : Nat → PyText
  | 0 => stem
  | i + 1 => stem ++ '_' :: ofNat (i + 2)

theorem candidateId_injective (stem : PyText) :
    Function.Injective (candidateId stem) := by
  have hlonger : ∀ i, candidateId stem (i + 1) ≠ stem := by
    intro i h
    have hlen := congrArg List.length h
    rw [candidateId, List.length_append, List.length_cons] at hlen
    omega
  intro i j h
  cases i with
  | zero =>
      cases j with
      | zero => rfl
      | succ j => exact absurd h.symm (hlonger j)
  | succ i =>
      cases j with
      | zero => exact absurd h (hlonger i)
      | succ j =>
          have htail := List.append_cancel_left h
          have hnumber := ofNat_injective (List.cons.inj htail).2
          omega

variable {stem : PyText} {taken : Finset JsonText}

/-- There are not more taken candidates than taken texts. -/
theorem le_card_of_taken {i : Nat}
    (h : ∀ j < i, JsonText.ofText (candidateId stem j) ∈ taken) :
    i ≤ taken.card := by
  have hinj : Function.Injective fun j =>
      JsonText.ofText (candidateId stem j) :=
    JsonText.ofText_injective.comp (candidateId_injective stem)
  have hcard := Finset.card_le_card_of_injOn (s := Finset.range i) _
    (fun j hj => h j (Finset.mem_range.mp hj)) hinj.injOn
  rwa [Finset.card_range] at hcard

/-- The loop is at some candidate, and those before it are taken. -/
def Tried (stem : PyText) (taken : Finset JsonText) (s : Nat × PyText) : Prop :=
  ∃ i, s = (i + 2, candidateId stem i) ∧
    ∀ j < i, JsonText.ofText (candidateId stem j) ∈ taken

theorem tried_start (stem : PyText) (taken : Finset JsonText) :
    Tried stem taken (2, stem) :=
  ⟨0, rfl, fun _ hj => absurd hj (Nat.not_lt_zero _)⟩

/-- The candidates that can still be taken. -/
def candidatesLeft (taken : Finset JsonText) (s : Nat × PyText) : Nat :=
  taken.card + 2 - s.1

/-- **One round.**  Another candidate is taken, and the next one is tried. -/
theorem tried_goOn {s s' : Nat × PyText} (hs : Tried stem taken s)
    (h : candidateRound stem taken s = .inl s') :
    Tried stem taken s' ∧ candidatesLeft taken s' < candidatesLeft taken s := by
  obtain ⟨i, rfl, htried⟩ := hs
  unfold candidateRound at h
  split at h
  case isTrue htaken =>
    obtain rfl := Sum.inl.inj h
    have hnext : ∀ j < i + 1, JsonText.ofText (candidateId stem j) ∈ taken := by
      intro j hj
      rcases Nat.lt_succ_iff_lt_or_eq.mp hj with hlt | rfl
      · exact htried j hlt
      · exact htaken
    have hcard := le_card_of_taken hnext
    refine ⟨⟨i + 1, rfl, hnext⟩, ?_⟩
    unfold candidatesLeft
    omega
  case isFalse => cases h

theorem notMem_of_leave {s : Nat × PyText} {sid : PyText}
    (h : candidateRound stem taken s = .inr sid) :
    JsonText.ofText sid ∉ taken := by
  unfold candidateRound at h
  split at h
  case isTrue => cases h
  case isFalse hfree =>
    obtain rfl := Sum.inr.inj h
    exact hfree

theorem returns_of_free {stamp : PyText} {pid startNs : Int}
    (hfree : JsonText.ofText (sessionIdBase stamp pid) ∉ taken) (sid : PyText) :
    SessionIdReturns stamp pid startNs (some taken) sid ↔
      sid = sessionIdBase stamp pid := by
  unfold SessionIdReturns
  dsimp only
  rw [if_pos hfree]

theorem returns_of_taken {stamp : PyText} {pid : Int}
    (htaken : JsonText.ofText (sessionIdBase stamp pid) ∈ taken) (startNs : Int)
    (sid : PyText) :
    SessionIdReturns stamp pid startNs (some taken) sid ↔
      let stem := sessionIdBase stamp pid ++ '_' :: hex 4 (startNs % 65536)
      WhileLoop.Returns (candidateRound stem taken) (2, stem) sid := by
  unfold SessionIdReturns
  dsimp only
  rw [if_neg (not_not.mpr htaken)]

/-- **The loop returns**, with an id that is not taken. -/
theorem candidates_return (stem : PyText) (taken : Finset JsonText) :
    ∃ sid, (∀ out, WhileLoop.Returns (candidateRound stem taken) (2, stem) out ↔
      out = sid) ∧
      JsonText.ofText sid ∉ taken :=
  WhileLoop.exists_returns (candidatesLeft taken) (fun _ _ hs h =>
    tried_goOn hs h)
    (fun _ _ _ h => notMem_of_leave h) (tried_start stem taken)

/-- **Fresh ids.**  Whatever texts are taken, `_session_id` returns, and with an
id that is none of them; it is the plain one if that is free. -/
theorem session_id_returns_fresh (now : StructTime) (pid startNs : Int)
    (taken : Finset JsonText) :
    ∃ sid, (∀ out, SessionIdReturns now.strftime pid startNs (some taken) out ↔
      out = sid) ∧
      JsonText.ofText sid ∉ taken ∧
      (JsonText.ofText (sessionIdBase now.strftime pid) ∉ taken →
        sid = sessionIdBase now.strftime pid) := by
  by_cases hfree : JsonText.ofText (sessionIdBase now.strftime pid) ∉ taken
  · exact ⟨_, returns_of_free hfree, hfree, fun _ => rfl⟩
  · obtain ⟨sid, hreturns, hnew⟩ := candidates_return
      (sessionIdBase now.strftime pid ++ '_' :: hex 4 (startNs % 65536)) taken
    refine ⟨sid, fun out => ?_, hnew, fun h => absurd h hfree⟩
    exact (returns_of_taken (not_not.mp hfree) startNs out).trans (hreturns out)

/-! ### The id of a new session -/

/-- A set of texts without surrogates. -/
def textSet (texts : List PyText) : Finset JsonText :=
  (texts.map JsonText.ofText).toFinset

@[simp] theorem mem_textSet {texts : List PyText} {t : PyText} :
    JsonText.ofText t ∈ textSet texts ↔ t ∈ texts := by
  rw [textSet, List.mem_toFinset,
    List.mem_map_of_injective JsonText.ofText_injective]

theorem card_textSet_le (texts : List PyText) :
    (textSet texts).card ≤ texts.length := by
  simpa [textSet] using List.toFinset_card_le (texts.map JsonText.ofText)

/-- A round depends on the texts without surrogates only. -/
theorem candidateRound_congr {taken' : Finset JsonText}
    (h : ∀ t, JsonText.ofText t ∈ taken ↔ JsonText.ofText t ∈ taken') :
    candidateRound stem taken = candidateRound stem taken' := by
  funext s
  unfold candidateRound
  simp only [h s.2]

section

variable {texts : List PyText}
    (hmem : ∀ t, JsonText.ofText t ∈ taken ↔ t ∈ texts)

include hmem

/-- Rounds of the loop, and the loop with a bound on its rounds. -/
theorem sessionIdLoop_of_run {rounds n : Nat} {candidate sid : PyText}
    (h : WhileLoop.run (candidateRound stem taken) rounds (n, candidate) =
      some sid) :
    sessionIdLoop stem texts rounds n candidate = sid := by
  induction rounds generalizing n candidate with
  | zero => cases h
  | succ rounds ih =>
      unfold sessionIdLoop
      by_cases htaken : candidate ∈ texts
      · have hbody : candidateRound stem taken (n, candidate)
            = .inl (n + 1, stem ++ '_' :: ofNat n) :=
              if_pos ((hmem candidate).mpr htaken)
        rw [WhileLoop.run_goOn hbody] at h
        rw [if_pos htaken]
        exact ih h
      · have hbody : candidateRound stem taken (n, candidate) =
            .inr candidate :=
          if_neg fun h => htaken ((hmem candidate).mp h)
        rw [WhileLoop.run_leave hbody] at h
        rw [if_neg htaken]
        exact Option.some.inj h

/-- **The bound is large enough**: one round for each taken text, and the last
one. -/
theorem returns_sessionIdLoop (stem : PyText) :
    WhileLoop.Returns (candidateRound stem taken) (2, stem)
      (sessionIdLoop stem texts (texts.length + 1) 2 stem) := by
  have hsame : ∀ t, JsonText.ofText t ∈ taken ↔
      JsonText.ofText t ∈ textSet texts :=
    fun t => (hmem t).trans mem_textSet.symm
  have hcard := card_textSet_le texts
  have hrounds : candidatesLeft (textSet texts) (2, stem) <
      texts.length + 1 := by
    unfold candidatesLeft
    omega
  obtain ⟨sid, hsid⟩ := WhileLoop.exists_run _ (fun _ _ hs h => tried_goOn hs h)
    (tried_start stem (textSet texts)) hrounds
  rw [← candidateRound_congr hsame] at hsid
  rw [sessionIdLoop_of_run hmem hsid]
  exact WhileLoop.returns_iff_run.mpr ⟨_, hsid⟩

/-- **What `_session_id` returns** in the registry. -/
theorem sessionIdReturns_iff (stamp : PyText) (pid startNs : Int)
    (sid : PyText) :
    SessionIdReturns stamp pid startNs (some taken) sid ↔
      sid = sessionId stamp pid startNs (some texts) := by
  unfold sessionId
  dsimp only
  by_cases hfree : sessionIdBase stamp pid ∉ texts
  · rw [if_pos hfree, returns_of_free (mt (hmem _).mp hfree)]
  · rw [if_neg hfree, returns_of_taken ((hmem _).mpr (not_not.mp hfree))]
    have hreturns := returns_sessionIdLoop hmem
      (sessionIdBase stamp pid ++ '_' :: hex 4 (startNs % 65536))
    exact ⟨fun h => h.unique hreturns, fun h => h ▸ hreturns⟩

end

theorem notMem_of_returns {stamp : PyText} {pid startNs : Int} {sid : PyText}
    (h : SessionIdReturns stamp pid startNs (some taken) sid) :
    JsonText.ofText sid ∉ taken := by
  by_cases hfree : JsonText.ofText (sessionIdBase stamp pid) ∉ taken
  · obtain rfl := (returns_of_free hfree sid).mp h
    exact hfree
  · have hloop := (returns_of_taken (not_not.mp hfree) startNs sid).mp h
    exact hloop.of_invariant (I := fun _ => True) trivial (fun _ _ _ _ =>
      trivial)
      (fun _ _ _ hleave => notMem_of_leave hleave)

/-- An id that is not taken. -/
theorem sessionId_notMem (stamp : PyText) (pid startNs : Int)
    (taken : List PyText) :
    sessionId stamp pid startNs (some taken) ∉ taken := by
  have hreturns :=
    (sessionIdReturns_iff (fun t =>
    @mem_textSet taken t) stamp pid startNs _).mpr rfl
  exact mt mem_textSet.mpr (notMem_of_returns hreturns)

/-- **The id of a new session** is the one that `_session_id` returns for the
ids in use. -/
theorem openSession_id (plug : Plugins) (clock : Clock) (proc : ProcessInfo)
    (rule : TargetRule)
    (s : Store) :
    SessionIdReturns (clock.strftime proc.pid) proc.pid proc.startTimeNs
      (some (textSet s.reg.sessions.keys))
        (openSession plug clock proc rule s).2 := by
  have hmem : ∀ t, JsonText.ofText t ∈ textSet s.reg.sessions.keys ↔
      t ∈ (closeReused clock.timeNs proc s.reg.sessions).keys := by
    intro t
    rw [mem_textSet, closeReused, OrderedDict.keys_mapValues]
  exact (sessionIdReturns_iff hmem _ _ _ _).mpr rfl

end Telemetryd
