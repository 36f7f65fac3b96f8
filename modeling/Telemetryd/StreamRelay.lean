import Telemetryd.Lib.Runs
import Mathlib.Data.List.Basic

/-!
# The relay between a stream and a browser

`_stream_ws` of the web server passes the items of an asynchronous generator on
to a WebSocket.  The browser never sends anything, so a second task only waits
for it to go away, and the handler races the next item against that task.  When
the browser has gone, the request for the next item is cancelled and awaited
before the generator is closed, since a generator that is still running cannot
be.

The handler, the two tasks and the generator take their steps in any order in
which the event loop can run them.
-/

namespace Telemetryd

universe u

variable {α : Type u}

/-- How the request for the next item has ended. -/
inductive NextOutcome (α : Type u) where
  | item (a : α)
  | stopped
  | failed
  | cancelled

/-- `next_task`.  A task that has been asked to stop is still pending. -/
inductive NextTask (α : Type u) where
  | pending
  | done (o : NextOutcome α)

/-- How the handler ends. -/
inductive HandlerResult where
  | returned
  | raised
  deriving DecidableEq

/-- Where the handler is: at `asyncio.wait`, at `await next_task`, in
`send_json`, at `await disconnect_task`, or through. -/
inductive HandlerPhase (α : Type u) where
  | racing
  | unwinding
  | sending (a : α)
  | finishing (r : HandlerResult)
  | ended (r : HandlerResult)

/-- The handler with its tasks.  `running` says that the generator is inside
`__anext__`, `closed` that it is exhausted or closed, `gone` that
`disconnect_task` is done.  `asked` counts the requests, and `produced` and
`sent` are the items that the generator has yielded and the browser has got. -/
structure Relay (α : Type u) where
  phase : HandlerPhase α
  next : NextTask α
  running : Bool
  closed : Bool
  gone : Bool
  asked : Nat
  produced : List α
  sent : List α

/-- The handler at its first `asyncio.wait`. -/
def Relay.initial : Relay α :=
  ⟨.racing, .pending, true, false, false, 1, [], []⟩

/-- What the event loop can do next. -/
inductive RelayEvent (α : Type u) where
  | settled (o : NextOutcome α)
  | disconnected
  | resumed
  | sendDone
  | sendDisconnected
  | sendFailed
  | killed

namespace Relay

/-- `__anext__` ends.  Only with an item can the generator go on. -/
def settled (o : NextOutcome α) (s : Relay α) : Relay α :=
  match s.next with
  | .done _ => s
  | .pending =>
      match o with
      | .item a => { s with next := .done o, running := false, produced := s.produced ++ [a] }
      | _ => { s with next := .done o, running := false, closed := true }

/-- The handler goes on after an `await`, if what it awaits is there.  At the
end `gen.aclose()` raises an error, which is caught, if the generator is
running. -/
def resumed (s : Relay α) : Relay α :=
  match s.phase with
  | .racing =>
      if s.gone then { s with phase := .unwinding }
      else
        match s.next with
        | .pending => s
        | .done (.item a) => { s with phase := .sending a }
        | .done .stopped => { s with phase := .finishing .returned }
        | .done _ => { s with phase := .finishing .raised }
  | .unwinding =>
      match s.next with
      | .pending => s
      | .done _ => { s with phase := .finishing .returned }
  | .sending _ => s
  | .finishing r =>
      { s with
        phase := .ended r
        gone := true
        closed := s.closed || !s.running }
  | .ended _ => s

/-- `send_json` returns, and the loop asks for the next item. -/
def sendDone (s : Relay α) : Relay α :=
  match s.phase with
  | .sending a =>
      { s with
        phase := .racing
        next := .pending
        running := true
        asked := s.asked + 1
        sent := s.sent ++ [a] }
  | _ => s

/-- `send_json` raises an error. -/
def sendRaises (r : HandlerResult) (s : Relay α) : Relay α :=
  match s.phase with
  | .sending _ => { s with phase := .finishing r }
  | _ => s

/-- The handler itself is cancelled.  At `asyncio.wait` and in `send_json` the
error goes to the `finally`.  At the other two awaits it is caught, and at the
first of them the request has been cancelled already. -/
def killed (s : Relay α) : Relay α :=
  match s.phase with
  | .racing => { s with phase := .finishing .raised }
  | .sending _ => { s with phase := .finishing .raised }
  | _ => s

/-- One event at the handler. -/
def step (s : Relay α) : RelayEvent α → Relay α
  | .settled o => s.settled o
  | .disconnected => { s with gone := true }
  | .resumed => s.resumed
  | .sendDone => s.sendDone
  | .sendDisconnected => s.sendRaises .returned
  | .sendFailed => s.sendRaises .raised
  | .killed => s.killed

/-- The handler after a run of events. -/
def after (es : List (RelayEvent α)) : Relay α := es.foldl step initial

/-! ### What every run keeps -/

/-- What the last request has brought and the browser has not got. -/
def unsent (s : Relay α) : List α :=
  match s.next with
  | .done (.item a) => [a]
  | _ => []

/-- The generator runs while a request is pending, all it has produced was
sent or is the item of the last request, and an item that is being sent is
that one. -/
structure Sound (s : Relay α) : Prop where
  running : s.running = true ↔ s.next = .pending
  items : s.produced = s.sent ++ s.unsent
  sending : ∀ a, s.phase = .sending a → s.next = .done (.item a)

/-- A handler that has just started is sound. -/
theorem sound_initial : (initial : Relay α).Sound :=
  ⟨⟨fun _ => rfl, fun _ => rfl⟩, rfl, fun _ h => nomatch h⟩

/-- A step of the handler that only moves it, not into `send_json`. -/
theorem Sound.move {s t : Relay α} (hs : s.Sound) (hnext : t.next = s.next)
    (hrun : t.running = s.running) (hprod : t.produced = s.produced)
    (hsent : t.sent = s.sent)
    (hphase : ∀ a, t.phase = .sending a → s.next = .done (.item a)) :
    t.Sound := by
  refine ⟨?_, ?_, fun a h => hnext.trans (hphase a h)⟩
  · rw [hrun, hnext]
    exact hs.running
  · unfold unsent
    rw [hprod, hsent, hnext]
    exact hs.items

/-- A result of the generator keeps it sound. -/
theorem sound_settled {s : Relay α} (hs : s.Sound) (o : NextOutcome α) :
    (s.settled o).Sound := by
  unfold settled
  cases hn : s.next with
  | done o' => exact hs
  | pending =>
      have hitems : s.produced = s.sent := by simpa [unsent, hn] using hs.items
      have hphase : ∀ a, s.phase ≠ .sending a := fun a h => by
        have := hs.sending a h
        rw [hn] at this
        cases this
      cases o with
      | item a => exact ⟨by simp, by simp [unsent, hitems], fun a h => absurd h (hphase a)⟩
      | stopped => exact ⟨by simp, by simp [unsent, hitems], fun a h => absurd h (hphase a)⟩
      | failed => exact ⟨by simp, by simp [unsent, hitems], fun a h => absurd h (hphase a)⟩
      | cancelled =>
          exact ⟨by simp, by simp [unsent, hitems], fun a h =>
            absurd h (hphase a)⟩

/-- So does going on after one. -/
theorem sound_resumed {s : Relay α} (hs : s.Sound) : s.resumed.Sound := by
  unfold resumed
  split
  · split
    · exact hs.move rfl rfl rfl rfl fun _ h => nomatch h
    · split
      · exact hs
      · rename_i a hn
        refine hs.move rfl rfl rfl rfl fun b h => ?_
        obtain rfl : a = b := by simpa using h
        exact hn
      · exact hs.move rfl rfl rfl rfl fun _ h => nomatch h
      · exact hs.move rfl rfl rfl rfl fun _ h => nomatch h
  · split
    · exact hs
    · exact hs.move rfl rfl rfl rfl fun _ h => nomatch h
  · exact hs
  · exact hs.move rfl rfl rfl rfl fun _ h => nomatch h
  · exact hs

/-- So does a send that is done. -/
theorem sound_sendDone {s : Relay α} (hs : s.Sound) : s.sendDone.Sound := by
  unfold sendDone
  split
  · rename_i a hp
    refine ⟨by simp, ?_, fun _ h => nomatch h⟩
    have := hs.items
    simp only [unsent, hs.sending a hp] at this
    simpa [unsent] using this
  · exact hs

/-- **One event** keeps the handler sound. -/
theorem sound_step {s : Relay α} (hs : s.Sound) (e : RelayEvent α) :
    (s.step e).Sound := by
  cases e with
  | settled o => exact sound_settled hs o
  | disconnected => exact hs.move rfl rfl rfl rfl hs.sending
  | resumed => exact sound_resumed hs
  | sendDone => exact sound_sendDone hs
  | sendDisconnected | sendFailed =>
      simp only [step, sendRaises]
      split
      · exact hs.move rfl rfl rfl rfl fun _ h => nomatch h
      · exact hs
  | killed =>
      simp only [step, killed]
      split
      · exact hs.move rfl rfl rfl rfl fun _ h => nomatch h
      · exact hs.move rfl rfl rfl rfl fun _ h => nomatch h
      · exact hs

/-- The handler is sound after all events. -/
theorem sound_after (es : List (RelayEvent α)) : (after es).Sound := by
  have h : Runs.Always step Sound (initial : Relay α) es :=
    Runs.always_of_step (fun _ h => h) (fun _ e hs =>
      sound_step hs e) es sound_initial
  exact h.last

/-! ### After the browser has gone -/

/-- What the browser will have got once the send that is under way is over. -/
def owed (s : Relay α) : List α :=
  match s.phase with
  | .sending a => s.sent ++ [a]
  | _ => s.sent

/-- The requests that will have been made then. -/
def owedRequests (s : Relay α) : Nat :=
  match s.phase with
  | .sending _ => s.asked + 1
  | _ => s.asked

/-- Once the browser has gone, no send begins. -/
theorem owed_step {s : Relay α} (hg : s.gone = true) (e : RelayEvent α) :
    (s.step e).gone = true ∧ (s.step e).owed <+: s.owed ∧
      (s.step e).owedRequests ≤ s.owedRequests := by
  cases e with
  | settled o =>
      simp only [step, settled]
      split
      · exact ⟨hg, List.prefix_rfl, Nat.le_refl _⟩
      · cases o <;> exact ⟨hg, List.prefix_rfl, Nat.le_refl _⟩
  | disconnected => exact ⟨rfl, List.prefix_rfl, Nat.le_refl _⟩
  | resumed =>
      simp only [step, resumed]
      split
      · rename_i hp
        simp [hg, owed, owedRequests, hp]
      · rename_i hp
        split <;> simp [hg, owed, owedRequests, hp]
      · exact ⟨hg, List.prefix_rfl, Nat.le_refl _⟩
      · rename_i hp
        simp [owed, owedRequests, hp]
      · exact ⟨hg, List.prefix_rfl, Nat.le_refl _⟩
  | sendDone =>
      simp only [step, sendDone]
      split
      · rename_i hp
        simp [hg, owed, owedRequests, hp]
      · exact ⟨hg, List.prefix_rfl, Nat.le_refl _⟩
  | sendDisconnected | sendFailed =>
      simp only [step, sendRaises]
      split
      · rename_i hp
        simp [hg, owed, owedRequests, hp]
      · exact ⟨hg, List.prefix_rfl, Nat.le_refl _⟩
  | killed =>
      simp only [step, killed]
      split
      · rename_i hp
        simp [hg, owed, owedRequests, hp]
      · rename_i hp
        simp [hg, owed, owedRequests, hp]
      · exact ⟨hg, List.prefix_rfl, Nat.le_refl _⟩

/-- Once the browser has gone, no more is owed. -/
theorem owed_foldl {s : Relay α} (hg : s.gone = true)
    (es : List (RelayEvent α)) :
    (es.foldl step s).owed <+: s.owed ∧
      (es.foldl step s).owedRequests ≤ s.owedRequests := by
  induction es generalizing s with
  | nil => exact ⟨List.prefix_rfl, Nat.le_refl _⟩
  | cons e es ih =>
      obtain ⟨hg', hpre, hle⟩ := owed_step hg e
      obtain ⟨hpre', hle'⟩ := ih hg'
      exact ⟨hpre'.trans hpre, Nat.le_trans hle' hle⟩

/-- What was sent was owed. -/
theorem sent_prefix_owed (s : Relay α) :
    s.sent <+: s.owed ∧ s.asked ≤ s.owedRequests := by
  unfold owed owedRequests
  split
  · exact ⟨List.prefix_append _ _, Nat.le_succ _⟩
  · exact ⟨List.prefix_rfl, Nat.le_refl _⟩

/-! ### At the end -/

/-- Once the handler is past its loop, the request is over; once it is through,
the other task is over too and the generator is closed. -/
structure Tidy (s : Relay α) : Prop where
  finishing : ∀ r, s.phase = .finishing r → s.running = false
  ended : ∀ r, s.phase = .ended r → s.running = false ∧ s.closed = true ∧
    s.gone = true

/-- The handler is cancelled while a request is pending that it has not
cancelled. -/
def KilledWaiting (s : Relay α) : RelayEvent α → Prop
  | .killed =>
      match s.phase with
      | .racing => s.running = true
      | _ => False
  | _ => False

/-- With a result at hand the generator does not run. -/
theorem Sound.not_running {s : Relay α} (hs : s.Sound) {o : NextOutcome α}
    (h : s.next = .done o) : s.running = false := by
  refine Bool.eq_false_iff.mpr fun hr => ?_
  rw [hs.running.mp hr] at h
  cases h

/-- A result of the generator keeps the handler tidy. -/
theorem tidy_settled {s : Relay α} (hs : s.Sound) (ht : s.Tidy)
    (o : NextOutcome α) :
    (s.settled o).Tidy := by
  unfold settled
  cases hn : s.next with
  | done o' => exact ht
  | pending =>
      have hrun := hs.running.mpr hn
      have hover : ∀ r, s.phase ≠ .ended r := fun r h => by
        simp [(ht.ended r h).1] at hrun
      cases o <;> exact ⟨fun _ _ => rfl, fun r h => absurd h (hover r)⟩

/-- So does going on after one. -/
theorem tidy_resumed {s : Relay α} (hs : s.Sound) (ht : s.Tidy) :
    s.resumed.Tidy := by
  unfold resumed
  split
  · split
    · exact ⟨(fun _ h => nomatch h), fun _ h => nomatch h⟩
    · split
      · exact ht
      · exact ⟨(fun _ h => nomatch h), fun _ h => nomatch h⟩
      · rename_i hn
        exact ⟨fun _ _ => hs.not_running hn, fun _ h => nomatch h⟩
      · rename_i hn
        exact ⟨fun _ _ => hs.not_running hn, fun _ h => nomatch h⟩
  · split
    · exact ht
    · rename_i hn
      exact ⟨fun _ _ => hs.not_running hn, fun _ h => nomatch h⟩
  · exact ht
  · rename_i r hp
    have hrun := ht.finishing r hp
    exact ⟨fun _ h => (nomatch h), fun _ _ => ⟨hrun, by simp [hrun], rfl⟩⟩
  · exact ht

/-- So does any event, unless it kills the handler while it waits. -/
theorem tidy_step {s : Relay α} (hs : s.Sound) (ht : s.Tidy) {e : RelayEvent α}
    (hno : ¬ s.KilledWaiting e) : (s.step e).Tidy := by
  cases e with
  | settled o => exact tidy_settled hs ht o
  | disconnected =>
      exact ⟨ht.finishing, fun r h =>
        ⟨(ht.ended r h).1, (ht.ended r h).2.1, rfl⟩⟩
  | resumed => exact tidy_resumed hs ht
  | sendDone =>
      simp only [step, sendDone]
      split
      · exact ⟨(fun _ h => nomatch h), fun _ h => nomatch h⟩
      · exact ht
  | sendDisconnected | sendFailed =>
      simp only [step, sendRaises]
      split
      · rename_i a hp
        exact ⟨fun _ _ => hs.not_running (hs.sending a hp), fun _ h =>
          nomatch h⟩
      · exact ht
  | killed =>
      simp only [step, killed]
      split
      · rename_i hp
        refine ⟨fun _ _ => Bool.eq_false_iff.mpr fun hrun => hno ?_, fun _ h =>
          nomatch h⟩
        simpa [KilledWaiting, hp] using hrun
      · rename_i a hp
        exact ⟨fun _ _ => hs.not_running (hs.sending a hp), fun _ h =>
          nomatch h⟩
      · exact ht

/-- The browser gets the items in the order in which they are produced, and at
most the last one is kept from it.  Once it has gone, what is being sent is the
last thing sent, and one more request at most is made. -/
theorem relayed (es : List (RelayEvent α)) :
    (after es).sent <+: (after es).produced ∧
    (after es).produced.length ≤ (after es).sent.length + 1 ∧
    ((after es).gone = true → ∀ fs,
      (after (es ++ fs)).sent <+: (after es).owed ∧
        (after (es ++ fs)).asked ≤ (after es).asked + 1) := by
  have hs := sound_after es
  refine ⟨hs.items ▸ List.prefix_append _ _, ?_, fun hg fs => ?_⟩
  · rw [hs.items, List.length_append]
    unfold unsent
    split <;> simp
  · have hfold : after (es ++ fs) = fs.foldl step (after es) :=
      List.foldl_append
    obtain ⟨hpre, hle⟩ := owed_foldl hg fs
    obtain ⟨hpre', hle'⟩ := sent_prefix_owed (fs.foldl step (after es))
    rw [hfold]
    refine ⟨hpre'.trans hpre, Nat.le_trans hle' (Nat.le_trans hle ?_)⟩
    unfold owedRequests
    split <;> omega

/-- If the handler is not cancelled while a request is pending, it leaves
nothing behind: when it is through, no request is pending, the other task is
over, and the generator is closed. -/
theorem closed_of_over (es : List (RelayEvent α))
    (hkill : Runs.Each step (fun s e => ¬ s.KilledWaiting e) initial es)
    (r : HandlerResult)
    (hover : (after es).phase = .ended r) :
    (after es).running = false ∧ (after es).closed = true ∧
      (after es).gone = true := by
  have h : Runs.Always step (fun s => s.Sound ∧ s.Tidy)
      (initial : Relay α) es :=
    Runs.always_of_each (fun _ h => h)
      (fun _ _ hs hno => ⟨sound_step hs.1 _, tidy_step hs.1 hs.2 hno⟩)
      ⟨sound_initial, (fun _ h => nomatch h), fun _ h => nomatch h⟩ hkill
  exact h.last.2.ended r hover

/-- A browser that goes away while the second item is awaited. -/
theorem closed_of_over_gone :
    let es : List (RelayEvent Nat) :=
  [.settled (.item 7), .resumed, .sendDone, .disconnected,
      .resumed, .settled .cancelled, .resumed, .resumed]
    (after es).running = false ∧ (after es).closed = true ∧
      (after es).gone = true :=
  closed_of_over [.settled (.item 7), .resumed, .sendDone, .disconnected,
    .resumed,
    .settled .cancelled, .resumed, .resumed] (by
      simp [Runs.Each, KilledWaiting]) .returned rfl

end Relay

end Telemetryd
