import Telemetryd.TargetSessions

/-!
# What a refresh does to a session

A session is in memory after a refresh for one of three reasons.  It observes a
matched process and was in memory before: it is brought up to date.  It
observes a matched process met for the first time: it is opened and brought up
to date.  Or it observes no matched process: it is ended if it was active and
otherwise left as it was.  Two places of the source end sessions, one for a pid
that is reused and one for a process that has gone; which of them it was makes
no difference.
-/

namespace Telemetryd

open PyText

variable {plug : Plugins} {clock : Clock} {processes : List ProcessInfo}
  {stats : List ProcessIoStat} {s : Store}

/-- End the session if it is active. -/
def Session.conclude (now : Int) (sess : Session) : Session :=
  if sess.status = .active then sess.finish now else sess

/-- The end of a session is no part of its core. -/
theorem core_conclude (now : Int) (sess : Session) :
    (sess.conclude now).core = sess.core := by
  unfold Session.conclude
  split <;> rfl

/-- A session ends once. -/
theorem conclude_conclude (now : Int) (sess : Session) :
    (sess.conclude now).conclude now = sess.conclude now := by
  unfold Session.conclude
  split
  · simp [Session.finish]
  · rfl

/-- A session that has ended is finished. -/
theorem status_conclude (now : Int) (sess : Session) :
    (sess.conclude now).status = .finished := by
  unfold Session.conclude
  split
  · rfl
  · next h =>
    cases hst : sess.status with
    | active => exact absurd hst h
    | finished => rfl

/-- No session of `s` observes the process. -/
def Store.Unmet (s : Store) (p : ProcessInfo) : Prop :=
  ∀ k old, s.reg.sessions.get? k = some old → old.core.identity ≠ p.identity

/-- The session a process is observed in: one that is in memory, or a new one
if there is none. -/
def Store.Base (plug : Plugins) (now : Int) (s : Store) (p : ProcessInfo)
    (rule : TargetRule)
    (sid : PyText) (base : Session) : Prop :=
  (s.reg.sessions.get? sid = some base ∧ base.core.identity = p.identity) ∨
    (base = newSession plug now sid p rule ∧ s.Unmet p)

/-- The session is one of the process. -/
theorem Store.Base.identity {plug : Plugins} {now : Int} {s : Store}
    {p : ProcessInfo}
    {rule : TargetRule} {sid : PyText} {base : Session}
    (h : s.Base plug now p rule sid base) :
    base.core.identity = p.identity := by
  rcases h with ⟨-, hident⟩ | ⟨rfl, -⟩
  · exact hident
  · rfl

/-! ### One matched process -/

/-- What closing the sessions of a pid leaves. -/
theorem get?_closeReused (now : Int) (proc : ProcessInfo)
    (sessions : OrderedDict PyText Session) (k : PyText) :
    ∀ sess, (closeReused now proc sessions).get? k = some sess →
      ∃ old, sessions.get? k = some old ∧
        (sess = old ∨ (sess = old.conclude now ∧ old.pid = proc.pid)) := by
  intro sess h
  rw [closeReused, OrderedDict.get?_mapValues, Option.map_eq_some_iff] at h
  obtain ⟨old, hold, rfl⟩ := h
  refine ⟨old, hold, ?_⟩
  by_cases hc : old.pid = proc.pid ∧ old.status = .active ∧
    old.startTimeNs ≠ proc.startTimeNs
  · right
    rw [if_pos hc]
    exact ⟨by simp [Session.conclude, hc.2.1], hc.1⟩
  · left
    rw [if_neg hc]

/-- How the session of a process is found, and what that does to the others. -/
theorem sessionFor_base (plug : Plugins) (clock : Clock) (proc : ProcessInfo)
    (rule : TargetRule)
    (hs : s.Good) :
    let out := sessionFor plug clock proc rule s
    ∃ base, out.1.reg.sessions.get? out.2 = some base ∧
      s.Base plug clock.timeNs proc rule out.2 base ∧
      ∀ k sess, k ≠ out.2 → out.1.reg.sessions.get? k = some sess →
        ∃ old, s.reg.sessions.get? k = some old ∧
          old.core.identity ≠ proc.identity ∧
          (sess = old ∨
            (sess = old.conclude clock.timeNs ∧ old.pid = proc.pid)) := by
  cases hid : s.reg.byIdentity.get? proc.identity with
  | none =>
      have hunmet : s.Unmet proc := by
        intro k old hk heq
        cases hid.symm.trans ((hs.valid.byIdentity_iff hk).mpr heq)
      rw [sessionFor_of_unknown hid]
      refine ⟨_, OrderedDict.get?_insert_self _ _ _, Or.inr ⟨rfl, hunmet⟩, ?_⟩
      intro k sess hk hsess
      have hclosed : (closeReused clock.timeNs proc s.reg.sessions).get? k =
          some sess :=
        (OrderedDict.get?_insert_of_ne hk).symm.trans hsess
      obtain ⟨old, hold, hrest⟩ := get?_closeReused _ _ _ _ _ hclosed
      exact ⟨old, hold, hunmet k old hold, hrest⟩
  | some sid =>
      obtain ⟨base, hbase, hident⟩ := hs.valid.exists_of_byIdentity hid
      rw [sessionFor_of_known hid hbase]
      refine ⟨base, hbase, Or.inl ⟨hbase, hident⟩, ?_⟩
      intro k sess hk hsess
      refine ⟨sess, hsess, ?_, Or.inl rfl⟩
      intro heq
      exact hk (hs.valid.id_eq_of_identity hsess hbase (heq.trans hident.symm))

/-- **One matched process**: its session is brought up to date, another one may
be ended if it has the same pid. -/
theorem refreshTarget_cases (plug : Plugins) (clock : Clock)
    {byPid : OrderedDict Int ProcessInfo} (stats : List ProcessIoStat)
    {acc : Store × List PyText} {hit : Int × TargetRule} {proc : ProcessInfo}
    (hs : acc.1.Good)
    (hproc : byPid.get? hit.1 = some proc) {sid : PyText} {sess : Session}
    (h : (refreshTarget plug clock byPid stats acc hit).1.reg.sessions.get?
      sid = some sess) :
    (∃ base, sess = observe plug proc hit.2 (statsOf stats hit.1) base ∧
      acc.1.Base plug clock.timeNs proc hit.2 sid base) ∨
    (∃ old, acc.1.reg.sessions.get? sid = some old ∧
      old.core.identity ≠ proc.identity ∧
      (sess = old ∨
        (sess = old.conclude clock.timeNs ∧ old.pid = proc.pid))) := by
  obtain ⟨base, hbase, hkind, hothers⟩ :=
    sessionFor_base plug clock proc hit.2 hs
  have hout : (refreshTarget plug clock byPid stats acc hit).1.reg.sessions
      = (sessionFor plug clock proc hit.2 acc.1).1.reg.sessions.insert
          (sessionFor plug clock proc hit.2 acc.1).2
          (observe plug proc hit.2 (statsOf stats hit.1) base) := by
    simp [refreshTarget, hproc, hbase]
  rw [hout] at h
  by_cases hsid : sid = (sessionFor plug clock proc hit.2 acc.1).2
  · subst hsid
    rw [OrderedDict.get?_insert_self] at h
    exact Or.inl ⟨base, (Option.some.inj h).symm, hkind⟩
  · rw [OrderedDict.get?_insert_of_ne hsid] at h
    exact Or.inr (hothers sid sess hsid h)

/-! ### The loop over the matched processes -/

/-- The session a process is observed in is not changed for a process with
another pid. -/
theorem Store.Base.before_refreshTarget {plug : Plugins} {clock : Clock}
    {byPid : OrderedDict Int ProcessInfo} {stats : List ProcessIoStat}
    {acc : Store × List PyText} {hit : Int × TargetRule} {p q : ProcessInfo}
    (hs : acc.1.Good)
    (hp : byPid.get? hit.1 = some p) (hpids : p.pid ≠ q.pid) {rule : TargetRule}
    {sid : PyText}
    {base : Session}
    (h : (refreshTarget plug clock byPid stats acc hit).1.Base plug clock.timeNs
      q rule sid base) :
    acc.1.Base plug clock.timeNs q rule sid base := by
  obtain ⟨k, -, hgrow, -, -, -⟩ := refreshTarget_spec plug clock stats hs hp
  rcases h with ⟨hget, hident⟩ | ⟨hnew, hunmet⟩
  · have hbpid : base.pid = q.pid := congrArg Prod.fst hident
    rcases refreshTarget_cases plug clock stats hs hp hget with
      ⟨b, rfl, hb⟩ | ⟨old, hold, -, rfl | ⟨rfl, hopid⟩⟩
    · have hpid : b.pid = p.pid := congrArg Prod.fst hb.identity
      exact absurd (hpid.symm.trans hbpid) hpids
    · exact Or.inl ⟨hold, hident⟩
    · have hsame : (old.conclude clock.timeNs).pid = old.pid :=
        congrArg SessionCore.pid (core_conclude _ _)
      exact absurd (hopid.symm.trans (hsame.symm.trans hbpid)) hpids
  · refine Or.inr ⟨hnew, ?_⟩
    intro k old hk heq
    have hcore := hgrow.cores.subset (hs.valid.core_mem hk).1
    obtain ⟨later, hlater, hcl⟩ := hgrow.good.valid.exists_session hcore
    exact hunmet _ later hlater (by rw [hcl]; exact heq)

/-- **The loop**: a session is that of a matched process, brought up to date
from what it was before the loop, or it is of no matched process. -/
theorem foldl_refreshTarget_cases (plug : Plugins) (clock : Clock)
    {byPid : OrderedDict Int ProcessInfo} (stats : List ProcessIoStat)
    (hits : List (Int × TargetRule)) :
    ∀ acc : Store × List PyText, acc.1.Good → (hits.map Prod.fst).Nodup →
      (∀ hit ∈ hits, ∃ p, byPid.get? hit.1 = some p ∧ p.pid = hit.1) →
      ∀ sid sess, (hits.foldl (refreshTarget plug clock byPid stats)
        acc).1.reg.sessions.get? sid
        = some sess →
      (∃ hit ∈ hits, ∃ p base, byPid.get? hit.1 = some p ∧
        sess = observe plug p hit.2 (statsOf stats hit.1) base ∧
        acc.1.Base plug clock.timeNs p hit.2 sid base) ∨
      (∃ old, acc.1.reg.sessions.get? sid = some old ∧
        (∀ hit ∈ hits, ∀ p, byPid.get? hit.1 = some p →
          old.core.identity ≠ p.identity) ∧
        (sess = old ∨
          (sess = old.conclude clock.timeNs ∧
          old.pid ∈ hits.map Prod.fst))) := by
  induction hits with
  | nil =>
      intro acc _ _ _ sid sess h
      exact Or.inr ⟨sess, h, by simp, Or.inl rfl⟩
  | cons hit rest ih =>
      intro acc hs hnd hall sid sess h
      simp only [List.map_cons, List.nodup_cons] at hnd
      obtain ⟨p, hp, hpid⟩ := hall hit List.mem_cons_self
      obtain ⟨k, -, hgrow, -, -, -⟩ := refreshTarget_spec plug clock stats hs hp
      have hall' : ∀ h ∈ rest, ∃ p, byPid.get? h.1 = some p ∧ p.pid = h.1 :=
        fun h hm => hall h (List.mem_cons_of_mem _ hm)
      rw [List.foldl_cons] at h
      rcases ih _ hgrow.good hnd.2 hall' sid sess h with
        ⟨hit', hm, p', base, hp', rfl, hbase⟩ | ⟨m, hmid, hno, hsess⟩
      · -- the session of a later process
        left
        refine ⟨hit', List.mem_cons_of_mem _ hm, p', base, hp', rfl, ?_⟩
        obtain ⟨q, hq, hqpid⟩ := hall' hit' hm
        obtain rfl : p' = q := Option.some.inj (hp'.symm.trans hq)
        refine hbase.before_refreshTarget hs hp ?_
        intro heq
        rw [hpid, hqpid] at heq
        exact hnd.1 (heq ▸ List.mem_map_of_mem hm)
      · rcases refreshTarget_cases plug clock stats hs hp hmid with
          ⟨base, rfl, hbase⟩ | ⟨old, hold, hne, hm⟩
        · -- the session of this process, which the rest does not end
          left
          refine ⟨hit, List.mem_cons_self, p, base, hp, ?_, hbase⟩
          rcases hsess with rfl | ⟨-, hin⟩
          · rfl
          · have hbpid : base.pid = hit.1 :=
              (congrArg Prod.fst hbase.identity).trans hpid
            exact absurd (hbpid ▸ hin) hnd.1
        · right
          have hcore : m.core = old.core := by
            rcases hm with rfl | ⟨rfl, -⟩
            · rfl
            · exact core_conclude _ _
          refine ⟨old, hold, ?_, ?_⟩
          · intro hit' hm' p' hp'
            rcases List.mem_cons.mp hm' with rfl | hm'
            · obtain rfl : p = p' := Option.some.inj (hp.symm.trans hp')
              exact hne
            · rw [← hcore]
              exact hno hit' hm' p' hp'
          · have hpm : m.pid = old.pid := congrArg SessionCore.pid hcore
            rcases hsess with rfl | ⟨rfl, hin⟩
            · rcases hm with rfl | ⟨rfl, hopid⟩
              · exact Or.inl rfl
              · exact Or.inr ⟨rfl, by simp [hopid, hpid]⟩
            · rcases hm with rfl | ⟨rfl, -⟩
              · exact Or.inr ⟨rfl, List.mem_cons_of_mem _ hin⟩
              · exact Or.inr ⟨conclude_conclude _ _,
                  List.mem_cons_of_mem _ (hpm ▸ hin)⟩

/-! ### The whole refresh -/

/-- A session of a matched process after a refresh. -/
def Refreshed (plug : Plugins) (clock : Clock) (processes : List ProcessInfo)
    (stats : List ProcessIoStat) (s : Store) (sid : PyText) (sess : Session) :
    Prop :=
  ∃ p ∈ processes, ∃ rule base, firstRule plug s.reg.rules p = some rule ∧
    s.Base plug clock.timeNs p rule sid base ∧
    sess = observe plug p rule (statsOf stats p.pid) base

/-- A session of no matched process after a refresh. -/
def LeftBehind (plug : Plugins) (clock : Clock) (processes : List ProcessInfo)
    (s : Store)
    (sid : PyText) (sess : Session) : Prop :=
  ∃ old, s.reg.sessions.get? sid = some old ∧ sess = old.conclude clock.timeNs ∧
    ∀ p ∈ matchedProcesses plug s.reg.rules processes,
      old.core.identity ≠ p.identity

/-- **What a refresh does to a session.** -/
theorem refresh_cases (hs : s.Good) (h : DistinctPids processes) {sid : PyText}
    {sess : Session}
    (hsess : (refreshSessions plug clock processes stats s).reg.sessions.get?
      sid = some sess) :
    Refreshed plug clock processes stats s sid sess ∨
      LeftBehind plug clock processes s sid sess := by
  have hall := fun hit hm => @process_of_hit plug s.reg.rules processes h hit hm
  obtain ⟨hgrow, -, hlive, honly, -⟩ := foldl_refreshTarget plug clock stats
    (sortedHits plug s.reg.rules processes) (s, []) hs
      (nodup_sortedHits _ _ _) hall
  have hcases := foldl_refreshTarget_cases plug clock stats
    (sortedHits plug s.reg.rules processes) (s, []) hs
      (nodup_sortedHits _ _ _) hall
  have hout : refreshSessions plug clock processes stats s =
      finishVanished clock.timeNs
      ((sortedHits plug s.reg.rules processes).foldl
        (refreshTarget plug clock (indexByPid processes) stats) (s, [])).2
      ((sortedHits plug s.reg.rules processes).foldl
        (refreshTarget plug clock (indexByPid processes) stats) (s, [])).1 :=
          rfl
  generalize (sortedHits plug s.reg.rules processes).foldl
    (refreshTarget plug clock (indexByPid processes) stats) (s, []) = loop
    at hgrow hlive honly hcases hout
  rw [hout, (finishVanished_spec clock.timeNs loop.2 hgrow.good).2,
    Option.map_eq_some_iff] at hsess
  obtain ⟨before, hbefore, rfl⟩ := hsess
  rcases hcases sid before hbefore with ⟨hit, hm, p, base, hp, rfl,
    hbase⟩ | ⟨old, hold, hno, hbe⟩
  · left
    obtain ⟨hmatched, hpid, hrule⟩ := matched_of_hit h hm hp
    refine ⟨p, ((mem_matchedProcesses h).mp hmatched).1, hit.2, base, hrule,
      hbase, ?_⟩
    -- the session is recorded, so the last loop leaves it alone
    obtain ⟨k, hk, live, hlive', -, hident, -⟩ := hlive hit hm p hp
    obtain rfl : sid = k :=
      hgrow.good.valid.id_eq_of_identity hbefore hlive'
        (hbase.identity.trans hident.symm)
    rw [hpid]
    simp [vanish, hk]
  · right
    have hsame : before.core = old.core := by
      rcases hbe with rfl | ⟨rfl, -⟩
      · rfl
      · exact core_conclude _ _
    have hunseen : sid ∉ loop.2 := by
      intro hseen
      rcases honly sid hseen with hnil | ⟨hit, hm, p, hp, hident⟩
      · cases hnil
      · refine hno hit hm p hp ?_
        rw [← hsame]
        exact (hgrow.good.valid.byIdentity_iff hbefore).mp hident
    refine ⟨old, hold, ?_, ?_⟩
    · have hvanish : ∀ x, vanish clock.timeNs loop.2 sid x =
          x.conclude clock.timeNs := by
        intro x
        simp [vanish, Session.conclude, hunseen]
      rw [hvanish]
      rcases hbe with rfl | ⟨rfl, -⟩
      · rfl
      · exact conclude_conclude _ _
    · intro p hp
      obtain ⟨hit, hm, -, hget⟩ := hit_of_matched h hp
      exact hno hit hm p hget

/-- The sessions of a snapshot are those in memory after the refresh. -/
theorem mem_sessions_snapshot {sess : Session} :
    sess ∈ (refresh plug clock processes stats s).2.sessions ↔
      ∃ sid, (refreshSessions plug clock processes stats s).reg.sessions.get?
        sid = some sess := by
  rw [← OrderedDict.mem_values_iff]
  exact (List.perm_insertionSort _ _).mem_iff

/-- A session brought up to date is active. -/
theorem status_refreshed {sid : PyText} {sess : Session}
    (h : Refreshed plug clock processes stats s sid sess) :
    sess.status = .active := by
  obtain ⟨p, _, rule, base, _, _, rfl⟩ := h
  rfl

/-- What is left behind is finished. -/
theorem status_leftBehind {sid : PyText} {sess : Session}
    (h : LeftBehind plug clock processes s sid sess) :
    sess.status = .finished := by
  obtain ⟨old, _, rfl, _⟩ := h
  exact status_conclude _ _

/-! ### What holds of every session -/

/-- What the file keeps of a session. -/
def Session.persisted (sess : Session) : Session :=
  { sess with logicalGroups := [], aggregate := none }

/-- What a registry makes of a session of the file. -/
def Session.adopted (sess : Session) : Session :=
  { sess with status := .finished, logicalGroups := [] }

/-- `P` holds of every session, in memory and in the file. -/
structure Store.Every (P : Session → Prop) (s : Store) : Prop where
  memory : ∀ sid sess, s.reg.sessions.get? sid = some sess → P sess
  file : ∀ data, s.file = some data → ∀ sess ∈ data.sessions, P sess

/-- `P` is kept by all that a refresh under these rules does to sessions. -/
structure RefreshKeeps (plug : Plugins) (rules : List TargetRule) (now : Int)
    (processes : List ProcessInfo) (stats : List ProcessIoStat)
    (P : Session → Prop) : Prop where
  saved : ∀ sess, P sess → P sess.persisted
  finished : ∀ sess, P sess → P (sess.finish now)
  opened : ∀ p ∈ processes, ∀ rule, firstRule plug rules p = some rule →
    ∀ sid, P (newSession plug now sid p rule)
  observed : ∀ p ∈ processes, ∀ rule, firstRule plug rules p = some rule →
    ∀ base, P base → P (observe plug p rule (statsOf stats p.pid) base)

section Every

variable {rules : List TargetRule} {P : Session → Prop}

/-- A weaker property of every session. -/
theorem Store.Every.mono {Q : Session → Prop} (h : s.Every P)
    (hPQ : ∀ sess, P sess → Q sess) :
    s.Every Q :=
  ⟨fun sid sess hs => hPQ _ (h.memory sid sess hs), fun d hd sess hs =>
    hPQ _ (h.file d hd sess hs)⟩

/-- Saving keeps a property that reading back keeps. -/
theorem Store.Every.save (hsaved : ∀ sess, P sess → P sess.persisted)
    (h : s.Every P) :
    s.save.Every P := by
  refine ⟨h.memory, ?_⟩
  intro data hdata sess hsess
  obtain rfl : s.reg.payload = data := by simpa [Store.save] using hdata
  obtain ⟨old, hold, rfl⟩ := List.mem_map.mp hsess
  obtain ⟨sid, hget⟩ :=
    OrderedDict.mem_values_iff.mp ((lastSlice_suffix _ _).subset hold)
  exact hsaved old (h.memory sid old hget)

/-- Overwriting one session. -/
theorem Store.Every.insert (h : s.Every P) {sid : PyText} {sess : Session}
    (hsess : P sess) :
    ({ s with reg := { s.reg with sessions := s.reg.sessions.insert sid sess }
      } : Store).Every P := by
  refine ⟨?_, h.file⟩
  intro k x hx
  by_cases hk : k = sid
  · subst hk
    rw [show x =
      sess from Option.some.inj
      (hx.symm.trans (OrderedDict.get?_insert_self _ _ _))]
    exact hsess
  · exact h.memory k x ((OrderedDict.get?_insert_of_ne hk).symm.trans hx)

/-- So does opening a session, if the new one has it. -/
theorem openSession_every
    (hP : RefreshKeeps plug rules clock.timeNs processes stats P)
    {proc : ProcessInfo} (hproc : proc ∈ processes) {rule : TargetRule}
    (hrule : firstRule plug rules proc = some rule) (h : s.Every P) :
    (openSession plug clock proc rule s).1.Every P := by
  refine Store.Every.save hP.saved ⟨?_, h.file⟩
  intro k sess hsess
  have hout : (openSession plug clock proc rule s).1.reg.sessions
      = (closeReused clock.timeNs proc s.reg.sessions).insert
          (openSession plug clock proc rule s).2
          (newSession plug clock.timeNs (openSession plug clock proc rule s).2
            proc rule) := rfl
  have hsess : (openSession plug clock proc rule s).1.reg.sessions.get? k =
    some sess := hsess
  rw [hout] at hsess
  by_cases hk : k = (openSession plug clock proc rule s).2
  · subst hk
    rw [OrderedDict.get?_insert_self] at hsess
    obtain rfl := Option.some.inj hsess
    exact hP.opened proc hproc rule hrule _
  · rw [OrderedDict.get?_insert_of_ne hk] at hsess
    obtain ⟨old, hold, rfl | ⟨rfl, -⟩⟩ := get?_closeReused _ _ _ _ _ hsess
    · exact h.memory k _ hold
    · unfold Session.conclude
      split
      · exact hP.finished _ (h.memory k old hold)
      · exact h.memory k old hold

/-- So does refreshing a target. -/
theorem refreshTarget_every
    (hP : RefreshKeeps plug rules clock.timeNs processes stats P)
    (hd : DistinctPids processes) (acc : Store × List PyText)
    {hit : Int × TargetRule}
    (hhit : ∃ p ∈ processes, p.pid = hit.1 ∧
      firstRule plug rules p = some hit.2)
    (h : acc.1.Every P) :
    (refreshTarget plug clock (indexByPid processes) stats acc hit).1.Every
      P := by
  unfold refreshTarget
  split
  · exact h
  · next proc hproc =>
    obtain ⟨hmem, hpid⟩ := (get?_indexByPid hd).mp hproc
    obtain ⟨q, hq, hqpid, hrule⟩ := hhit
    obtain rfl : proc = q :=
      List.inj_on_of_nodup_map hd hmem hq (hpid.trans hqpid.symm)
    have hfor : (sessionFor plug clock proc hit.2 acc.1).1.Every P := by
      unfold sessionFor
      split
      · split
        · exact h
        · exact openSession_every hP hmem hrule h
      · exact openSession_every hP hmem hrule h
    dsimp only
    split
    · exact hfor
    · next sess hsess =>
      refine hfor.insert ?_
      rw [← hpid]
      exact hP.observed proc hmem hit.2 hrule sess (hfor.memory _ _ hsess)

/-- So does ending what was not seen. -/
theorem finishUnseen_every
    (hP : RefreshKeeps plug rules clock.timeNs processes stats P)
    (ids : List PyText) (sid : PyText) (h : s.Every P) :
    (finishUnseen clock.timeNs ids s sid).Every P := by
  unfold finishUnseen
  split
  · exact h
  · next sess hsess =>
    split
    · exact (h.insert (hP.finished sess (h.memory sid sess hsess))).save
        hP.saved
    · exact h

/-- **A refresh keeps what holds of every session.** -/
theorem refreshSessions_every
    (hP : RefreshKeeps plug s.reg.rules clock.timeNs processes stats P)
    (hd : DistinctPids processes) (h : s.Every P) :
    (refreshSessions plug clock processes stats s).Every P := by
  have htargets :
      ∀ (hits : List (Int × TargetRule)) (acc : Store × List PyText),
      (∀ hit ∈ hits, ∃ p ∈ processes, p.pid = hit.1 ∧
        firstRule plug s.reg.rules p = some hit.2) →
      acc.1.Every P →
      (hits.foldl (refreshTarget plug clock (indexByPid processes) stats)
        acc).1.Every P := by
    intro hits
    induction hits with
    | nil => exact fun acc _ h => h
    | cons hit rest ih =>
        intro acc hhits h
        obtain ⟨hhit, hrest⟩ := List.forall_mem_cons.mp hhits
        exact ih _ hrest (refreshTarget_every hP hd acc hhit h)
  have hvanished : ∀ (ids ks : List PyText) (t : Store), t.Every P →
      (ks.foldl (finishUnseen clock.timeNs ids) t).Every P := by
    intro ids ks
    induction ks with
    | nil => exact fun t h => h
    | cons k ks ih => exact fun t h => ih _ (finishUnseen_every hP ids k h)
  exact hvanished _ _ _ (htargets _ (s, []) (fun _ hm =>
    (mem_sortedHits hd).mp hm) h)

/-- A restart keeps what holds of every session and of those it adopts. -/
theorem restart_every (hadopted : ∀ sess, P sess → P sess.adopted)
    (h : s.Every P) :
    (RegistryOp.restart.apply plug s).Every P := by
  have hadopt : ∀ (saved : List Session) (r : Registry),
      (∀ sess ∈ saved, P sess) →
      (∀ sid sess, r.sessions.get? sid = some sess → P sess) →
      ∀ sid sess, (saved.foldl Registry.adopt r).sessions.get? sid = some sess →
        P sess := by
    intro saved
    induction saved with
    | nil => exact fun r _ hr => hr
    | cons x saved ih =>
        intro r hsaved hr
        refine ih (r.adopt x) (fun y hy =>
          hsaved y (List.mem_cons_of_mem _ hy)) ?_
        intro sid sess hsess
        have hinsert :
          (r.adopt x).sessions = r.sessions.insert x.sessionId x.adopted := rfl
        rw [hinsert] at hsess
        by_cases hk : sid = x.sessionId
        · subst hk
          rw [OrderedDict.get?_insert_self] at hsess
          obtain rfl := Option.some.inj hsess
          exact hadopted x (hsaved x List.mem_cons_self)
        · exact hr sid sess
            ((OrderedDict.get?_insert_of_ne hk).symm.trans hsess)
  refine ⟨?_, h.file⟩
  intro sid sess hsess
  unfold RegistryOp.apply Registry.load at hsess
  dsimp only at hsess
  split at hsess
  · cases hsess
  · next data hdata =>
      exact hadopt _ _ (h.file data hdata) (fun _ _ h => by cases h)
        sid sess hsess

/-- Every operation but a refresh keeps it, if saving and adopting do. -/
theorem apply_every (hsaved : ∀ sess, P sess → P sess.persisted)
    (hadopted : ∀ sess, P sess → P sess.adopted) (h : s.Every P)
    {op : RegistryOp}
    (hop : ∀ clock processes stats, op ≠ .refresh clock processes stats) :
    (op.apply plug s).Every P := by
  cases op with
  | addRule rule =>
      unfold RegistryOp.apply addRule
      by_cases hv : rule.kind.valid = true
      · simp only [hv, if_true]
        exact Store.Every.save hsaved ⟨h.memory, h.file⟩
      · simp only [hv]
        exact h
  | removeRule kind value =>
      unfold RegistryOp.apply removeRule
      dsimp only
      split
      · exact Store.Every.save hsaved ⟨h.memory, h.file⟩
      · exact ⟨h.memory, h.file⟩
  | clearRules => exact Store.Every.save hsaved ⟨h.memory, h.file⟩
  | refresh clock processes stats =>
      exact absurd rfl (hop clock processes stats)
  | restart => exact restart_every hadopted h

/-- A fresh store has no sessions. -/
theorem Store.fresh_every (P : Session → Prop) (maxFinished : Nat) :
    (Store.fresh maxFinished).Every P :=
  ⟨fun _ _ h => (nomatch h), fun _ h => (nomatch h)⟩

end Every

end Telemetryd
