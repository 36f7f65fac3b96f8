import Mathlib.Logic.Function.Basic
import Telemetryd.Lib.Runs
import Telemetryd.TargetSessions

/-!
# Two registries on one state file

The daemon and the command line tool each construct a registry on the same
state file.  A registry reads the file once, when it is constructed, and every
later write replaces the whole file by what that registry has in memory.  The
file therefore keeps the rules that have been added, and not removed since,
exactly as long as each write is made by a registry that knows all of them.

The first half says when an operation writes and what it writes; the second
half runs the two registries against each other.
-/

namespace Telemetryd

open PyText

/-! ### What an operation writes -/

/-- The processes a refresh visits, by increasing pid. -/
def visited (plug : Plugins) (rules : List TargetRule)
    (processes : List ProcessInfo) :
    List ProcessInfo :=
  ((resolve plug rules processes).items.insertionSort (fun a b =>
    a.1 ≤ b.1)).filterMap
    (fun hit => (indexByPid processes).get? hit.1)

/-- The session in memory that is filed under the identity of a process. -/
def Registry.sessionOf (r : Registry) (proc : ProcessInfo) : Option PyText :=
  (r.byIdentity.get? (proc.pid, proc.startTimeNs)).filter (fun sid =>
    decide (sid ∈ r.sessions.keys))

/-- A refresh finds nothing to write: each visited process has its session,
and each active session belongs to a visited process. -/
def Registry.Settled (plug : Plugins) (processes : List ProcessInfo)
    (r : Registry) : Prop :=
  (∀ p ∈ visited plug r.rules processes, ∃ sid, r.sessionOf p = some sid) ∧
    ∀ sid sess, r.sessions.get? sid = some sess → sess.status = .active →
      ∃ p ∈ visited plug r.rules processes, r.sessionOf p = some sid

/-- The file holds the rules in memory. -/
def Store.Wrote (s : Store) : Prop :=
  ∃ data, s.file = some data ∧ data.rules = s.reg.rules

/-- After a save the file has the rules of the memory. -/
theorem Store.save_wrote (s : Store) : s.save.Wrote := ⟨_, rfl, rfl⟩

section Refresh

variable (plug : Plugins) (clock : Clock) (stats : List ProcessIoStat)
variable {byPid : OrderedDict Int ProcessInfo}

/-- A process with a session is observed without a write. -/
theorem refreshTarget_known {acc : Store × List PyText} {hit : Int × TargetRule}
    {proc : ProcessInfo} {sid : PyText} (hproc : byPid.get? hit.1 = some proc)
    (hsid : acc.1.reg.sessionOf proc = some sid) :
    ∃ sess, refreshTarget plug clock byPid stats acc hit =
        ({ acc.1 with reg := { acc.1.reg with
            sessions := acc.1.reg.sessions.insert sid sess } }, sid :: acc.2) ∧
      sid ∈ acc.1.reg.sessions.keys := by
  obtain ⟨hid, hmem⟩ := Option.filter_eq_some_iff.mp hsid
  have hkey : sid ∈ acc.1.reg.sessions.keys := by simpa using hmem
  obtain ⟨old, hold⟩ := OrderedDict.mem_keys_iff.mp hkey
  have hfor : sessionFor plug clock proc hit.2 acc.1 = (acc.1, sid) := by
    unfold sessionFor
    rw [hid]
    simp only [hkey, if_true]
  refine ⟨observe plug proc hit.2 (statsOf stats hit.1) old, ?_, hkey⟩
  unfold refreshTarget
  rw [hproc]
  simp only [hfor, hold]

/-- A process without a session gets one, and the file is written. -/
theorem refreshTarget_new {acc : Store × List PyText} {hit : Int × TargetRule}
    {proc : ProcessInfo} (hproc : byPid.get? hit.1 = some proc)
    (hnone : acc.1.reg.sessionOf proc = none) :
    (refreshTarget plug clock byPid stats acc hit).1.Wrote ∧
      (refreshTarget plug clock byPid stats acc hit).1.reg.rules =
        acc.1.reg.rules := by
  have hfor : sessionFor plug clock proc hit.2 acc.1 =
      openSession plug clock proc hit.2 acc.1 := by
    unfold sessionFor
    cases hid : acc.1.reg.byIdentity.get? (proc.pid, proc.startTimeNs) with
    | none => rfl
    | some sid =>
        have hkey : sid ∉ acc.1.reg.sessions.keys := by
          unfold Registry.sessionOf at hnone
          rw [hid] at hnone
          simpa using hnone
        simp only [hkey, if_false]
  unfold refreshTarget
  rw [hproc]
  simp only [hfor]
  split
  · exact ⟨⟨_, rfl, rfl⟩, rfl⟩
  · exact ⟨⟨_, rfl, rfl⟩, rfl⟩

/-- Sessions stay filed where they are while no session is created. -/
theorem sessionOf_insert {r : Registry} {sid : PyText} (sess : Session)
    (h : sid ∈ r.sessions.keys) (proc : ProcessInfo) :
    ({ r with sessions := r.sessions.insert sid sess } : Registry).sessionOf
      proc
      = r.sessionOf proc := by
  unfold Registry.sessionOf
  simp only [OrderedDict.keys_insert_of_mem h]

/-- One pass over a process that has its session, or over no process: the file
and the filing stay, and only that session is seen or changed. -/
theorem refreshTarget_settled {acc : Store × List PyText}
    {hit : Int × TargetRule}
    (h : ∀ p, byPid.get? hit.1 = some p →
      ∃ sid, acc.1.reg.sessionOf p = some sid) :
    let out := refreshTarget plug clock byPid stats acc hit
    out.1.file = acc.1.file ∧
      (∀ p, out.1.reg.sessionOf p = acc.1.reg.sessionOf p) ∧
      (∀ sid, sid ∈ out.2 ↔ sid ∈ acc.2 ∨
        ∃ p, byPid.get? hit.1 = some p ∧ acc.1.reg.sessionOf p = some sid) ∧
      ∀ sid, sid ∉ out.2 →
        out.1.reg.sessions.get? sid = acc.1.reg.sessions.get? sid := by
  intro out
  cases hproc : byPid.get? hit.1 with
  | none =>
      have hout : out = acc := by
        show refreshTarget plug clock byPid stats acc hit = acc
        unfold refreshTarget
        rw [hproc]
      rw [hout]
      exact ⟨rfl, fun _ => rfl, by simp, fun _ _ => rfl⟩
  | some proc =>
      obtain ⟨sid, hsid⟩ := h proc hproc
      obtain ⟨sess, hstep, hkey⟩ :=
        refreshTarget_known plug clock stats hproc hsid
      have hout : out = ({ acc.1 with reg := { acc.1.reg with
          sessions := acc.1.reg.sessions.insert sid sess } },
            sid :: acc.2) := hstep
      rw [hout]
      refine ⟨rfl, sessionOf_insert sess hkey, fun k => ?_, fun k hk => ?_⟩
      · rw [List.mem_cons, or_comm]
        refine or_congr_right ⟨?_, ?_⟩
        · rintro rfl
          exact ⟨proc, rfl, hsid⟩
        · rintro ⟨p, hp, hk⟩
          obtain rfl := Option.some.inj hp
          exact Option.some.inj (hk.symm.trans hsid)
      · exact OrderedDict.get?_insert_of_ne fun heq =>
          hk (heq ▸ List.mem_cons_self)

/-- One pass of the loop keeps the rules, and a file that holds them. -/
theorem refreshTarget_wrote (byPid : OrderedDict Int ProcessInfo)
    (acc : Store × List PyText)
    (hit : Int × TargetRule) :
    (refreshTarget plug clock byPid stats acc hit).1.reg.rules =
      acc.1.reg.rules ∧
      (acc.1.Wrote →
        (refreshTarget plug clock byPid stats acc hit).1.Wrote) := by
  cases hproc : byPid.get? hit.1 with
  | none =>
      have hout : refreshTarget plug clock byPid stats acc hit = acc := by
        unfold refreshTarget
        rw [hproc]
      rw [hout]
      exact ⟨rfl, id⟩
  | some proc =>
      cases hsid : acc.1.reg.sessionOf proc with
      | none =>
          obtain ⟨hw, hr⟩ := refreshTarget_new plug clock stats hproc hsid
          exact ⟨hr, fun _ => hw⟩
      | some sid =>
          obtain ⟨sess, hout, -⟩ :=
            refreshTarget_known plug clock stats hproc hsid
          rw [hout]
          exact ⟨rfl, id⟩

/-- So it has after refreshing some targets. -/
theorem foldl_refreshTarget_wrote (byPid : OrderedDict Int ProcessInfo)
    (hits : List (Int × TargetRule)) (acc : Store × List PyText) :
    (hits.foldl (refreshTarget plug clock byPid stats) acc).1.reg.rules =
      acc.1.reg.rules ∧
      (acc.1.Wrote →
        (hits.foldl (refreshTarget plug clock byPid stats) acc).1.Wrote) := by
  induction hits generalizing acc with
  | nil => exact ⟨rfl, id⟩
  | cons hit hits ih =>
      obtain ⟨hr, hw⟩ := refreshTarget_wrote plug clock stats byPid acc hit
      obtain ⟨hr', hw'⟩ := ih (refreshTarget plug clock byPid stats acc hit)
      exact ⟨hr'.trans hr, fun h => hw' (hw h)⟩

/-- If some matched process has no session, the loop writes the file. -/
theorem foldl_refreshTarget_new (hits : List (Int × TargetRule))
    (acc : Store × List PyText)
    (h : ∃ hit ∈ hits, ∃ p, byPid.get? hit.1 = some p ∧
      acc.1.reg.sessionOf p = none) :
    (hits.foldl (refreshTarget plug clock byPid stats) acc).1.Wrote := by
  induction hits generalizing acc with
  | nil =>
      obtain ⟨hit, hmem, -⟩ := h
      exact absurd hmem List.not_mem_nil
  | cons first hits ih =>
      rw [List.foldl_cons]
      by_cases hnew : ∃ p, byPid.get? first.1 = some p ∧
        acc.1.reg.sessionOf p = none
      · obtain ⟨p, hp, hnone⟩ := hnew
        exact (foldl_refreshTarget_wrote plug clock stats byPid hits _).2
          (refreshTarget_new plug clock stats hp hnone).1
      · obtain ⟨hit, hmem, p, hp, hnone⟩ := h
        have hrest : hit ∈ hits := by
          rcases List.mem_cons.mp hmem with rfl | hmem
          · exact absurd ⟨p, hp, hnone⟩ hnew
          · exact hmem
        have hknown : ∀ q, byPid.get? first.1 = some q →
            ∃ sid, acc.1.reg.sessionOf q = some sid := by
          intro q hq
          cases hsid : acc.1.reg.sessionOf q with
          | none => exact absurd ⟨q, hq, hsid⟩ hnew
          | some sid => exact ⟨sid, rfl⟩
        have hsame := (refreshTarget_settled plug clock stats hknown).2.1
        exact ih _ ⟨hit, hrest, p, hp, (hsame p).trans hnone⟩

/-- If every matched process has its session, the loop writes nothing: it
marks those sessions as seen and leaves the others alone. -/
theorem foldl_refreshTarget_known (hits : List (Int × TargetRule))
    (acc : Store × List PyText)
    (h : ∀ hit ∈ hits, ∀ p, byPid.get? hit.1 = some p →
      ∃ sid, acc.1.reg.sessionOf p = some sid) :
    let out := hits.foldl (refreshTarget plug clock byPid stats) acc
    out.1.file = acc.1.file ∧
      (∀ sid, sid ∈ out.2 ↔ sid ∈ acc.2 ∨ ∃ hit ∈ hits, ∃ p,
        byPid.get? hit.1 = some p ∧
        acc.1.reg.sessionOf p = some sid) ∧
      ∀ sid, sid ∉ out.2 →
        out.1.reg.sessions.get? sid = acc.1.reg.sessions.get? sid := by
  induction hits generalizing acc with
  | nil => simp
  | cons first hits ih =>
      intro out
      obtain ⟨hfile, hsame, hseen, hkeep⟩ :=
        refreshTarget_settled plug clock stats (h first List.mem_cons_self)
      obtain ⟨hfile', hseen', hkeep'⟩ :=
        ih (refreshTarget plug clock byPid stats acc first) (by
          intro hit hm p hp
          rw [hsame]
          exact h hit (List.mem_cons_of_mem _ hm) p hp)
      have hall : ∀ sid, sid ∈ out.2 ↔ sid ∈ acc.2 ∨ ∃ hit ∈ first :: hits, ∃ p,
          byPid.get? hit.1 = some p ∧ acc.1.reg.sessionOf p = some sid := by
        intro sid
        rw [List.exists_mem_cons_iff, ← or_assoc, ← hseen]
        simp only [hsame] at hseen'
        exact hseen' sid
      refine ⟨hfile'.trans hfile, hall, fun sid hno => ?_⟩
      -- what the rest of the loop has not seen, the first pass has not either
      have hfirst : sid ∉ (refreshTarget plug clock byPid stats acc first).2 :=
        fun hmem => hno ((hseen' sid).mpr (Or.inl hmem))
      exact (hkeep' sid hno).trans (hkeep sid hfirst)

/-- The last loop keeps the rules, and a file that holds them. -/
theorem foldl_finishUnseen_wrote (now : Int) (ids keys : List PyText)
    (s : Store) :
    (keys.foldl (finishUnseen now ids) s).reg.rules = s.reg.rules ∧
      (s.Wrote → (keys.foldl (finishUnseen now ids) s).Wrote) := by
  induction keys generalizing s with
  | nil => exact ⟨rfl, id⟩
  | cons sid keys ih =>
      obtain ⟨hr, hw⟩ := ih (finishUnseen now ids s sid)
      have hstep : (finishUnseen now ids s sid).reg.rules = s.reg.rules ∧
          (s.Wrote → (finishUnseen now ids s sid).Wrote) := by
        unfold finishUnseen
        split
        · exact ⟨rfl, id⟩
        · split
          · exact ⟨rfl, fun _ => Store.save_wrote _⟩
          · exact ⟨rfl, id⟩
      exact ⟨hr.trans hstep.1, fun h => hw (hstep.2 h)⟩

/-- If an active session among the keys was not seen, the last loop writes. -/
theorem foldl_finishUnseen_new (now : Int) (ids keys : List PyText) (s : Store)
    (h : ∃ sid ∈ keys, sid ∉ ids ∧
      ∃ sess, s.reg.sessions.get? sid = some sess ∧ sess.status = .active) :
    (keys.foldl (finishUnseen now ids) s).Wrote := by
  induction keys generalizing s with
  | nil =>
      obtain ⟨sid, hmem, -⟩ := h
      exact absurd hmem List.not_mem_nil
  | cons first keys ih =>
      rw [List.foldl_cons]
      by_cases hw : ∃ sess, s.reg.sessions.get? first = some sess ∧
          sess.status = .active ∧
          first ∉ ids
      · obtain ⟨sess, hget, hact⟩ := hw
        refine (foldl_finishUnseen_wrote now ids keys _).2 ?_
        unfold finishUnseen
        simp only [hget, if_pos hact]
        exact Store.save_wrote _
      · have hsame : finishUnseen now ids s first = s := by
          unfold finishUnseen
          cases hget : s.reg.sessions.get? first with
          | none => rfl
          | some sess => exact if_neg (fun hact => hw ⟨sess, hget, hact⟩)
        rw [hsame]
        obtain ⟨sid, hmem, hno, sess, hget, hact⟩ := h
        refine ih s ⟨sid, ?_, hno, sess, hget, hact⟩
        rcases List.mem_cons.mp hmem with rfl | hmem
        · exact absurd ⟨sess, hget, hact, hno⟩ hw
        · exact hmem

/-- If every active session was seen, the last loop changes nothing. -/
theorem foldl_finishUnseen_seen (now : Int) (ids keys : List PyText) (s : Store)
    (h : ∀ sid sess, s.reg.sessions.get? sid = some sess →
      sess.status = .active → sid ∈ ids) :
    keys.foldl (finishUnseen now ids) s = s := by
  induction keys with
  | nil => rfl
  | cons first keys ih =>
      have hsame : finishUnseen now ids s first = s := by
        unfold finishUnseen
        cases hget : s.reg.sessions.get? first with
        | none => rfl
        | some sess =>
            exact if_neg (fun hact => hact.2 (h first sess hget hact.1))
      rw [List.foldl_cons, hsame, ih]

/-- The processes that a refresh visits are those that a rule selects. -/
theorem mem_visited {rules : List TargetRule} {processes : List ProcessInfo}
    {p : ProcessInfo} :
    p ∈ visited plug rules processes ↔
      ∃ hit ∈ (resolve plug rules processes).items.insertionSort (fun a b =>
        a.1 ≤ b.1),
        (indexByPid processes).get? hit.1 = some p := List.mem_filterMap

/-- **When a refresh writes.**  A settled registry leaves the file alone; any
other refresh leaves a file that holds the rules in memory. -/
theorem refresh_file (processes : List ProcessInfo) (s : Store) :
    let out := (refresh plug clock processes stats s).1
    out.reg.rules = s.reg.rules ∧
      (s.reg.Settled plug processes → out.file = s.file) ∧
      (¬ s.reg.Settled plug processes → out.Wrote) := by
  intro out
  let hits := (resolve plug s.reg.rules processes).items.insertionSort
    (fun a b => a.1 ≤ b.1)
  let mid := hits.foldl (refreshTarget plug clock (indexByPid processes) stats)
    (s, [])
  have hout : out =
    mid.1.reg.sessions.keys.foldl (finishUnseen clock.timeNs mid.2) mid.1 := rfl
  obtain ⟨hrules, -⟩ :=
    foldl_refreshTarget_wrote plug clock stats (indexByPid processes)
    hits (s, [])
  obtain ⟨hrules', hwrote⟩ :=
    foldl_finishUnseen_wrote clock.timeNs mid.2 mid.1.reg.sessions.keys mid.1
  refine ⟨hrules'.trans hrules, ?_, ?_⟩
  · intro hset
    obtain ⟨hfile, hseen, hkeep⟩ :=
      foldl_refreshTarget_known plug clock stats hits (s, [])
      (fun hit hm p hp => hset.1 p ((mem_visited plug).mpr ⟨hit, hm, hp⟩))
    rw [hout, foldl_finishUnseen_seen, hfile]
    intro sid sess hget hact
    by_contra hno
    rw [hkeep sid hno] at hget
    obtain ⟨p, hp, hsid⟩ := hset.2 sid sess hget hact
    obtain ⟨hit, hm, hp⟩ := (mem_visited plug).mp hp
    exact hno ((hseen sid).mpr (Or.inr ⟨hit, hm, p, hp, hsid⟩))
  · intro hset
    rw [hout]
    by_cases hknown : ∀ p ∈ visited plug s.reg.rules processes, ∃ sid,
      s.reg.sessionOf p = some sid
    · have hstray : ∃ sid sess, s.reg.sessions.get? sid = some sess ∧
          sess.status = .active ∧
          ∀ p ∈ visited plug s.reg.rules processes,
            s.reg.sessionOf p ≠ some sid := by
        by_contra hall
        refine hset ⟨hknown, fun sid sess hget hact => ?_⟩
        by_contra hno
        exact hall ⟨sid, sess, hget, hact, fun p hp heq => hno ⟨p, hp, heq⟩⟩
      obtain ⟨sid, sess, hget, hact, hno⟩ := hstray
      obtain ⟨-, hseen, hkeep⟩ :=
        foldl_refreshTarget_known plug clock stats hits (s, [])
        (fun hit hm p hp => hknown p ((mem_visited plug).mpr ⟨hit, hm, hp⟩))
      have hunseen : sid ∉ mid.2 := by
        intro hmem
        rcases (hseen sid).mp hmem with hnil | ⟨hit, hm, p, hp, heq⟩
        · exact absurd hnil List.not_mem_nil
        · exact hno p ((mem_visited plug).mpr ⟨hit, hm, hp⟩) heq
      have hget' : mid.1.reg.sessions.get? sid = some sess :=
        (hkeep sid hunseen).trans hget
      exact foldl_finishUnseen_new _ _ _ _
        ⟨sid, OrderedDict.mem_keys_iff.mpr ⟨sess, hget'⟩, hunseen, sess,
          hget', hact⟩
    · refine hwrote (foldl_refreshTarget_new plug clock stats hits (s, []) ?_)
      by_contra hall
      refine hknown fun p hp => ?_
      obtain ⟨hit, hm, hp⟩ := (mem_visited plug).mp hp
      cases hsid : s.reg.sessionOf p with
      | none => exact absurd ⟨hit, hm, p, hp, hsid⟩ hall
      | some sid => exact ⟨sid, rfl⟩

end Refresh

/-- The kind and value a rule is known by. -/
abbrev RuleKey := RuleKind × PyText

/-- The keys of some rules. -/
def ruleKeys (rules : List TargetRule) : List RuleKey :=
  rules.map TargetRule.key

/-- The key an operation adds, if it is accepted. -/
def RegistryOp.added : RegistryOp → List RuleKey
  | .addRule rule => if rule.kind.valid then [rule.key] else []
  | _ => []

/-- Whether an operation takes away a rule with this key: `remove_rule` does
when it returns true. -/
def RegistryOp.removes (s : Store) : RegistryOp → RuleKey → Bool
  | .removeRule kind value, k =>
      (Telemetryd.removeRule kind value s).2 && decide (k = (kind, value))
  | .clearRules, _ => true
  | _, _ => false

/-- The operations that write the state file. -/
def RegistryOp.Writes (plug : Plugins) (r : Registry) : RegistryOp → Prop
  | .addRule rule => rule.kind.valid = true
  | .removeRule kind value => (kind, value) ∈ ruleKeys r.rules
  | .clearRules => True
  | .refresh _ processes _ => ¬ r.Settled plug processes
  | .restart => False

/-- Adding a rule adds its key. -/
theorem mem_ruleKeys_upsertRule (rule : TargetRule) (rules : List TargetRule)
    (k : RuleKey) :
    k ∈ ruleKeys (upsertRule rule rules) ↔ k = rule.key ∨
      k ∈ ruleKeys rules := by
  unfold ruleKeys
  induction rules with
  | nil => simp [upsertRule]
  | cons r rules ih =>
      unfold upsertRule
      split
      case isTrue heq =>
        have hkey : ({ r with adapter := rule.adapter } : TargetRule).key =
          r.key := rfl
        rw [List.map_cons, List.map_cons, hkey, ← heq]
        simp
      case isFalse hne =>
        rw [List.map_cons, List.map_cons, List.mem_cons, ih, List.mem_cons]
        tauto

/-- Removing a rule tells whether it was there. -/
theorem removeRule_snd (kind : RuleKind) (value : PyText) (s : Store) :
    (removeRule kind value s).2 =
      decide ((kind, value) ∈ ruleKeys s.reg.rules) := by
  have hlen : (s.reg.rules.filter (fun r =>
      decide (r.key ≠ (kind, value)))).length
      = s.reg.rules.length ↔ (kind, value) ∉ ruleKeys s.reg.rules := by
    rw [List.length_filter_eq_length_iff]
    unfold ruleKeys
    simp only [List.mem_map, not_exists, not_and, ne_eq, decide_eq_true_eq]
  unfold removeRule
  by_cases h : (kind, value) ∈ ruleKeys s.reg.rules
  · rw [if_pos (fun heq => (hlen.mp heq) h)]
    exact (decide_eq_true h).symm
  · rw [if_neg (fun hne => hne (hlen.mpr h))]
    exact (decide_eq_false h).symm

/-- Removing a rule leaves the others. -/
theorem removeRule_rules (kind : RuleKind) (value : PyText) (s : Store) :
    (removeRule kind value s).1.reg.rules
      = s.reg.rules.filter (fun r => decide (r.key ≠ (kind, value))) := by
  unfold removeRule
  simp only
  split <;> rfl

/-- **The rules after an operation.**  Apart from a restart, the keys in memory
are those it adds and those it had and does not remove. -/
theorem mem_ruleKeys_apply (plug : Plugins) (s : Store) {op : RegistryOp}
    (hop : op ≠ .restart)
    (k : RuleKey) : k ∈ ruleKeys (op.apply plug s).reg.rules ↔
      k ∈ op.added ∨ (k ∈ ruleKeys s.reg.rules ∧ op.removes s k = false) := by
  cases op with
  | addRule rule =>
      simp only [RegistryOp.apply, addRule, RegistryOp.added,
        RegistryOp.removes]
      by_cases hv : rule.kind.valid = true
      · simp only [hv, if_true, Store.save, mem_ruleKeys_upsertRule,
          List.mem_singleton, and_true]
      · simp [hv]
  | removeRule kind value =>
      simp only [RegistryOp.apply, RegistryOp.added, RegistryOp.removes,
        removeRule_rules,
        removeRule_snd]
      unfold ruleKeys
      rw [List.mem_map]
      constructor
      · intro h
        obtain ⟨r, hr, rfl⟩ := h
        obtain ⟨hr, hne⟩ := List.mem_filter.mp hr
        refine Or.inr ⟨List.mem_map_of_mem hr, ?_⟩
        rw [Bool.and_eq_false_iff]
        exact Or.inr (decide_eq_false (of_decide_eq_true hne))
      · intro h
        rcases h with h | ⟨hk, hrem⟩
        · exact absurd h List.not_mem_nil
        · obtain ⟨r, hr, rfl⟩ := List.mem_map.mp hk
          refine ⟨r, List.mem_filter.mpr ⟨hr, decide_eq_true fun heq => ?_⟩,
            rfl⟩
          rw [heq] at hk hrem
          rw [decide_eq_true hk] at hrem
          simp at hrem
  | clearRules =>
      simp [RegistryOp.apply, clearRules, Store.save, ruleKeys,
        RegistryOp.added,
      RegistryOp.removes]
  | refresh clock processes stats =>
      rw [show (RegistryOp.apply plug s
        (.refresh clock processes stats)).reg.rules = s.reg.rules
        from (refresh_file plug clock stats processes s).1]
      simp [RegistryOp.added, RegistryOp.removes]
  | restart => exact absurd rfl hop

/-- **The file after an operation.**  It is the old file, or it holds the rules
in memory. -/
theorem apply_file (plug : Plugins) (s : Store) (op : RegistryOp) :
    (op.Writes plug s.reg → (op.apply plug s).Wrote) ∧
      (¬ op.Writes plug s.reg → (op.apply plug s).file = s.file) := by
  cases op with
  | addRule rule =>
      simp only [RegistryOp.Writes, RegistryOp.apply, addRule]
      refine ⟨fun hv => ?_, fun hv => ?_⟩
      · rw [if_pos hv]
        exact Store.save_wrote _
      · rw [if_neg hv]
  | removeRule kind value =>
      have hsnd := removeRule_snd kind value s
      simp only [RegistryOp.Writes, RegistryOp.apply]
      unfold removeRule at hsnd ⊢
      simp only at hsnd ⊢
      split
      case isTrue hne =>
        rw [if_pos hne] at hsnd
        exact ⟨fun _ => Store.save_wrote _, fun h =>
          absurd (of_decide_eq_true hsnd.symm) h⟩
      case isFalse heq =>
        rw [if_neg heq] at hsnd
        exact ⟨fun h => absurd h (of_decide_eq_false hsnd.symm), fun _ => rfl⟩
  | clearRules => exact ⟨fun _ => Store.save_wrote _, fun h => absurd trivial h⟩
  | refresh clock processes stats =>
      obtain ⟨-, hset, hnot⟩ := refresh_file plug clock stats processes s
      exact ⟨hnot, fun h => hset (not_not.mp h)⟩
  | restart => exact ⟨fun h => absurd h id, fun _ => rfl⟩

/-- The rules of a file are loaded, as far as their kinds are known. -/
theorem rules_load (maxFinished : Nat) (data : Payload) :
    (Registry.load maxFinished (some data)).rules =
      data.rules.filter (fun r => r.kind.valid) := by
  have hadopt : ∀ (saved : List Session) (r : Registry),
      (saved.foldl Registry.adopt r).rules = r.rules := by
    intro saved
    induction saved with
    | nil => exact fun _ => rfl
    | cons sess saved ih => exact fun r => ih (r.adopt sess)
  exact hadopt data.sessions _

/-! ### The two parties -/

/-- The two that work on one file. -/
inductive Party where
  | daemon
  | cli
  deriving DecidableEq

/-- Two registries and the file they share.  `live` and `owed` record history
and no operation reads them: the keys added and not removed since, and, for
each party, those of them that were added before its registry was
constructed. -/
structure Shared where
  reg : Party → Registry
  file : Option Payload
  live : List RuleKey
  owed : Party → List RuleKey

/-- What one party works on. -/
def Shared.store (s : Shared) (p : Party) : Store := ⟨s.reg p, s.file⟩

/-- Both registries constructed on a file. -/
def Shared.start (maxFinished : Party → Nat) (file : Option Payload) :
    Shared where
  reg p := Registry.load (maxFinished p) file
  file := file
  live := []
  owed _ := []

/-- One operation of one party; a restart constructs its registry anew. -/
def Shared.apply (plug : Plugins) (s : Shared) (o : Party × RegistryOp) :
    Shared :=
  let before := s.store o.1
  let after := o.2.apply plug before
  let stays := fun k => !o.2.removes before k
  { reg := Function.update s.reg o.1 after.reg
    file := after.file
    live := o.2.added ++ s.live.filter stays
    owed := fun p => match o.2 with
      | .restart => if p = o.1 then s.live else s.owed p
      | _ => (s.owed p).filter stays }

/-- The rules of the file, none if there is no file. -/
def fileRules (file : Option Payload) : List TargetRule :=
  (file.map (·.rules)).getD []

/-- No rule is lost: a live rule is in the file and in any registry constructed
on it, and a registry constructed after the rule was added has it in memory. -/
def RulesKept (s : Shared) : Prop :=
  (∀ k ∈ s.live, k ∈ ruleKeys (fileRules s.file) ∧
    ∀ maxFinished, k ∈ ruleKeys (Registry.load maxFinished s.file).rules) ∧
  ∀ p, ∀ k ∈ s.owed p, k ∈ ruleKeys (s.reg p).rules

/-- A step that writes the file is taken by a party that has every live rule in
memory, apart from the one the step adds or removes. -/
def KnowsLive (plug : Plugins) (s : Shared) (o : Party × RegistryOp) : Prop :=
  o.2.Writes plug (s.reg o.1) →
    ∀ k ∈ s.live, o.2.removes (s.store o.1) k = false →
    k ∈ o.2.added ∨ k ∈ ruleKeys (s.reg o.1).rules

/-- The invariant of a run that loses nothing. -/
def Shared.Sound (s : Shared) : Prop :=
  RulesKept s ∧ ∀ k ∈ s.live, k.1.valid = true

/-- A rule of the file is loaded if its kind is known. -/
theorem mem_ruleKeys_load {file : Option Payload} {k : RuleKey}
    (hv : k.1.valid = true)
    (h : k ∈ ruleKeys (fileRules file)) (maxFinished : Nat) :
    k ∈ ruleKeys (Registry.load maxFinished file).rules := by
  cases file with
  | none => exact absurd h List.not_mem_nil
  | some data =>
      obtain ⟨r, hr, rfl⟩ := List.mem_map.mp h
      rw [rules_load]
      exact List.mem_map_of_mem (List.mem_filter.mpr ⟨hr, hv⟩)

section Step

variable {plug : Plugins} {s : Shared} {o : Party × RegistryOp}

/-- An operation leaves what its party wrote. -/
theorem file_apply :
    (s.apply plug o).file = (o.2.apply plug (s.store o.1)).file := rfl

/-- An operation changes its party's memory. -/
theorem reg_apply_self :
    (s.apply plug o).reg o.1 = (o.2.apply plug (s.store o.1)).reg :=
  Function.update_self _ _ _

/-- It does not change the other's. -/
theorem reg_apply_of_ne {p : Party} (hp : p ≠ o.1) :
    (s.apply plug o).reg p = s.reg p :=
  Function.update_of_ne hp _ _

/-- A step that writes leaves a file with the keys it adds and those the acting
party had and does not remove. -/
theorem mem_fileRules_apply (h : o.2.Writes plug (s.reg o.1)) (k : RuleKey) :
    k ∈ ruleKeys (fileRules (s.apply plug o).file) ↔ k ∈ o.2.added ∨
      (k ∈ ruleKeys (s.reg o.1).rules ∧
        o.2.removes (s.store o.1) k = false) := by
  have hop : o.2 ≠ .restart := by
    intro heq
    rw [heq] at h
    exact h
  obtain ⟨data, hfile, hrules⟩ := (apply_file plug (s.store o.1) o.2).1 h
  have heq : fileRules (s.apply plug o).file =
      (o.2.apply plug (s.store o.1)).reg.rules := by
    rw [← hrules, file_apply, hfile]
    rfl
  rw [heq]
  exact mem_ruleKeys_apply plug (s.store o.1) hop k

/-- The live rules after an operation: what it adds, and what it does not
remove. -/
theorem mem_live_apply (k : RuleKey) : k ∈ (s.apply plug o).live ↔
    k ∈ o.2.added ∨ (k ∈ s.live ∧ o.2.removes (s.store o.1) k = false) := by
  simp [Shared.apply, List.mem_append, List.mem_filter]

/-- An operation adds a rule of a known kind. -/
theorem mem_added_iff {op : RegistryOp} {k : RuleKey} :
    k ∈ op.added ↔ ∃ rule, op = .addRule rule ∧ rule.kind.valid = true ∧
      k = rule.key := by
  cases op with
  | addRule rule =>
      simp only [RegistryOp.added, RegistryOp.addRule.injEq]
      by_cases hv : rule.kind.valid = true
      · simp [hv]
      · simp [hv]
  | removeRule kind value => simp [RegistryOp.added]
  | clearRules => simp [RegistryOp.added]
  | refresh clock processes stats => simp [RegistryOp.added]
  | restart => simp [RegistryOp.added]

/-- The file keeps the live rules over a step of a party that knows them. -/
theorem live_in_file_apply (hs : s.Sound) (ho : KnowsLive plug s o)
    {k : RuleKey}
    (hk : k ∈ (s.apply plug o).live) :
    k ∈ ruleKeys (fileRules (s.apply plug o).file) := by
  rw [mem_live_apply] at hk
  by_cases hw : o.2.Writes plug (s.reg o.1)
  · rw [mem_fileRules_apply hw]
    rcases hk with hadd | ⟨hlive, hrem⟩
    · exact Or.inl hadd
    · rcases ho hw k hlive hrem with hadd | hmem
      · exact Or.inl hadd
      · exact Or.inr ⟨hmem, hrem⟩
  · have hsame : (s.apply plug o).file = s.file :=
      (apply_file plug (s.store o.1) o.2).2 hw
    rw [hsame]
    rcases hk with hadd | ⟨hlive, -⟩
    · obtain ⟨rule, hop, hv, -⟩ := mem_added_iff.mp hadd
      rw [hop] at hw
      exact absurd hv hw
    · exact (hs.1.1 k hlive).1

/-- A registry keeps the rules it was constructed with until they are
removed. -/
theorem owed_in_memory_apply (hs : s.Sound) (p : Party) {k : RuleKey}
    (hk : k ∈ (s.apply plug o).owed p) :
    k ∈ ruleKeys ((s.apply plug o).reg p).rules := by
  by_cases hop : o.2 = .restart
  · have howed : (s.apply plug o).owed p = if p = o.1 then s.live
        else s.owed p := by
      unfold Shared.apply
      rw [hop]
    rw [howed] at hk
    by_cases hp : p = o.1
    · rw [if_pos hp] at hk
      rw [hp, reg_apply_self, hop]
      exact (hs.1.1 k hk).2 _
    · rw [if_neg hp] at hk
      rw [reg_apply_of_ne hp]
      exact hs.1.2 p k hk
  · have howed : (s.apply plug o).owed p
        = (s.owed p).filter (fun k => !o.2.removes (s.store o.1) k) := by
      unfold Shared.apply
      split
      · contradiction
      · rfl
    rw [howed] at hk
    obtain ⟨hold, hrem⟩ := List.mem_filter.mp hk
    have hmem := hs.1.2 p k hold
    by_cases hp : p = o.1
    · subst hp
      rw [reg_apply_self, mem_ruleKeys_apply plug (s.store o.1) hop]
      exact Or.inr ⟨hmem, by simpa using hrem⟩
    · rw [reg_apply_of_ne hp]
      exact hmem

/-- An operation of a party that knows the live rules keeps the file sound. -/
theorem sound_apply (hs : s.Sound) (ho : KnowsLive plug s o) :
    (s.apply plug o).Sound := by
  have hvalid : ∀ k ∈ (s.apply plug o).live, k.1.valid = true := by
    intro k hk
    rcases (mem_live_apply k).mp hk with hadd | ⟨hlive, -⟩
    · obtain ⟨rule, -, hv, rfl⟩ := mem_added_iff.mp hadd
      exact hv
    · exact hs.2 k hlive
  refine ⟨⟨fun k hk => ?_, fun p k hk => owed_in_memory_apply hs p hk⟩, hvalid⟩
  have hfile := live_in_file_apply hs ho hk
  exact ⟨hfile, mem_ruleKeys_load (hvalid k hk) hfile⟩

/-- Where the rules are kept the party knew them. -/
theorem knowsLive_of_kept (h : RulesKept (s.apply plug o)) :
    KnowsLive plug s o := by
  intro hw k hlive hrem
  have hfile := (h.1 k ((mem_live_apply k).mpr (Or.inr ⟨hlive, hrem⟩))).1
  rcases (mem_fileRules_apply hw k).mp hfile with hadd | ⟨hmem, -⟩
  · exact Or.inl hadd
  · exact Or.inr hmem

end Step

/-- **When no rule is lost.**  Over every interleaving of the two parties'
operations and re-creations, no rule is lost at any point if and only if every
step that writes the file is taken by a party that has all live rules in
memory. -/
theorem rules_kept_iff_writers_know (plug : Plugins) (maxFinished : Party → Nat)
    (file : Option Payload) (ops : List (Party × RegistryOp)) :
    Runs.Always (Shared.apply plug) RulesKept (Shared.start maxFinished file)
      ops ↔
      Runs.Each (Shared.apply plug) (KnowsLive plug)
        (Shared.start maxFinished file) ops := by
  refine Runs.always_iff_each (I := Shared.Sound) (fun _ h => h.1) (fun _ _ =>
    sound_apply)
    (fun _ _ _ => knowsLive_of_kept) ?_
  refine ⟨⟨fun k hk => absurd hk List.not_mem_nil, fun _ k hk =>
    absurd hk List.not_mem_nil⟩,
    fun k hk => absurd hk List.not_mem_nil⟩

/-- Both parties start on an empty disk.  The tool adds a rule; the daemon,
which has not read it, adds another. -/
def ruleOverwritten : List (Party × RegistryOp) :=
  [(.cli, .addRule { kind := .name, value := "fio".toList }),
    (.daemon, .addRule { kind := .pid, value := "1".toList })]

/-- The rule of the tool is live and gone from the file. -/
theorem rule_lost_by_other_party :
    let s := ruleOverwritten.foldl (Shared.apply plainPlugins)
      (Shared.start (fun _ => 50) none)
    (.name, "fio".toList) ∈ s.live ∧
      (.name, "fio".toList) ∉ ruleKeys (fileRules s.file) ∧
      ¬ Runs.Always (Shared.apply plainPlugins) RulesKept
        (Shared.start (fun _ => 50) none)
        ruleOverwritten := by
  have hlive : ((.name, "fio".toList) : RuleKey) ∈ (ruleOverwritten.foldl
      (Shared.apply plainPlugins)
        (Shared.start (fun _ => 50) none)).live := by decide +kernel
  have hgone :
      ((.name, "fio".toList) : RuleKey) ∉
      ruleKeys (fileRules (ruleOverwritten.foldl
      (Shared.apply plainPlugins)
        (Shared.start (fun _ => 50) none)).file) := by decide +kernel
  exact ⟨hlive, hgone, fun h => hgone (h.last.1 _ hlive).1⟩

end Telemetryd
