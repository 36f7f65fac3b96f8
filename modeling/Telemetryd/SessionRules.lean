import Telemetryd.Lib.Runs
import Telemetryd.RefreshedSessions

/-!
# The rule a session names

A session keeps the text of the rule it was opened by.  Its adapter is chosen
anew at every refresh, from the rule that selects its process then.  After rule
changes or a restart the two can be different rules; the session names the rule
that selects it exactly when its process is still selected by the rule it was
opened by.
-/

namespace Telemetryd

open PyText

/-- `kind=value`. -/
def TargetRule.text (r : TargetRule) : PyText := r.kind.text ++ '=' :: r.value

/-- A condition on the refreshes of a run, each in the store it starts from. -/
def OnRefresh (C : Clock → List ProcessInfo → List ProcessIoStat → Store → Prop)
    (s : Store) :
    RegistryOp → Prop
  | .refresh clock processes stats => C clock processes stats s
  | _ => True

/-- After the refresh every active session observes a process of the list, and
carries the text and the adapter of the first rule that matches it. -/
def NamesRule (plug : Plugins) (clock : Clock) (processes : List ProcessInfo)
    (stats : List ProcessIoStat) (s : Store) : Prop :=
  ∀ sid sess, (refresh plug clock processes stats s).1.reg.sessions.get? sid =
    some sess →
    sess.status = .active →
    ∃ p ∈ processes, p.identity = sess.core.identity ∧
      ∃ rule, firstRule plug (refresh plug clock processes stats s).1.reg.rules
        p = some rule ∧
        sess.matchedRule = some rule.text ∧
        sess.adapter = (selectAdapter plug p rule.adapter).name

/-- Every process that is matched and already has a session is matched by the
rule the session was opened by. -/
def StillOpener (plug : Plugins) (_clock : Clock) (processes : List ProcessInfo)
    (_stats : List ProcessIoStat) (s : Store) : Prop :=
  ∀ p ∈ processes, ∀ rule, firstRule plug s.reg.rules p = some rule →
    ∀ sid sess, s.reg.sessions.get? sid = some sess →
      sess.core.identity = p.identity →
      sess.matchedRule = some rule.text

/-- The condition only looks at the sessions in memory. -/
theorem stillOpener_iff {plug : Plugins} {clock : Clock}
    {processes : List ProcessInfo}
    {stats : List ProcessIoStat} {s : Store} :
    StillOpener plug clock processes stats s ↔
      ∀ p ∈ processes, ∀ rule ∈ (firstRule plug s.reg.rules p).toList,
        ∀ e ∈ s.reg.sessions.items, e.2.core.identity = p.identity →
          e.2.matchedRule = some rule.text := by
  simp only [StillOpener, OrderedDict.get?_eq_some_iff, Option.mem_toList,
    Prod.forall]

instance decidableStillOpener (plug : Plugins) (clock : Clock)
    (processes : List ProcessInfo)
    (stats : List ProcessIoStat) (s : Store) :
    Decidable (StillOpener plug clock processes stats s) :=
  decidable_of_iff' _ stillOpener_iff

instance decidableOnRefresh
    (C : Clock → List ProcessInfo → List ProcessIoStat → Store → Prop)
    [∀ clock processes stats s,
      Decidable (C clock processes stats s)] (s : Store) :
    ∀ op, Decidable (OnRefresh C s op)
  | .refresh clock processes stats =>
      inferInstanceAs (Decidable (C clock processes stats s))
  | .addRule _ => isTrue trivial
  | .removeRule _ _ => isTrue trivial
  | .clearRules => isTrue trivial
  | .restart => isTrue trivial

variable {plug : Plugins} {clock : Clock} {processes : List ProcessInfo}
  {stats : List ProcessIoStat} {s : Store}

/-- Two processes of the list with one identity are one process. -/
theorem eq_of_identity (h : DistinctPids processes) {p q : ProcessInfo}
    (hp : p ∈ processes)
    (hq : q ∈ processes) (heq : p.identity = q.identity) : p = q :=
  List.inj_on_of_nodup_map h hp hq (congrArg Prod.fst heq)

/-- One refresh. -/
theorem namesRule_iff (hs : s.Good) (h : DistinctPids processes) :
    NamesRule plug clock processes stats s ↔
      StillOpener plug clock processes stats s := by
  obtain ⟨hgrow, hactive, -⟩ := refreshSessions_spec plug clock stats hs h
  have hrules : (refresh plug clock processes stats s).1.reg.rules =
    s.reg.rules := hgrow.rules
  unfold NamesRule StillOpener
  rw [hrules]
  constructor
  · intro hnames p hp rule hrule sid sess hsess hident
    have hcore := hgrow.cores.subset (hs.valid.core_mem hsess).1
    obtain ⟨after, hafter, hac⟩ := hgrow.good.valid.exists_session hcore
    rw [(hs.valid.core_mem hsess).2] at hafter
    have hmatched : p ∈ matchedProcesses plug s.reg.rules processes :=
      (mem_matchedProcesses h).mpr ⟨hp, by rw [hrule]; rfl⟩
    have hstatus : after.status = .active :=
      (hactive sid after hafter).mpr ⟨p, hmatched, by rw [hac]; exact hident⟩
    obtain ⟨q, hq, hqident, rule', hrule', htext, -⟩ :=
      hnames sid after hafter hstatus
    obtain rfl : q = p := eq_of_identity h hq hp (by rw [hqident, hac, hident])
    obtain rfl : rule' = rule := Option.some.inj (hrule'.symm.trans hrule)
    rcases refresh_cases hs h hafter with ⟨q', hq', rule'', base, hr'', hbase,
      rfl⟩ | hleft
    · have hqq : q' = q := by
        refine eq_of_identity h hq' hq ?_
        rw [← hbase.identity, hqident]
        rfl
      subst hqq
      rcases hbase with ⟨hold, -⟩ | ⟨-, hunmet⟩
      · obtain rfl := Option.some.inj (hold.symm.trans hsess)
        exact htext
      · exact absurd hident (hunmet sid sess hsess)
    · have := status_leftBehind hleft
      rw [hstatus] at this
      cases this
  · intro hopener sid sess hsess hstatus
    rcases refresh_cases hs h hsess with ⟨p, hp, rule, base, hrule, hbase,
      rfl⟩ | hleft
    · refine ⟨p, hp, hbase.identity.symm, rule, hrule, ?_, rfl⟩
      rcases hbase with ⟨hold, hident⟩ | ⟨rfl, -⟩
      · exact hopener p hp rule hrule sid base hold hident
      · rfl
    · have := status_leftBehind hleft
      rw [hstatus] at this
      cases this

/-- **Which runs have sessions that name their rule.**  Along a run of rule
changes, refreshes and restarts, after every refresh every active session names
the rule that selects its process, if and only if at every refresh each matched
process that has a session is still matched by the rule the session was opened
by. -/
theorem sessions_name_rule_iff (plug : Plugins) (maxFinished : Nat)
    (ops : List RegistryOp)
    (hops : ∀ op ∈ ops, op.DistinctPids) :
    Runs.Each (RegistryOp.apply plug) (OnRefresh (NamesRule plug))
      (Store.fresh maxFinished) ops ↔
      Runs.Each (RegistryOp.apply plug) (OnRefresh (StillOpener plug))
        (Store.fresh maxFinished)
        ops := by
  refine Runs.each_congr (I := Store.Good) (H := RegistryOp.DistinctPids)
    (fun s op hs hop =>
      apply_good hs hop) ?_ (Store.fresh_good maxFinished) hops
  intro s op hs hop
  cases op with
  | refresh clock processes stats => exact namesRule_iff hs hop
  | addRule rule => exact Iff.rfl
  | removeRule kind value => exact Iff.rfl
  | clearRules => exact Iff.rfl
  | restart => exact Iff.rfl

/-- The process of the example. -/
def fioProcess : ProcessInfo :=
  { pid := 7, comm := "fio".toList, startTimeNs := 1 }

/-- A process is observed by its name and, after a restart, again. -/
def observedByName : List RegistryOp :=
  [.addRule { kind := .name, value := "fio".toList },
    .refresh (stillClock 100) [fioProcess] [], .restart,
    .refresh (stillClock 200) [fioProcess] []]

theorem observedByName_distinct : ∀ op ∈ observedByName, op.DistinctPids := by
  simp [observedByName, RegistryOp.DistinctPids, DistinctPids]

/-- The session is resumed under the rule that opened it. -/
theorem sessions_name_rule_iff_resumed :
    Runs.Each (RegistryOp.apply plainPlugins)
      (OnRefresh (NamesRule plainPlugins))
      (Store.fresh 50) observedByName :=
  (sessions_name_rule_iff plainPlugins 50 observedByName
    observedByName_distinct).mpr
    (by decide +kernel)

/-- A process observed by its name, then selected by its pid instead. -/
def reselected : List RegistryOp :=
  [.addRule { kind := .name, value := "fio".toList },
    .refresh (stillClock 100) [fioProcess] [],
    .addRule { kind := .pid, value := "7".toList },
    .removeRule .name "fio".toList]

/-- **A session names a rule that is gone.**  The only rule is `pid=7`, and the
active session of the process names `name=fio`. -/
theorem reselected_names_removed_rule :
    let s := runOps plainPlugins (Store.fresh 50) reselected
    let t := (refresh plainPlugins (stillClock 200) [fioProcess] [] s).1
    t.reg.rules.map TargetRule.text = ["pid=7".toList] ∧
    t.reg.activeSessions.map (·.matchedRule) = [some "name=fio".toList] := by
  decide +kernel

end Telemetryd
