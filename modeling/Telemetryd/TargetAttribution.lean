import Mathlib.Tactic.Ring
import Telemetryd.Lib.GroupedSums
import Telemetryd.TargetSessions

/-!
# Attribution of I/O

The last part of a refresh adds up the statistics twice: by process, into the
aggregates of the active sessions, and by device, into what is attributed to
sessions and what is not.  The two sums agree, and nothing is lost or counted
twice, whatever sessions of earlier processes with the same pid are still kept.
-/

namespace Telemetryd

open PyText GroupedSums

/-- The statistics of one device. -/
def statsOn (stats : List ProcessIoStat) (device : PyText) :
    List ProcessIoStat :=
  stats.filter (fun st => decide (st.device = device))

/-- The rate of some statistics together. -/
def iopsOf (stats : List ProcessIoStat) : ℚ := (stats.map (·.iops)).sum

/-- A session of the list observes the pid. -/
def ActivePid (sessions : List Session) (pid : Int) : Prop :=
  ∃ s ∈ sessions, s.pid = pid ∧ s.status = .active

instance (sessions : List Session) (pid : Int) :
    Decidable (ActivePid sessions pid) :=
  inferInstanceAs (Decidable (∃ s ∈ sessions, s.pid = pid ∧ s.status = .active))

/-! ### The loop over the statistics -/

/-- What the row of a device holds after some statistics. -/
structure Attributes (sessions : List Session) (stats : List ProcessIoStat)
    (dev : DeviceAttribution) : Prop where
  total : dev.totalIops = iopsOf (statsOn stats dev.name)
  attributed : dev.attributedIops
    = iopsOf ((statsOn stats dev.name).filter (fun st =>
      decide (ActivePid sessions st.pid)))
  unattributed : dev.unattributedIops
    = iopsOf ((statsOn stats dev.name).filter (fun st =>
      decide (¬ ActivePid sessions st.pid)))
  nodup : dev.contributingSessions.Nodup
  contributing : ∀ id, id ∈ dev.contributingSessions ↔
    ∃ s ∈ sessions, s.status = .active ∧ s.sessionId = id ∧
      ∃ st ∈ stats, st.device = dev.name ∧ st.pid = s.pid

/-- Ids appended unless they are there. -/
theorem foldl_addMissing (sessions : List Session) (ids : List PyText)
    (h : ids.Nodup) :
    let out := sessions.foldl (fun ids s =>
      if s.sessionId ∈ ids then ids else ids ++ [s.sessionId]) ids
    out.Nodup ∧ ∀ id, id ∈ out ↔ id ∈ ids ∨ ∃ s ∈ sessions,
      s.sessionId = id := by
  induction sessions generalizing ids with
  | nil => simpa using h
  | cons s sessions ih =>
      by_cases hs : s.sessionId ∈ ids
      · obtain ⟨hnodup, hmem⟩ := ih ids h
        simp only [List.foldl_cons, if_pos hs]
        refine ⟨hnodup, fun id => ?_⟩
        rw [hmem id]
        simp only [List.mem_cons, exists_eq_or_imp]
        grind
      · have hsnoc : (ids ++ [s.sessionId]).Nodup := by
          rw [List.nodup_append]
          refine ⟨h, List.nodup_singleton _, ?_⟩
          intro a ha b hb hab
          rw [List.mem_singleton] at hb
          exact hs (hb ▸ hab ▸ ha)
        obtain ⟨hnodup, hmem⟩ := ih _ hsnoc
        simp only [List.foldl_cons, if_neg hs]
        refine ⟨hnodup, fun id => ?_⟩
        rw [hmem id]
        simp only [List.mem_append, List.mem_cons, exists_eq_or_imp]
        grind

/-- The statistics of a device, after one more. -/
theorem statsOn_append (stats : List ProcessIoStat) (st : ProcessIoStat)
    (device : PyText) :
    statsOn (stats ++ [st]) device
      = statsOn stats device ++ (if st.device = device then [st] else []) := by
  unfold statsOn
  rw [List.filter_append]
  by_cases h : st.device = device
  · simp [h]
  · simp [h]

/-- The rates of two lists add up. -/
theorem iopsOf_append (a b : List ProcessIoStat) :
    iopsOf (a ++ b) = iopsOf a + iopsOf b := by
  simp [iopsOf]

/-- The rate of some statistics is that of those with a property and that of
the others. -/
theorem iopsOf_split (P : ProcessIoStat → Prop) [DecidablePred P]
    (stats : List ProcessIoStat) :
    iopsOf stats = iopsOf (stats.filter (fun st => decide (P st)))
      + iopsOf (stats.filter (fun st => decide (¬ P st))) := by
  induction stats with
  | nil => simp [iopsOf]
  | cons st stats ih =>
      unfold iopsOf at ih ⊢
      by_cases h : P st
      · simp only [List.map_cons, List.sum_cons, ih, h, decide_true,
          not_true_eq_false, decide_false,
          List.filter_cons_of_pos, Bool.false_eq_true, not_false_eq_true,
          List.filter_cons_of_neg]
        ring
      · simp only [List.map_cons, List.sum_cons, ih, h, decide_true,
          decide_false,
          List.filter_cons_of_pos, Bool.false_eq_true, not_false_eq_true,
          List.filter_cons_of_neg]
        ring

/-- A row that another device's statistic leaves as it is. -/
theorem Attributes.skip {sessions : List Session} {stats : List ProcessIoStat}
    {dev : DeviceAttribution} (h : Attributes sessions stats dev)
    {st : ProcessIoStat}
    (hst : st.device ≠ dev.name) : Attributes sessions (stats ++ [st]) dev := by
  have hon : statsOn (stats ++ [st]) dev.name = statsOn stats dev.name := by
    rw [statsOn_append, if_neg hst, List.append_nil]
  refine ⟨hon ▸ h.total, hon ▸ h.attributed, hon ▸ h.unattributed, h.nodup,
    fun id => ?_⟩
  rw [h.contributing id]
  constructor
  · intro ⟨s, hs, hact, hid, t, ht, hdev, hpid⟩
    exact ⟨s, hs, hact, hid, t, List.mem_append_left _ ht, hdev, hpid⟩
  · intro ⟨s, hs, hact, hid, t, ht, hdev, hpid⟩
    rcases List.mem_append.mp ht with ht | ht
    · exact ⟨s, hs, hact, hid, t, ht, hdev, hpid⟩
    · obtain rfl := List.mem_singleton.mp ht
      exact absurd hdev hst

/-- One statistic counted in the row of its device. -/
def countStat (sessions : List Session) (st : ProcessIoStat)
    (dev : DeviceAttribution) :
    DeviceAttribution :=
  let active :=
    sessions.filter (fun s => decide (s.pid = st.pid ∧ s.status = .active))
  let dev := { dev with totalIops := dev.totalIops + st.iops }
  if active ≠ [] then
    { dev with
      attributedIops := dev.attributedIops + st.iops
      contributingSessions := active.foldl (fun ids s =>
        if s.sessionId ∈ ids then ids
          else ids ++ [s.sessionId]) dev.contributingSessions }
  else { dev with unattributedIops := dev.unattributedIops + st.iops }

/-- A statistic goes to its device. -/
theorem attributeStat_eq (sessions : List Session)
    (devices : OrderedDict PyText DeviceAttribution)
    (st : ProcessIoStat) :
    attributeStat sessions devices st = devices.insert st.device
      (countStat sessions st
        ((devices.get? st.device).getD { name := st.device })) := rfl

/-- A pid is active if some active session has it. -/
theorem filter_active_ne_nil {sessions : List Session} {pid : Int} :
    sessions.filter (fun s => decide (s.pid = pid ∧ s.status = .active)) ≠ []
      ↔ ActivePid sessions pid := by
  unfold ActivePid
  simp [List.filter_eq_nil_iff]

/-- The statistic of an active pid is attributed. -/
theorem countStat_of_active {sessions : List Session} {st : ProcessIoStat}
    (h : ActivePid sessions st.pid) (dev : DeviceAttribution) :
    countStat sessions st dev = { dev with
      totalIops := dev.totalIops + st.iops
      attributedIops := dev.attributedIops + st.iops
      contributingSessions := (sessions.filter
          (fun s => decide (s.pid = st.pid ∧ s.status = .active))).foldl
            (fun ids s =>
        if s.sessionId ∈ ids then ids
          else ids ++ [s.sessionId]) dev.contributingSessions } := by
  unfold countStat
  rw [if_pos (filter_active_ne_nil.mpr h)]

/-- That of another is not. -/
theorem countStat_of_not_active {sessions : List Session} {st : ProcessIoStat}
    (h : ¬ ActivePid sessions st.pid) (dev : DeviceAttribution) :
    countStat sessions st dev = { dev with
      totalIops := dev.totalIops + st.iops
      unattributedIops := dev.unattributedIops + st.iops } := by
  unfold countStat
  rw [if_neg (fun hne => h (filter_active_ne_nil.mp hne))]

/-- Counting does not rename a device. -/
@[simp] theorem name_countStat (sessions : List Session) (st : ProcessIoStat)
    (dev : DeviceAttribution) :
    (countStat sessions st dev).name = dev.name := by
  by_cases h : ActivePid sessions st.pid
  · rw [countStat_of_active h]
  · rw [countStat_of_not_active h]

/-- Counting adds to the total. -/
theorem totalIops_countStat (sessions : List Session) (st : ProcessIoStat)
    (dev : DeviceAttribution) :
    (countStat sessions st dev).totalIops = dev.totalIops + st.iops := by
  by_cases h : ActivePid sessions st.pid
  · rw [countStat_of_active h]
  · rw [countStat_of_not_active h]

/-- **One statistic more.** -/
theorem Attributes.count {sessions : List Session} {stats : List ProcessIoStat}
    {dev : DeviceAttribution} (h : Attributes sessions stats dev)
    {st : ProcessIoStat}
    (hst : st.device = dev.name) :
    Attributes sessions (stats ++ [st]) (countStat sessions st dev) := by
  have hname := name_countStat sessions st dev
  have htotal := totalIops_countStat sessions st dev
  have hon : statsOn (stats ++ [st]) dev.name = statsOn stats dev.name ++
      [st] := by
    rw [statsOn_append, if_pos hst]
  have hone : ∀ p : ProcessIoStat → Bool,
      iopsOf ((statsOn (stats ++ [st]) dev.name).filter p)
      = iopsOf ((statsOn stats dev.name).filter p) +
        (if p st then st.iops else 0) := by
    intro p
    rw [hon, List.filter_append, iopsOf_append]
    by_cases hp : p st = true
    · simp [hp, iopsOf]
    · simp [hp, iopsOf]
  by_cases hact : ActivePid sessions st.pid
  · have hcount := countStat_of_active hact dev
    obtain ⟨hnodup, hmem⟩ := foldl_addMissing
      (sessions.filter (fun s => decide (s.pid = st.pid ∧ s.status = .active)))
      dev.contributingSessions h.nodup
    refine ⟨?_, ?_, ?_, ?_, ?_⟩
    · rw [htotal, hname, hon, iopsOf_append, ← h.total]
      simp [iopsOf]
    · rw [hname, hone, ← h.attributed, hcount]
      simp [hact]
    · rw [hname, hone, ← h.unattributed, hcount]
      simp [hact]
    · rw [hcount]
      exact hnodup
    · intro id
      rw [hname, hcount]
      refine (hmem id).trans ?_
      rw [h.contributing id]
      simp only [List.mem_filter, decide_eq_true_eq, List.mem_append,
        List.mem_singleton]
      constructor
      · intro hid
        rcases hid with ⟨s, hs, hsact, hid, t, ht, hdev,
          hpid⟩ | ⟨s, ⟨hs, hpid, hsact⟩, hid⟩
        · exact ⟨s, hs, hsact, hid, t, Or.inl ht, hdev, hpid⟩
        · exact ⟨s, hs, hsact, hid, st, Or.inr rfl, hst, hpid.symm⟩
      · intro ⟨s, hs, hsact, hid, t, ht, hdev, hpid⟩
        rcases ht with ht | rfl
        · exact Or.inl ⟨s, hs, hsact, hid, t, ht, hdev, hpid⟩
        · exact Or.inr ⟨s, ⟨hs, hpid.symm, hsact⟩, hid⟩
  · have hcount := countStat_of_not_active hact dev
    refine ⟨?_, ?_, ?_, ?_, ?_⟩
    · rw [htotal, hname, hon, iopsOf_append, ← h.total]
      simp [iopsOf]
    · rw [hname, hone, ← h.attributed, hcount]
      simp [hact]
    · rw [hname, hone, ← h.unattributed, hcount]
      simp [hact]
    · rw [hcount]
      exact h.nodup
    · intro id
      rw [hname, hcount]
      refine (h.contributing id).trans ?_
      simp only [List.mem_append, List.mem_singleton]
      constructor
      · intro ⟨s, hs, hsact, hid, t, ht, hdev, hpid⟩
        exact ⟨s, hs, hsact, hid, t, Or.inl ht, hdev, hpid⟩
      · intro ⟨s, hs, hsact, hid, t, ht, hdev, hpid⟩
        rcases ht with ht | rfl
        · exact ⟨s, hs, hsact, hid, t, ht, hdev, hpid⟩
        · exact absurd ⟨s, hs, hpid.symm, hsact⟩ hact

/-- A device without statistics. -/
theorem attributes_fresh {sessions : List Session} {stats : List ProcessIoStat}
    {device : PyText}
    (h : ∀ st ∈ stats, st.device ≠ device) :
    Attributes sessions stats { name := device } := by
  have hon : statsOn stats device = [] := by
    unfold statsOn
    rw [List.filter_eq_nil_iff]
    intro st hst
    simpa using h st hst
  refine ⟨by rw [hon]; rfl, by rw [hon]; rfl, by rw [hon]; rfl, List.nodup_nil,
    fun id => ?_⟩
  refine iff_of_false List.not_mem_nil ?_
  intro ⟨_, _, _, _, st, hst, hdev, _⟩
  exact h st hst hdev

/-- **The loop over the statistics.**  There is a row for each device that has
a statistic, and it holds what its statistics add up to. -/
theorem foldl_attributeStat (sessions : List Session)
    (stats : List ProcessIoStat) :
    let devices := stats.foldl (attributeStat sessions) .empty
    (∀ d, d ∈ devices.keys ↔ ∃ st ∈ stats, st.device = d) ∧
      ∀ d dev, devices.get? d = some dev → dev.name = d ∧
        Attributes sessions stats dev := by
  -- The loop reads the list from the front; the rows are about what has been read.
  induction stats using List.reverseRecOn with
  | nil => simp
  | append_singleton stats st ih =>
      obtain ⟨hkeys, hrows⟩ := ih
      simp only [List.foldl_append, List.foldl_cons, List.foldl_nil,
        attributeStat_eq]
      generalize stats.foldl (attributeStat sessions) .empty =
        devices at hkeys hrows
      constructor
      · intro d
        rw [OrderedDict.mem_keys_insert, hkeys]
        simp only [List.mem_append, List.mem_singleton]
        constructor
        · intro h
          rcases h with rfl | ⟨t, ht, hd⟩
          · exact ⟨st, Or.inr rfl, rfl⟩
          · exact ⟨t, Or.inl ht, hd⟩
        · rintro ⟨t, ht, hd⟩
          rcases ht with ht | rfl
          · exact Or.inr ⟨t, ht, hd⟩
          · exact Or.inl hd.symm
      · intro d dev hget
        rw [OrderedDict.get?_insert] at hget
        by_cases hd : d = st.device
        · rw [if_pos hd] at hget
          obtain rfl := Option.some.inj hget
          cases hold : devices.get? st.device with
          | none =>
              have hno : ∀ t ∈ stats, t.device ≠ st.device := fun t ht hdev =>
                OrderedDict.get?_eq_none_iff.mp hold
                  ((hkeys _).mpr ⟨t, ht, hdev⟩)
              exact ⟨(name_countStat _ _ _).trans hd.symm,
                (attributes_fresh hno).count rfl⟩
          | some old =>
              obtain ⟨hn, hrow⟩ := hrows _ _ hold
              exact ⟨(name_countStat _ _ _).trans (hn.trans hd.symm),
                hrow.count hn.symm⟩
        · rw [if_neg hd] at hget
          obtain ⟨hn, hrow⟩ := hrows d dev hget
          exact ⟨hn, hrow.skip (fun h => hd (hn.symm.trans h.symm))⟩

/-! ### The sessions -/

/-- The rate of all statistics. -/
theorem iops_measuredFromStats (stats : List ProcessIoStat) :
    (measuredFromStats stats none).iops = iopsOf stats := by
  unfold measuredFromStats iopsOf
  cases stats with
  | nil => rfl
  | cons st stats => simp

section

variable (plug : Plugins) (clock : Clock) {processes : List ProcessInfo}
variable (stats : List ProcessIoStat) {s : Store}

/-- The pids a refresh finds a rule for. -/
def matchedPids (rules : List TargetRule) (processes : List ProcessInfo) :
    List Int :=
  (matchedProcesses plug rules processes).map (·.pid)

/-- The active sessions are those of the matched pids, one each. -/
theorem activePids_perm (hs : s.Good) (h : DistinctPids processes) :
    ((refresh plug clock processes stats s).1.reg.activeSessions.map
      (·.pid)).Perm
      (matchedPids plug s.reg.rules processes) := by
  have hperm := (active_perm_matched plug clock stats hs h).map Prod.fst
  rw [List.map_map, List.map_map] at hperm
  exact hperm

/-- The pids that rules select differ. -/
theorem nodup_matchedPids (rules : List TargetRule)
    (h : DistinctPids processes) :
    (matchedPids plug rules processes).Nodup :=
  (show List.Nodup _ from h).sublist (List.filter_sublist.map _)

/-- After a refresh the active pids are those that rules select. -/
theorem activePid_iff (hs : s.Good) (h : DistinctPids processes) (pid : Int) :
    ActivePid (refresh plug clock processes stats s).1.reg.sessions.values pid
      ↔ pid ∈ matchedPids plug s.reg.rules processes := by
  rw [← (activePids_perm plug clock stats hs h).mem_iff]
  simp only [ActivePid, Registry.activeSessions, List.mem_map, List.mem_filter,
    decide_eq_true_eq]
  constructor
  · rintro ⟨sess, hsess, hpid, hact⟩
    exact ⟨sess, ⟨hsess, hact⟩, hpid⟩
  · rintro ⟨sess, ⟨hsess, hact⟩, hpid⟩
    exact ⟨sess, hsess, hpid, hact⟩

/-- An active session was measured from the statistics of its pid. -/
theorem aggregate_active (hs : s.Good) (h : DistinctPids processes) :
    ∀ sess ∈ (refresh plug clock processes stats s).1.reg.activeSessions,
      sess.aggregate =
        some (measuredFromStats (statsOf stats sess.pid) none) := by
  obtain ⟨hgrow, hiff, hex⟩ := refreshSessions_spec plug clock stats hs h
  intro sess hact
  obtain ⟨sid, hsess, hstatus⟩ := mem_activeSessions.mp hact
  obtain ⟨p, hp, hident⟩ := (hiff sid sess hsess).mp hstatus
  obtain ⟨sid', sess', hsess', hident', hmeasured⟩ := hex p hp
  -- Both sessions observe `p`, so they are the same one.
  have hsid : sid = sid' := by
    have hcore :=
      hgrow.good.valid.core_eq_of_identity (hgrow.good.valid.core_mem hsess).1
      (hgrow.good.valid.core_mem hsess').1 (hident.trans hident'.symm)
    rw [← (hgrow.good.valid.core_mem hsess).2, ← (hgrow.good.valid.core_mem
      hsess').2, hcore]
  subst hsid
  obtain rfl : sess = sess' := Option.some.inj (hsess.symm.trans hsess')
  have hpid : sess.pid = p.pid := congrArg Prod.fst hident
  rw [hmeasured, hpid]

/-- The rate of an aggregate, 0 when there is none. -/
def Session.measuredIops (sess : Session) : ℚ :=
  (sess.aggregate.map (·.iops)).getD 0

/-- **By process.**  The aggregates of the active sessions add up to the
statistics of the matched pids. -/
theorem sum_aggregates (hs : s.Good) (h : DistinctPids processes) :
    ((refresh plug clock processes stats s).1.reg.activeSessions.map
      Session.measuredIops).sum
      = iopsOf (stats.filter
          (fun st => decide (st.pid ∈
            matchedPids plug s.reg.rules processes))) := by
  have hrate :
      (refresh plug clock processes stats s).1.reg.activeSessions.map
      Session.measuredIops
      = ((refresh plug clock processes stats s).1.reg.activeSessions.map
          (·.pid)).map
          (groupSum (·.pid) (·.iops) stats) := by
    rw [List.map_map]
    refine List.map_congr_left fun sess hsess => ?_
    unfold Session.measuredIops
    rw [aggregate_active plug clock stats hs h sess hsess, Option.map_some,
      Option.getD_some,
      iops_measuredFromStats]
    rfl
  have hperm := activePids_perm plug clock stats hs h
  rw [hrate, (hperm.map _).sum_eq,
    sum_groupSum _ _ (nodup_matchedPids plug s.reg.rules h)
    (fun _ _ => decide_eq_true_iff)]
  rfl

end

/-- **By device.**  What is attributed adds up to the statistics of the
observed pids. -/
theorem sum_attributed (sessions : List Session) (stats : List ProcessIoStat) :
    ((stats.foldl (attributeStat sessions) .empty).values.map
      (·.attributedIops)).sum
      = iopsOf (stats.filter (fun st =>
        decide (ActivePid sessions st.pid))) := by
  obtain ⟨hkeys, hrows⟩ := foldl_attributeStat sessions stats
  generalize stats.foldl (attributeStat sessions) .empty =
    devices at hkeys hrows
  have hrate : devices.values.map (·.attributedIops) =
      devices.keys.map (groupSum (·.device)
      (·.iops) (stats.filter (fun st =>
        decide (ActivePid sessions st.pid)))) := by
    unfold OrderedDict.values OrderedDict.keys
    rw [List.map_map, List.map_map]
    refine List.map_congr_left fun e he => ?_
    obtain ⟨hname, hrow⟩ := hrows e.1 e.2 (OrderedDict.get?_eq_some_iff.mpr he)
    change e.2.attributedIops = _
    rw [hrow.attributed, hname]
    unfold statsOn groupSum iopsOf
    rw [Function.comp_apply, List.filter_filter, List.filter_filter]
    simp only [Bool.and_comm]
  rw [hrate, sum_groupSum_of_forall _ _ devices.keys_nodup
    (fun st hst => (hkeys _).mpr ⟨st, List.mem_of_mem_filter hst, rfl⟩)]
  rfl

/-! ### The report -/

/-- The line of the report for a statistic that no session observes. -/
def unmonitoredOf (st : ProcessIoStat) : UnmonitoredIo where
  pid := st.pid
  comm := st.comm
  device := st.device
  ioRate := st.iops

/-- What the report says of one device: its rate, the part of the matched
pids, the sessions with a statistic on it, and whether several processes are
busy on it. -/
structure Reports (stats : List ProcessIoStat) (matched : List Int)
    (snap : ProfileSnapshot)
    (dev : DeviceAttribution) : Prop where
  split : dev.totalIops = dev.attributedIops + dev.unattributedIops
  total : dev.totalIops = iopsOf (statsOn stats dev.name)
  attributed : dev.attributedIops
    = iopsOf ((statsOn stats dev.name).filter (fun st =>
      decide (st.pid ∈ matched)))
  nodup : dev.contributingSessions.Nodup
  contributing : ∀ id, id ∈ dev.contributingSessions ↔
    ∃ sess ∈ snap.sessions, sess.status = .active ∧ sess.sessionId = id ∧
      ∃ st ∈ stats, st.device = dev.name ∧ st.pid = sess.pid
  warning : dev.multiProcessWarning = true ↔
    ∃ st ∈ stats, ∃ st' ∈ stats, st.pid ≠ st'.pid ∧ st.device = dev.name ∧
      st'.device = dev.name ∧
      0 < st.iops ∧ 0 < st'.iops

/-- More than one different element. -/
theorem one_lt_length_dedup {α : Type} [DecidableEq α] (l : List α) :
    1 < l.dedup.length ↔ ∃ a ∈ l, ∃ b ∈ l, a ≠ b := by
  constructor
  · intro h
    obtain ⟨a, b, rest, hl⟩ : ∃ a b rest, l.dedup = a :: b :: rest := by
      match hd : l.dedup, h with
      | a :: b :: rest, _ => exact ⟨a, b, rest, rfl⟩
    have hnodup := l.nodup_dedup
    rw [hl] at hnodup
    have ha : a ∈ l := List.mem_dedup.mp (by rw [hl]; simp)
    have hb : b ∈ l := List.mem_dedup.mp (by rw [hl]; simp)
    refine ⟨a, ha, b, hb, ?_⟩
    intro hab
    exact (List.nodup_cons.mp hnodup).1 (hab ▸ List.mem_cons_self)
  · intro ⟨a, ha, b, hb, hab⟩
    by_contra hlen
    have hsub : [a, b].Subperm l.dedup := by
      refine List.subperm_of_subset (by simp [hab]) ?_
      intro x hx
      rcases List.mem_cons.mp hx with rfl | hx
      · exact List.mem_dedup.mpr ha
      · exact List.mem_dedup.mpr (List.mem_singleton.mp hx ▸ hb)
    have := hsub.length_le
    simp only [List.length_cons, List.length_nil] at this
    omega

/-- More than one pid is busy if two differ. -/
theorem one_lt_busyPids (stats : List ProcessIoStat) (d : PyText) :
    1 < ((stats.filter (fun st => decide (st.device = d ∧ 0 < st.iops))).map
        (·.pid)).dedup.length ↔
      ∃ st ∈ stats, ∃ st' ∈ stats, st.pid ≠ st'.pid ∧ st.device = d ∧
        st'.device = d ∧
        0 < st.iops ∧ 0 < st'.iops := by
  rw [one_lt_length_dedup]
  simp only [List.mem_map, List.mem_filter, decide_eq_true_eq]
  constructor
  · intro ⟨a, ⟨st, ⟨hst, hdev, hpos⟩, ha⟩, b, ⟨st', ⟨hst', hdev', hpos'⟩, hb⟩,
      hab⟩
    exact ⟨st, hst, st', hst', ha ▸ hb ▸ hab, hdev, hdev', hpos, hpos'⟩
  · intro ⟨st, hst, st', hst', hne, hdev, hdev', hpos, hpos'⟩
    exact ⟨_, ⟨st, ⟨hst, hdev, hpos⟩, rfl⟩, _, ⟨st', ⟨hst', hdev', hpos'⟩, rfl⟩,
      hne⟩

/-- The rows of the report, before they are sorted. -/
theorem mem_devices_snapshotOf {now : Int} {stats : List ProcessIoStat}
    {reg : Registry}
    {dev : DeviceAttribution} (h : dev ∈ (snapshotOf now stats reg).devices) :
    ∃ row, Attributes reg.sessions.values stats row ∧
      dev = { row with multiProcessWarning := decide (1 < ((stats.filter
        (fun st => decide (st.device = row.name ∧ 0 < st.iops))).map
          (·.pid)).dedup.length) } := by
  have hdev := (List.perm_insertionSort _ _).mem_iff.mp h
  obtain ⟨row, hrow, rfl⟩ := List.mem_map.mp hdev
  obtain ⟨d, hd⟩ := OrderedDict.mem_values_iff.mp hrow
  exact ⟨row, ((foldl_attributeStat _ stats).2 d row hd).2, rfl⟩

/-- The devices of a snapshot, in their order. -/
theorem perm_devices_snapshotOf {β : Type} (now : Int)
    (stats : List ProcessIoStat) (reg : Registry)
    (f : DeviceAttribution → β)
    (hf : ∀ dev b, f { dev with multiProcessWarning := b } = f dev) :
    ((snapshotOf now stats reg).devices.map f).Perm
      ((stats.foldl (attributeStat reg.sessions.values) .empty).values.map
        f) := by
  have hperm :=
    (List.perm_insertionSort (fun a b : DeviceAttribution => a.name ≤ b.name)
    ((stats.foldl (attributeStat reg.sessions.values) .empty).values.map
      (fun dev =>
      { dev with multiProcessWarning := decide (1 < ((stats.filter
        (fun st => decide (st.device = dev.name ∧ 0 < st.iops))).map
          (·.pid)).dedup.length) }))).map f
  rw [List.map_map] at hperm
  refine hperm.trans (List.Perm.of_eq ?_)
  exact List.map_congr_left fun dev _ => hf dev _

/-- The names of the rows are the devices of the statistics, once each. -/
theorem names_devices_snapshotOf (now : Int) (stats : List ProcessIoStat)
    (reg : Registry) :
    ((snapshotOf now stats reg).devices.map (·.name)).Nodup ∧
      ∀ d, d ∈ (snapshotOf now stats reg).devices.map (·.name) ↔
        ∃ st ∈ stats, st.device = d := by
  have hperm := perm_devices_snapshotOf now stats reg (·.name) (fun _ _ => rfl)
  obtain ⟨hkeys, hrows⟩ := foldl_attributeStat reg.sessions.values stats
  generalize stats.foldl (attributeStat reg.sessions.values) .empty =
    devices at hperm hkeys hrows
  have hnames : devices.values.map (·.name) = devices.keys := by
    unfold OrderedDict.values OrderedDict.keys
    rw [List.map_map]
    refine List.map_congr_left fun e he => ?_
    exact (hrows e.1 e.2 (OrderedDict.get?_eq_some_iff.mpr he)).1
  rw [hnames] at hperm
  refine ⟨hperm.nodup_iff.mpr devices.keys_nodup, fun d => ?_⟩
  rw [hperm.mem_iff, hkeys]

/-- **Attribution conserves I/O.**  Take any registry that rule changes,
refreshes and restarts lead to, and refresh it.  The report has one row for
each device with a statistic, and each row splits the rate of its device into
that of the matched pids and the rest; what no session observes is listed,
fastest first; and the aggregates of the active sessions add up to what is
attributed to sessions on all devices. -/
theorem attribution_conserves (plug : Plugins) (maxFinished : Nat)
    (ops : List RegistryOp)
    (hops : ∀ op ∈ ops, op.DistinctPids) (clock : Clock)
    (processes : List ProcessInfo)
    (h : DistinctPids processes) (stats : List ProcessIoStat) :
    let s := runOps plug (Store.fresh maxFinished) ops
    let snap := (refresh plug clock processes stats s).2
    let matched := matchedPids plug s.reg.rules processes
    ((snap.devices.map (·.name)).Nodup ∧
      ∀ d, d ∈ snap.devices.map (·.name) ↔ ∃ st ∈ stats, st.device = d) ∧
    (∀ dev ∈ snap.devices, Reports stats matched snap dev) ∧
    (snap.unmonitoredIo.Perm ((stats.filter
        (fun st => decide (st.pid ∉ matched ∧ 0 < st.iops))).map
          unmonitoredOf) ∧
      snap.unmonitoredIo.Pairwise (fun a b => b.ioRate ≤ a.ioRate)) ∧
    ((snap.sessions.filter (fun sess => decide (sess.status = .active))).map
        Session.measuredIops).sum
      = (snap.devices.map (·.attributedIops)).sum := by
  intro s snap matched
  have hs : s.Good := runOps_good plug (Store.fresh_good maxFinished) hops
  let reg := (refresh plug clock processes stats s).1.reg
  have hsnap : snap = snapshotOf clock.timeNs stats reg := rfl
  have hactive : ∀ pid, ActivePid reg.sessions.values pid ↔ pid ∈ matched :=
    activePid_iff plug clock stats hs h
  have hsessions : snap.sessions.Perm reg.sessions.values :=
    List.perm_insertionSort _ _
  refine ⟨names_devices_snapshotOf clock.timeNs stats reg, ?_, ⟨?_, ?_⟩, ?_⟩
  · intro dev hdev
    obtain ⟨row, hrow, rfl⟩ := mem_devices_snapshotOf hdev
    refine ⟨?_, hrow.total, ?_, hrow.nodup, ?_, ?_⟩
    · change row.totalIops = row.attributedIops + row.unattributedIops
      rw [hrow.total, hrow.attributed, hrow.unattributed]
      exact iopsOf_split _ _
    · exact hrow.attributed.trans (congrArg (fun p =>
        iopsOf ((statsOn stats row.name).filter p))
        (funext fun st => decide_eq_decide.mpr (hactive st.pid)))
    · intro id
      refine (hrow.contributing id).trans ?_
      constructor
      · intro ⟨sess, hsess, hrest⟩
        exact ⟨sess, hsessions.mem_iff.mpr hsess, hrest⟩
      · intro ⟨sess, hsess, hrest⟩
        exact ⟨sess, hsessions.mem_iff.mp hsess, hrest⟩
    · exact decide_eq_true_iff.trans (one_lt_busyPids stats row.name)
  · have hperm : snap.unmonitoredIo.Perm ((stats.filter (fun st =>
        decide (¬ ActivePid reg.sessions.values st.pid ∧ 0 < st.iops))).map
          unmonitoredOf) :=
      List.perm_insertionSort _ _
    simpa only [hactive] using hperm
  · refine List.pairwise_insertionSort _ _
  · have hsum := sum_aggregates plug clock stats hs h
    have hdevices :=
      perm_devices_snapshotOf clock.timeNs stats reg (·.attributedIops)
      (fun _ _ => rfl)
    have hfilter := ((hsessions.filter
      (fun sess => decide (sess.status = .active))).map
        Session.measuredIops).sum_eq
    refine hfilter.trans (hsum.trans ?_)
    rw [hsnap, hdevices.sum_eq, sum_attributed]
    simp only [hactive]
    rfl

/-- The I/O of a process on a device, with the rate alone. -/
def rateOnly (device : String) (pid : Int) (iops : ℚ) : ProcessIoStat where
  device := device.toList
  pid := pid
  comm := "fio".toList
  iops := iops
  readIops := iops
  writeIops := 0
  bandwidthBps := 0
  avgLatencyUs := 0
  ioSizeDominant := 0
  ioSizeHist := []
  queues := []
  queueDepthEst := 0
  seqRatio := none
  threads := []

/-- A matched process on two devices next to one that no rule selects. -/
def sharedDevice : List ProcessIoStat :=
  [rateOnly "nvme0" 7 100, rateOnly "nvme0" 9 30, rateOnly "nvme1" 7 50]

/-- The session of an earlier process with the same pid takes no part. -/
theorem attribution_conserves_sharedDevice :
    let s := runOps plainPlugins (Store.fresh 50) observedOnce
    let reused : List ProcessInfo :=
      [{ pid := 7, comm := "fio".toList, startTimeNs := 9 }]
    let snap := (refresh plainPlugins (stillClock 200) reused sharedDevice s).2
    snap.devices.map (fun dev =>
      (dev.totalIops, dev.attributedIops, dev.contributingSessions))
      = [(130, 100, ["sess_t_7_0009".toList]),
        (50, 50, ["sess_t_7_0009".toList])] ∧
    ((snap.sessions.filter (fun sess => decide (sess.status = .active))).map
        Session.measuredIops).sum
      = (snap.devices.map (·.attributedIops)).sum :=
  ⟨by decide +kernel,
    (attribution_conserves plainPlugins 50 observedOnce observedOnce_distinct
      (stillClock 200) _
      (by decide) sharedDevice).2.2.2⟩

end Telemetryd
