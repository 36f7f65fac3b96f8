import Telemetryd.TickConservation

/-!
# The order and the times of the I/O of a process

Of a command the collector remembers when it was submitted, and of a process
where its last read or write ended, also past the end of a tick.  From these it
counts which transfers are sequential and adds up the latencies.  A history of
the run knows all of the commands; the counters of a tick are what the history
says of its second, and so are the share of sequential I/O, the latency and the
queue depth that the daemon shows for a process.
-/

namespace Telemetryd

open PyText Counters GroupedSums

/-! ### The history -/

/-- The block after the last one of a transfer. -/
def SetupCmd.endLba (a : SetupCmd) : UInt64 := a.slba + a.nlb + 1

/-- Where the last transfer of a process ended, 0 if it had none. -/
def lastEnd (transfers : List SetupCmd) (process : Key2) : UInt64 :=
  ((transfers.filter fun b =>
    decide (b.process = process)).getLast?.map SetupCmd.endLba).getD 0

/-- The transfer starts where the last one of its process ended. -/
def SetupCmd.Continues (a : SetupCmd) (earlier : List SetupCmd) : Prop :=
  lastEnd earlier a.process ≠ 0 ∧ a.slba = lastEnd earlier a.process

instance (a : SetupCmd) (earlier : List SetupCmd) :
    Decidable (a.Continues earlier) :=
  inferInstanceAs (Decidable (_ ∧ _))

/-- The transfers of a run, and those since the last tick that were sequential
and that were not.  The commands completed since then, each with its latency. -/
structure History where
  ledger : Ledger := {}
  transfers : List SetupCmd := []
  sequential : List SetupCmd := []
  random : List SetupCmd := []
  timed : List (SetupCmd × UInt64) := []

namespace History

/-- The history after a probe. -/
def step (h : History) (p : Probe) : History :=
  let ledger := h.ledger.step p
  match p with
  | .setupCmd a =>
      { h with
        ledger := ledger
        transfers := if a.isIo then h.transfers ++ [a] else h.transfers
        sequential :=
          if a.isIo ∧ a.Continues h.transfers then h.sequential ++ [a]
          else h.sequential
        random := if a.isIo ∧ ¬ a.Continues h.transfers then h.random ++ [a]
          else h.random }
  | .completeRq a =>
      { h with
        ledger := ledger
        timed := h.timed ++ ((h.ledger.pending a.cmd).map fun b =>
          (b, a.nsecs - b.nsecs)).toList }
  | .nvmeTimeout _ => { h with ledger := ledger }
  | .interval =>
      { h with ledger := ledger, sequential := [], random := [], timed := [] }

/-- The history of a run. -/
def after (probes : List Probe) : History := probes.foldl step {}

/-- The timed commands of known processes. -/
def attributed (h : History) : List (SetupCmd × UInt64) :=
  h.timed.filter fun e => e.1.hasProcess

theorem ledger_after (probes : List Probe) :
    (after probes).ledger = Ledger.after probes := by
  have hrun : ∀ h : History, (probes.foldl step h).ledger =
      probes.foldl Ledger.step h.ledger := by
    induction probes with
    | nil => exact fun _ => rfl
    | cons p probes ih =>
        intro h
        rw [List.foldl_cons, List.foldl_cons, ih]
        cases p <;> rfl
  exact hrun {}

end History

/-! ### The collector and the history -/

/-- The maps and the memory of the collector are those of the history. -/
structure History.Kept (s : Collector) (h : History) : Prop where
  ledger : h.ledger.Kept s
  ends : ∀ k, word s.lastLbaEnd k = lastEnd h.transfers k
  sequential : Counts s.maps.procSeq h.sequential SetupCmd.process (fun _ => 1)
  random : Counts s.maps.procRand h.random SetupCmd.process (fun _ => 1)
  order : (h.sequential ++ h.random).Perm h.ledger.transfers
  completed : h.timed.map Prod.fst = h.ledger.completed
  latSum : Counts s.maps.latSum h.timed (fun e => e.1.queue) (fun e =>
    e.2.toNat)
  procLatSum :
    Counts s.maps.procLatSum h.attributed (fun e => e.1.process) (fun e =>
    e.2.toNat)

theorem lastEnd_append (transfers : List SetupCmd) (a : SetupCmd) (k : Key2) :
    lastEnd (transfers ++ [a]) k = if k = a.process then a.endLba
      else lastEnd transfers k := by
  unfold lastEnd
  rw [List.filter_append]
  by_cases hk : k = a.process
  · have hone : [a].filter (fun b => decide (b.process = k)) = [a] :=
      List.filter_cons_of_pos (decide_eq_true hk.symm)
    rw [if_pos hk, hone, List.getLast?_concat]
    rfl
  · have hnone : [a].filter (fun b => decide (b.process = k)) = [] :=
      List.filter_cons_of_neg fun h => hk (of_decide_eq_true h).symm
    rw [if_neg hk, hnone, List.append_nil]

/-- What is counted on one condition, and listed on the same one. -/
theorem Counters.Counts.ite_iff {α κ : Type} [DecidableEq κ] {m : Counters κ}
    {l : List α} {key : α → κ}
    {amount : α → Nat} (h : Counts m l key amount) (a : α) {b b' : Prop}
    [Decidable b] [Decidable b']
    (hb : b ↔ b') {v : UInt64} (hv : v = UInt64.ofNat (amount a)) :
    Counts (if b then Counters.add m (key a) v
      else m) (if b' then l ++ [a] else l) key amount := by
  have hadd := h.add a hv
  by_cases hc : b
  · rwa [if_pos hc, if_pos (hb.mp hc)]
  · rwa [if_neg hc, if_neg (mt hb.mpr hc)]

/-- A transfer is sequential or random. -/
theorem perm_order {sequential random submitted : List SetupCmd} {a : SetupCmd}
    {b : Prop} [Decidable b]
    (h : (sequential ++ random).Perm (submitted.filter SetupCmd.isIo)) :
    ((if a.isIo ∧ b then sequential ++ [a] else sequential) ++
      (if a.isIo ∧ ¬ b then random ++ [a]
        else random)).Perm ((submitted ++ [a]).filter SetupCmd.isIo) := by
  rw [List.filter_append]
  by_cases hio : a.isIo = true
  · rw [List.filter_cons_of_pos hio, List.filter_nil]
    by_cases hb : b
    · rw [if_pos ⟨hio, hb⟩, if_neg fun hn => hn.2 hb, List.append_assoc]
      refine (List.Perm.append_left _ List.perm_append_comm).trans ?_
      rw [← List.append_assoc]
      exact h.append_right _
    · rw [if_neg fun hs => hb hs.2, if_pos ⟨hio, hb⟩, ← List.append_assoc]
      exact h.append_right _
  · rwa [List.filter_cons_of_neg hio, List.filter_nil, List.append_nil,
      if_neg fun hs => hio hs.1,
      if_neg fun hr => hio hr.1]

namespace History.Kept

variable {s : Collector} {h : History}

theorem setupCmd (hk : h.Kept s) {a : SetupCmd} (ha : a.nsecs ≠ 0) :
    (h.step (.setupCmd a)).Kept (s.setupCmd a) := by
  have hprev : word s.lastLbaEnd (a.ctrl, a.pid) =
    lastEnd h.transfers a.process := hk.ends _
  have hcont :
      (word s.lastLbaEnd (a.ctrl, a.pid) ≠ 0 ∧
      a.slba = word s.lastLbaEnd (a.ctrl, a.pid)) ↔
      a.Continues h.transfers := by rw [hprev, SetupCmd.Continues]
  refine ⟨hk.ledger.setupCmd ha, fun k => ?_, ?_, ?_, perm_order hk.order,
    hk.completed, hk.latSum,
    hk.procLatSum⟩
  · have hends := hk.ends k
    show word (if a.isIo then s.lastLbaEnd.insert a.process a.endLba
      else s.lastLbaEnd) k =
      lastEnd (if a.isIo then h.transfers ++ [a] else h.transfers) k
    split
    · rw [word_insert, lastEnd_append, hends]
    · exact hends
  · exact hk.sequential.ite_iff a (and_congr_right fun _ => hcont) one_eq_ofNat
  · exact hk.random.ite_iff a (and_congr_right fun _ =>
      not_congr hcont) one_eq_ofNat

/-- **What a completion adds to the maps**: the time since the submission, if
that was seen. -/
theorem latencyMaps_cases (hk : h.Kept s) (a : CompleteRq) :
    (s.latencyMaps a = s.maps ∧ (h.step (.completeRq a)).timed = h.timed) ∨
      ∃ b : SetupCmd, b.queue = (a.ctrl, a.qid) ∧ b.process = (a.ctrl, b.pid) ∧
        s.latencyMaps a = s.maps.countLatency a (a.nsecs - b.nsecs) b.pid ∧
        (h.step (.completeRq a)).timed =
          h.timed ++ [(b, a.nsecs - b.nsecs)] := by
  have htracks := hk.ledger.tracks a.cmd
  have htimed : (h.step (.completeRq a)).timed =
      h.timed ++ ((h.ledger.pending a.cmd).map fun b =>
        (b, a.nsecs - b.nsecs)).toList := rfl
  unfold Collector.latencyMaps
  rw [htimed]
  cases hpending : h.ledger.pending a.cmd with
  | none =>
      rw [hpending] at htracks
      have hzero : word s.start a.cmd = 0 := htracks
      rw [if_neg (not_not.mpr hzero), Option.map_none, Option.toList_none,
        List.append_nil]
      exact .inl ⟨rfl, rfl⟩
  | some b =>
      rw [hpending] at htracks
      obtain ⟨hcmd, hnsecs, hword, hget⟩ := htracks
      have hpid : s.tgidOf a = b.pid := by
        unfold Collector.tgidOf
        rw [hget]
        rfl
      obtain ⟨hctrl, hqid, -⟩ : b.ctrl = a.ctrl ∧ b.qid = a.qid ∧
          b.cid = a.cid := by
        simpa [SetupCmd.cmd, CompleteRq.cmd] using hcmd
      rw [if_pos (by rw [hword]; exact hnsecs), hpid, hword]
      refine .inr ⟨b, ?_, ?_, rfl, rfl⟩
      · rw [SetupCmd.queue, hctrl, hqid]
      · rw [SetupCmd.process, hctrl]

/-- The latency of a completed command is added to those of its queue and its
process. -/
theorem latencyMaps (hk : h.Kept s) (a : CompleteRq) :
    Counts (s.latencyMaps a).latSum (h.step (.completeRq a)).timed (fun e =>
      e.1.queue)
        (fun e => e.2.toNat) ∧
      Counts (s.latencyMaps a).procLatSum (h.step (.completeRq a)).attributed
        (fun e => e.1.process)
        (fun e => e.2.toNat) := by
  unfold History.attributed
  rcases hk.latencyMaps_cases a with ⟨hmaps, htimed⟩ | ⟨b, hqueue, hprocess,
    hmaps, htimed⟩
  · rw [hmaps, htimed]
    exact ⟨hk.latSum, hk.procLatSum⟩
  · have hlat : a.nsecs - b.nsecs = UInt64.ofNat (a.nsecs - b.nsecs).toNat :=
      UInt64.ofNat_toNat.symm
    have hsum := hk.latSum.add (b, a.nsecs - b.nsecs) hlat
    have hproc :=
      Counts.filter (p := fun e : SetupCmd × UInt64 =>
      e.1.hasProcess) hk.procLatSum
      (b, a.nsecs - b.nsecs) (bne_iff_ne.symm : b.pid ≠ 0 ↔
        b.hasProcess = true) hlat
    rw [hqueue] at hsum
    rw [hprocess] at hproc
    rw [hmaps, htimed]
    exact ⟨hsum, hproc⟩

theorem completeRq (hk : h.Kept s) (a : CompleteRq) :
    (h.step (.completeRq a)).Kept (s.completeRq a).1 := by
  obtain ⟨hlat, hproc⟩ := hk.latencyMaps a
  have hmaps :
      (s.completeRq a).1.maps =
      { s.latencyMaps a with errCount := s.errCountAfter a } := by
    rw [Collector.completeRq_eq]
    rfl
  have hseq : (s.latencyMaps a).procSeq = s.maps.procSeq ∧
      (s.latencyMaps a).procRand = s.maps.procRand := by
    unfold Collector.latencyMaps
    split <;> exact ⟨rfl, rfl⟩
  refine ⟨hk.ledger.completeRq a, ?_, ?_, ?_, hk.order, ?_, ?_, ?_⟩
  · rw [Collector.completeRq_eq]
    exact hk.ends
  · rw [hmaps]
    exact hseq.1 ▸ hk.sequential
  · rw [hmaps]
    exact hseq.2 ▸ hk.random
  · show (h.timed ++ _).map Prod.fst = h.ledger.completed ++
      (h.ledger.pending a.cmd).toList
    rw [List.map_append, hk.completed]
    cases h.ledger.pending a.cmd <;> rfl
  · rw [hmaps]
    exact hlat
  · rw [hmaps]
    exact hproc

/-- **One probe** keeps the history and the collector together. -/
theorem step (o : PrintOrder) (hk : h.Kept s) {p : Probe} (hp : p.Timed) :
    (h.step p).Kept (s.step o p).1 := by
  cases p with
  | setupCmd a => exact hk.setupCmd hp
  | completeRq a => exact hk.completeRq a
  | nvmeTimeout a => exact hk
  | interval =>
      exact ⟨hk.ledger.step o hp, hk.ends, counts_empty _ _, counts_empty _ _,
        List.Perm.nil, rfl,
        counts_empty _ _, counts_empty _ _⟩

end History.Kept

/-- **The maps of a run are those of its history.** -/
theorem History.kept_run (o : PrintOrder) {probes : List Probe}
    (hprobes : ∀ p ∈ probes, p.Timed) :
    (History.after probes).Kept (Collector.run o {} probes) := by
  have hrun : ∀ (s : Collector) (h : History), h.Kept s →
      (probes.foldl History.step h).Kept (s.run o probes) := by
    induction probes with
    | nil => exact fun _ _ hk => hk
    | cons p probes ih =>
        intro s h hk
        exact ih (fun q hq => hprobes q (List.mem_cons_of_mem _ hq)) _ _
          (hk.step o (hprobes p List.mem_cons_self))
  refine hrun {} {} ⟨⟨tallied_empty _ _ _, fun _ => rfl⟩, fun _ =>
    rfl, counts_empty _ _, counts_empty _ _,
    List.Perm.nil, rfl, counts_empty _ _, counts_empty _ _⟩

/-! ### What is shown of a process -/

namespace History

variable (h : History) (c p : Int64)

/-- The sequential transfers of a process. -/
def sequentialOf : Nat :=
  groupSum SetupCmd.process (fun _ => 1) h.sequential (c, p)

/-- Its completed commands. -/
def completedOf : Nat :=
  groupSum SetupCmd.process (fun _ => 1) h.ledger.attributed (c, p)

/-- Their latencies in all, in nanoseconds. -/
def latencyOf : Nat :=
  groupSum (fun e => e.1.process) (fun e => e.2.toNat) h.attributed (c, p)

/-- No sum of latencies runs over. -/
def LatenciesFit : Prop := ∀ c p, h.latencyOf c p < 2 ^ 64

theorem latenciesFit_of_sum {h : History}
    (hsum : (h.attributed.map fun e => e.2.toNat).sum < 2 ^ 64) :
    h.LatenciesFit := by
  intro c p
  refine lt_of_le_of_lt ?_ hsum
  exact (List.filter_sublist.map _).sum_le_sum fun _ _ => Nat.zero_le _

end History

/-- A table has an entry for each value that `part` takes on some commands, with
the number of the commands that have it. -/
def Tabulates {R : Type} [NatCast R] (table : List (Int × R))
    (commands : List SetupCmd)
    (part : SetupCmd → Int) : Prop :=
  ∀ i n, (i, n) ∈ table ↔
    i ∈ commands.map part ∧
      n = ((commands.filter fun a => decide (part a = i)).length : Nat)

/-- The commands of a process. -/
def commandsOf (commands : List SetupCmd) (c p : Int64) : List SetupCmd :=
  commands.filter fun a => decide (a.process = (c, p))

/-- A row shows a process of the history: its commands, reads, writes and bytes,
each as a rate over the second, its transfers by size, its commands by queue and
by thread, the order of its transfers, its mean latency and its queue depth.
The depth is the commands of the second, each there for as long as one takes. -/
structure ProcessIoStat.Shows (row : ProcessIoStat) (h : History)
    (c p : Int64) : Prop where
  device : row.device = ctrlName c.toInt
  pid : row.pid = p.toInt
  commands : row.iops = (commandsOf h.ledger.submitted c p).length
  reads : row.readIops = (commandsOf h.ledger.reads c p).length
  writes : row.writeIops = (commandsOf h.ledger.writes c p).length
  bytes : row.bandwidthBps =
    ((commandsOf h.ledger.transfers c p).map SetupCmd.bytes).sum
  sizes : Tabulates row.ioSizeHist (commandsOf h.ledger.transfers c p)
    (fun a => a.bytes)
  queues : Tabulates row.queues (commandsOf h.ledger.submitted c p) (fun a =>
    a.qid.toInt)
  threads : Tabulates (row.threads.map fun t => (t.tid, t.iops))
    (commandsOf h.ledger.submitted c p) (fun a => a.tid.toInt)
  order : row.seqRatio = if h.ledger.transfersOf c p = 0 then none
    else some ((h.sequentialOf c p : ℚ) / h.ledger.transfersOf c p)
  latency : row.avgLatencyUs = (if h.completedOf c p = 0 then 0
    else (h.latencyOf c p : ℚ) / h.completedOf c p) / 1000
  depth : row.queueDepthEst = h.ledger.opsOf c p * (row.avgLatencyUs / 1000000)

theorem length_commandsOf (commands : List SetupCmd) (c p : Int64) :
    (commandsOf commands c p).length =
      groupSum SetupCmd.process (fun _ => 1) commands (c, p) :=
  (groupSum_one _ _ _).symm

/-- **A table of a process counts its commands** by what the map has for a third
key. -/
theorem tabulates_tableOf {d : Counters Key3} {commands : List SetupCmd}
    {third : SetupCmd → Int64}
    (h : Counts d commands (fun a => (a.ctrl, a.pid, third a)) (fun _ => 1))
    (hfits : GroupsFit (fun a =>
      (a.ctrl, a.pid, third a)) (fun _ => 1) commands) (c p : Int64) :
    Tabulates (tableOf d c p) (commandsOf commands c p) (fun a =>
      (third a).toInt) := by
  have hcount : ∀ k : Int64, (word d (c, p, k)).toNat
      = ((commandsOf commands c p).filter fun a =>
        decide ((third a).toInt = k.toInt)).length := by
    intro k
    rw [h.toNat_word (hfits _), groupSum_one, commandsOf, List.filter_filter]
    refine congrArg List.length (List.filter_congr fun a _ => ?_)
    rw [← Bool.decide_and]
    refine decide_eq_decide.mpr ?_
    simp only [SetupCmd.process, Prod.mk.injEq, Int64.toInt_inj]
    tauto
  intro i n
  unfold tableOf
  constructor
  · intro hmem
    obtain ⟨⟨⟨c', p', k⟩, v⟩, he, heq⟩ := List.mem_map.mp hmem
    obtain ⟨hitem, hprocess⟩ := List.mem_filter.mp he
    obtain ⟨rfl, rfl⟩ := Prod.mk.inj (of_decide_eq_true hprocess)
    obtain ⟨rfl, rfl⟩ := Prod.mk.inj heq
    obtain ⟨a, ha, hkey⟩ := (h.mem_keys _).mp (List.mem_map_of_mem hitem)
    obtain ⟨hctrl, hrest⟩ := Prod.mk.inj hkey
    obtain ⟨hpid, hthird⟩ := Prod.mk.inj hrest
    refine ⟨List.mem_map.mpr ⟨a, ?_, congrArg Int64.toInt hthird⟩, ?_⟩
    · exact List.mem_filter.mpr ⟨ha, decide_eq_true (Prod.ext hctrl hpid)⟩
    · exact congrArg Nat.cast
        ((congrArg UInt64.toNat (word_of_mem hitem)).symm.trans (hcount k))
  · rintro ⟨hin, rfl⟩
    obtain ⟨a, ha, rfl⟩ := List.mem_map.mp hin
    obtain ⟨hmem, hprocess⟩ := List.mem_filter.mp ha
    obtain ⟨hctrl, hpid⟩ := Prod.mk.inj (of_decide_eq_true hprocess)
    have hkey : (c, p, third a) ∈ d.keys :=
      (h.mem_keys _).mpr ⟨a, hmem, Prod.ext hctrl (Prod.ext hpid rfl)⟩
    obtain ⟨e, he, hfst⟩ := List.mem_map.mp hkey
    refine List.mem_map.mpr ⟨e, List.mem_filter.mpr ⟨he, ?_⟩, ?_⟩
    · rw [hfst]
      exact decide_eq_true rfl
    · have hword := (congrArg UInt64.toNat (word_of_mem he)).symm
      rw [hfst] at hword
      rw [hfst, hword, hcount]

/-- A table in another order is the same. -/
theorem Tabulates.perm {table table' : List (Int × Int)}
    {commands : List SetupCmd}
    {part : SetupCmd → Int} (h : Tabulates table' commands part)
    (hperm : table.Perm table') :
    Tabulates table commands part :=
  fun i n => hperm.mem_iff.trans (h i n)

/-- **The threads of a process count its commands**, under whatever names they
ran. -/
theorem tabulates_threadRows {m : Maps} {l : Ledger} (h : Tallied m l)
    (hfits : l.Fits)
    {c p : Int64} {raw : RawProc} (hraw : DecodedProc m c p raw) :
    Tabulates ((threadRows raw.threads).map fun t =>
      (t.tid, t.iops)) (commandsOf l.submitted c p)
      (fun a => a.tid.toInt) := by
  have hcount : ∀ i, groupSum Prod.fst Prod.snd (m.threadsOf c p) i
      = (((commandsOf l.submitted c p).filter fun a =>
        decide (a.tid.toInt = i)).length : Nat) := by
    intro i
    have hitems := h.thrOps.groupSum_items hfits.threads
      (fun k => ((k.1, k.2.1), k.2.2.1.toInt)) ((c, p), i)
    have hgroup : groupSum Prod.fst Prod.snd (m.threadsOf c p) i
        = groupSum (fun e =>
          ((e.1.1, e.1.2.1), e.1.2.2.1.toInt)) (fun e => (e.2.toNat : Int))
          m.thrOps.items ((c, p), i) := by
      unfold Maps.threadsOf groupSum
      rw [List.filter_map, List.map_map, List.filter_filter]
      refine congrArg List.sum (congrArg _ (List.filter_congr fun e _ => ?_))
      simp only [Function.comp_apply, ← Bool.decide_and, Prod.mk.injEq]
      exact decide_eq_decide.mpr and_comm
    rw [hgroup, groupSum_natCast, hitems, groupSum_one, commandsOf,
      List.filter_filter]
    refine congrArg Nat.cast (congrArg List.length (List.filter_congr fun a _ =>
      ?_))
    rw [← Bool.decide_and]
    refine decide_eq_decide.mpr ?_
    simp only [SetupCmd.process, SetupCmd.thread, Prod.mk.injEq]
    tauto
  have hkeys : ∀ i, i ∈ (m.threadsOf c p).map Prod.fst ↔
      i ∈ (commandsOf l.submitted c p).map fun a => a.tid.toInt := by
    intro i
    unfold Maps.threadsOf
    rw [List.map_map]
    constructor
    · intro hin
      obtain ⟨e, he, rfl⟩ := List.mem_map.mp hin
      obtain ⟨hitem, hprocess⟩ := List.mem_filter.mp he
      obtain ⟨a, ha, hkey⟩ :=
        (h.thrOps.mem_keys _).mp (List.mem_map_of_mem hitem)
      refine List.mem_map.mpr ⟨a, List.mem_filter.mpr ⟨ha, ?_⟩, ?_⟩
      · rw [← hkey] at hprocess
        exact hprocess
      · rw [Function.comp_apply, ← hkey]
        rfl
    · intro hin
      obtain ⟨a, ha, rfl⟩ := List.mem_map.mp hin
      obtain ⟨hmem, hprocess⟩ := List.mem_filter.mp ha
      obtain ⟨e, he, hkey⟩ :=
        List.mem_map.mp ((h.thrOps.mem_keys _).mpr ⟨a, hmem, rfl⟩)
      refine List.mem_map.mpr ⟨e, List.mem_filter.mpr ⟨he, ?_⟩, ?_⟩
      · rw [hkey]
        exact hprocess
      · rw [Function.comp_apply, hkey]
        rfl
  intro i n
  have hshown :
      (i, n) ∈ (threadRows raw.threads).map (fun t => (t.tid, t.iops)) ↔
      ∃ k : Int, raw.opsByThread.get? i = some k ∧ (k : ℚ) = n := by
    have hitems : ∀ k, raw.opsByThread.get? i = some k ↔
        ∃ e ∈ raw.threads.items, (e.1, e.2.2) = (i, k) := by
      intro k
      rw [OrderedDict.get?_eq_some_iff]
      exact List.mem_map
    simp only [hitems, threadRows, List.map_map, List.mem_map,
      List.mem_insertionSort,
      Function.comp_apply, Prod.mk.injEq]
    constructor
    · rintro ⟨e, he, rfl, rfl⟩
      exact ⟨e.2.2, ⟨e, he, rfl, rfl⟩, rfl⟩
    · rintro ⟨k, ⟨e, he, rfl, rfl⟩, rfl⟩
      exact ⟨e, he, rfl, rfl⟩
  rw [hshown, hraw.threads]
  constructor
  · rintro ⟨k, hk, rfl⟩
    split at hk
    · next hin =>
      refine ⟨(hkeys i).mp hin, ?_⟩
      rw [← Option.some.inj hk, hcount, Int.cast_natCast]
    · exact absurd hk (by simp)
  · rintro ⟨hin, rfl⟩
    rw [if_pos ((hkeys i).mpr hin)]
    exact ⟨_, rfl, by rw [hcount, Int.cast_natCast]⟩

theorem History.Kept.shows {s : Collector} {h : History} (hk : h.Kept s)
    (hfits : h.ledger.Fits)
    (hlat : h.LatenciesFit) {c p : Int64} {raw : RawProc}
    (hraw : DecodedProc s.maps c p raw) :
    (processRow c.toInt p.toInt raw).Shows h c p := by
  have hsum : h.sequentialOf c p +
      groupSum SetupCmd.process (fun _ => 1) h.random (c, p) =
      h.ledger.transfersOf c p := by
    rw [History.sequentialOf, ← groupSum_append]
    exact groupSum_perm _ _ hk.order _
  have hlt : h.ledger.transfersOf c p < 2 ^ 64 :=
    hfits.transfersOfProcess (c, p)
  have hseq : raw.seq = h.sequentialOf c p := by
    rw [hraw.seq,
      hk.sequential.toNat_word (by rw [History.sequentialOf] at hsum; omega)]
    rfl
  have hboth : raw.seq + raw.rand = h.ledger.transfersOf c p := by
    rw [hseq, hraw.rand, hk.random.toNat_word (by omega), ← hsum, Nat.cast_add]
  have hcnt : raw.latCnt = h.completedOf c p := by
    rw [hraw.latCnt,
      hk.ledger.tallied.procLatCnt.toNat_word (hfits.attributed _)]
    rfl
  have htotal : raw.latSum = h.latencyOf c p := by
    rw [hraw.latSum, hk.procLatSum.toNat_word (hlat c p)]
    rfl
  have hops : raw.ops = h.ledger.opsOf c p :=
    hraw.ops.trans (hk.ledger.tallied.opsOf_eq hfits c p)
  have htallied := hk.ledger.tallied
  refine ⟨rfl, rfl, ?_, ?_, ?_, ?_, ?_, ?_,
    tabulates_threadRows htallied hfits hraw, ?_, ?_, ?_⟩
  · show (raw.ops : ℚ) = _
    rw [hops, length_commandsOf, Int.cast_natCast]
    rfl
  · show (raw.read : ℚ) = _
    rw [hraw.read, htallied.procRd.toNat_word (hfits.readsOfProcess _),
      length_commandsOf,
      Int.cast_natCast]
  · show (raw.write : ℚ) = _
    rw [hraw.write, htallied.procWr.toNat_word (hfits.writesOfProcess _),
      length_commandsOf,
      Int.cast_natCast]
  · show (raw.bytes : ℚ) = _
    rw [hraw.bytes, htallied.procBytes.toNat_word (hfits.processBytes _),
      Int.cast_natCast]
    rfl
  · have hsizes : (fun a : SetupCmd => (a.bytes : Int)) = fun a =>
        (a.transferred.toInt64).toInt :=
      funext fun a => a.toInt_size.symm
    rw [hsizes]
    exact (tabulates_tableOf htallied.procBs hfits.sizes c p).perm
      ((List.perm_insertionSort _ _).trans hraw.sizes)
  · exact (tabulates_tableOf htallied.procQ hfits.processQueues c p).perm
      ((List.perm_insertionSort _ _).trans hraw.queues)
  · show (if raw.seq + raw.rand = 0 then none
      else some ((raw.seq : ℚ) / (raw.seq + raw.rand : Int))) = _
    rw [hboth, hseq]
    simp only [Nat.cast_eq_zero, Int.cast_natCast]
  · show (if raw.latCnt = 0 then 0 else (raw.latSum : ℚ) / raw.latCnt) / 1000 =
      _
    rw [hcnt, htotal]
    simp only [Nat.cast_eq_zero, Int.cast_natCast]
  · show (if (processRow c.toInt p.toInt raw).avgLatencyUs ≠ 0 then
      (raw.ops : ℚ) * ((processRow c.toInt p.toInt raw).avgLatencyUs / 1000000)
        else 0) = _
    rw [hops, Int.cast_natCast]
    split
    · rfl
    · next hzero =>
      rw [not_not.mp hzero, zero_div, mul_zero]

section

variable [UnicodeDb] (o : PrintOrder)

/-- **The rows of a second.**  Each row shows a process as it was in the
history, and every process that submitted a command has one. -/
theorem KilledRun.LastTick.process_rows {r : KilledRun} (hr : r.Harmless)
    {before : List Probe} {rest : Bytes}
    (hlast : r.LastTick o before rest) (htimed : ∀ p ∈ r.probes, p.Timed)
    (hfits : (Ledger.after before).Fits)
    (hlat : (History.after before).LatenciesFit)
    (hin : (tickBytes o (Collector.run o {} before).maps ++ rest).length ≤
      procTailBytes) :
    ∃ rows, readProcessStats (some (r.bytes o)) none = .ok rows ∧
      (∀ row ∈ rows, ∃ c p, row.Shows (History.after before) c p) ∧
      ∀ a ∈ (Ledger.after before).submitted, ∃ row ∈ rows,
        row.Shows (History.after before) a.ctrl a.pid := by
  obtain ⟨after, hprobes⟩ := hlast.probes
  have hkept : (History.after before).Kept (Collector.run o {} before) := by
    refine History.kept_run o fun p hp => htimed p ?_
    rw [hprobes]
    exact List.mem_append_left _ hp
  obtain ⟨procs, hparse, hprocs⟩ := hlast.parseTick_eq o hr hin
  have hledger := History.ledger_after before
  rw [← hledger] at hfits
  have hsmall : ∀ raw ∈ procs.values, raw.Small := by
    intro raw hraw
    obtain ⟨c, p, hdecoded⟩ := hprocs.of_mem_values hraw
    exact hdecoded.small hkept.ledger.tallied hfits
  have hrows : readProcessStats (some (r.bytes o)) none =
      .ok (processRows procs none) := by
    unfold readProcessStats
    rw [hparse]
    exact processStats_eq_ok hsmall none
  have hmem : ∀ row, row ∈ processRows procs none ↔
      ∃ e ∈ procs.items, processRow e.1.1 e.1.2 e.2 = row := by
    intro row
    unfold processRows
    rw [(List.perm_insertionSort _ _).mem_iff, List.mem_map]
    simp
  have hshows : ∀ e ∈ procs.items, ∃ c p, e.1 = pairOf c p ∧
      (processRow e.1.1 e.1.2 e.2).Shows (History.after before) c p := by
    intro e he
    have hget : procs.get? e.1 = some e.2 := OrderedDict.get?_eq_some_iff.mpr he
    obtain ⟨c, p, hkey, -⟩ :=
      (hprocs.keys e.1).mp (OrderedDict.mem_keys_iff.mpr ⟨_, hget⟩)
    rw [hkey] at hget ⊢
    exact ⟨c, p, rfl, hkept.shows hfits hlat (hprocs.counters c p e.2 hget)⟩
  refine ⟨_, hrows, fun row hrow => ?_, fun a ha => ?_⟩
  · obtain ⟨e, he, rfl⟩ := (hmem row).mp hrow
    obtain ⟨c, p, -, hshow⟩ := hshows e he
    exact ⟨c, p, hshow⟩
  · rw [← hledger] at ha
    have hkey : a.named ∈ (Collector.run o {} before).maps.procOps.keys :=
      (hkept.ledger.tallied.procOps.mem_keys _).mpr ⟨a, ha, rfl⟩
    have hprocess : (Collector.run o {} before).maps.HasProcess a.ctrl a.pid :=
      .inl ⟨a.comm, hkey⟩
    obtain ⟨e, he, heq⟩ :=
      List.mem_map.mp ((hprocs.keys _).mpr ⟨a.ctrl, a.pid, rfl, hprocess⟩)
    obtain ⟨c, p, hpair, hshow⟩ := hshows e he
    obtain ⟨rfl, rfl⟩ := Prod.mk.inj (pairOf_eq_iff.mp (hpair.symm.trans heq))
    exact ⟨_, (hmem _).mpr ⟨e, he, rfl⟩, hshow⟩

end

section

attribute [local instance] UnicodeDb.ascii

/-- A read of the first block, before a tick, and after it one of the second
block that takes two microseconds. -/
def streamedReads : List Probe :=
  let read : SetupCmd := { flushOf7 with opcode := 2 }
  [.setupCmd read, .completeRq ⟨2000, 0, 1, 5, 0, 0⟩, .interval,
    .setupCmd { read with nsecs := 3000, cdw10 := fun i => if i = 0 then 1
      else 0 },
    .completeRq ⟨5000, 0, 1, 5, 0, 0⟩]

theorem harmless_streamedReads :
    ∀ p ∈ streamedReads ++ [.interval], p.Harmless ∧ p.Timed := by
  have hx : nameX.Harmless := ⟨by decide, by decide⟩
  intro p hp
  simp only [streamedReads, List.cons_append, List.nil_append, List.mem_cons,
    List.not_mem_nil, or_false] at hp
  rcases hp with rfl | rfl | rfl | rfl | rfl | rfl
  · exact ⟨hx, by unfold Probe.Timed; decide⟩
  · exact ⟨trivial, trivial⟩
  · exact ⟨trivial, trivial⟩
  · exact ⟨hx, by unfold Probe.Timed; decide⟩
  · exact ⟨trivial, trivial⟩
  · exact ⟨trivial, trivial⟩

theorem process_rows_streamedReads : ∃ rows row,
    readProcessStats
      (some ((wholeRun .inserted (streamedReads ++ [.interval])).bytes
      .inserted)) none
      = .ok rows ∧ row ∈ rows ∧ row.seqRatio = some 1 ∧
        row.avgLatencyUs = 2 := by
  have hall := harmless_streamedReads
  obtain ⟨rows, hrows, -, hall⟩ :=
    KilledRun.LastTick.process_rows .inserted (fun p hp => (hall p hp).1)
    (lastTick_wholeRun .inserted streamedReads fun p hp =>
      absurd hp List.not_mem_nil)
    (fun p hp => (hall p hp).2) (Ledger.fits_of_few (by decide) (by decide))
    (History.latenciesFit_of_sum (by decide)) (by decide +kernel)
  obtain ⟨row, hrow, hshows⟩ := hall _ List.mem_cons_self
  refine ⟨rows, row, hrows, hrow, ?_, ?_⟩
  · have hcounts : (History.after streamedReads).sequentialOf 0 7 = 1 ∧
        (History.after streamedReads).ledger.transfersOf 0 7 = 1 := by decide
    refine hshows.order.trans ?_
    show (if (History.after streamedReads).ledger.transfersOf 0 7 = 0 then none
      else some
      (((History.after streamedReads).sequentialOf 0 7 : ℚ) /
        (History.after streamedReads).ledger.transfersOf 0 7)) = some 1
    rw [hcounts.1, hcounts.2]
    norm_num
  · have htimes : (History.after streamedReads).completedOf 0 7 = 1 ∧
        (History.after streamedReads).latencyOf 0 7 = 2000 := by decide
    refine hshows.latency.trans ?_
    show (if (History.after streamedReads).completedOf 0 7 = 0 then 0 else
      ((History.after streamedReads).latencyOf 0 7 : ℚ) /
        (History.after streamedReads).completedOf 0 7) / 1000 = 2
    rw [htimes.1, htimes.2]
    norm_num

end

end Telemetryd
