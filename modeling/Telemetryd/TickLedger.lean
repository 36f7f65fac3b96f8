import Telemetryd.DataAccounting

/-!
# What the counters of a tick count

A ledger of a run: the commands that were submitted since the last tick, those
that were completed since then, and those that are still to be completed.  Some
fifteen maps are updated by a submission or a completion, each on its own
condition and under its own key, and cleared by the tick; each of them counts a
part of the ledger.
-/

namespace Telemetryd

open Counters GroupedSums

/-! ### The ledger -/

/-- The commands that are to be completed, by their ids, and the commands that
were submitted and completed since the last tick.  A completed command is
listed as it was submitted. -/
structure Ledger where
  pending : Key3 → Option SetupCmd := fun _ => none
  submitted : List SetupCmd := []
  completed : List SetupCmd := []

namespace SetupCmd

variable (a : SetupCmd)

/-- The process under its name. -/
def named : Int64 × Int64 × Comm := (a.ctrl, a.pid, a.comm)

/-- The thread under its name. -/
def thread : Int64 × Int64 × Int64 × Comm := (a.ctrl, a.pid, a.tid, a.comm)

/-- The queue that the process uses. -/
def processQueue : Key3 := (a.ctrl, a.pid, a.qid)

/-- The size of a transfer of the process. -/
def processSize : Key3 := (a.ctrl, a.pid, a.transferred.toInt64)

/-- The bytes that a command transfers. -/
def bytes : Nat := a.transferred.toNat

/-- The command is a read. -/
def isRead : Bool := a.opcode == 2

/-- The command is a write. -/
def isWrite : Bool := a.opcode == 1

/-- A known process submitted the command. -/
def hasProcess : Bool := a.pid != 0

end SetupCmd

namespace Ledger

/-- The ledger after a probe. -/
def step (l : Ledger) : Probe → Ledger
  | .setupCmd a =>
      { l with
        pending := fun k => if k = a.cmd then some a else l.pending k
        submitted := l.submitted ++ [a] }
  | .completeRq a =>
      { l with
        pending := fun k => if k = a.cmd then none else l.pending k
        completed := l.completed ++ (l.pending a.cmd).toList }
  | .nvmeTimeout _ => l
  | .interval => { l with submitted := [], completed := [] }

/-- The ledger of a run. -/
def after (probes : List Probe) : Ledger := probes.foldl step {}

variable (l : Ledger)

/-- The submitted reads and writes. -/
def transfers : List SetupCmd := l.submitted.filter SetupCmd.isIo

/-- The reads of the tick. -/
def reads : List SetupCmd := l.submitted.filter SetupCmd.isRead

/-- The writes of the tick. -/
def writes : List SetupCmd := l.submitted.filter SetupCmd.isWrite

/-- The completed commands of known processes. -/
def attributed : List SetupCmd := l.completed.filter SetupCmd.hasProcess

end Ledger

/-! ### The maps -/

/-- The transfers are counted as sequential or as random. -/
def SplitByOrder (m : Maps) (transfers : List SetupCmd) : Prop :=
  ∃ sequential random,
    Counts m.procSeq sequential SetupCmd.process (fun _ => 1) ∧
    Counts m.procRand random SetupCmd.process (fun _ => 1) ∧
    (sequential ++ random).Perm transfers

/-- The maps count what is in the ledger. -/
structure Tallied (m : Maps) (l : Ledger) : Prop where
  readCount : Counts m.readCount l.reads SetupCmd.queue (fun _ => 1)
  writeCount : Counts m.writeCount l.writes SetupCmd.queue (fun _ => 1)
  bytesSum : Counts m.bytesSum l.transfers SetupCmd.queue SetupCmd.bytes
  procOps : Counts m.procOps l.submitted SetupCmd.named (fun _ => 1)
  thrOps : Counts m.thrOps l.submitted SetupCmd.thread (fun _ => 1)
  procQ : Counts m.procQ l.submitted SetupCmd.processQueue (fun _ => 1)
  procRd : Counts m.procRd l.reads SetupCmd.process (fun _ => 1)
  procWr : Counts m.procWr l.writes SetupCmd.process (fun _ => 1)
  procBytes : Counts m.procBytes l.transfers SetupCmd.process SetupCmd.bytes
  procBs : Counts m.procBs l.transfers SetupCmd.processSize (fun _ => 1)
  order : SplitByOrder m l.transfers
  latCount : Counts m.latCount l.completed SetupCmd.queue (fun _ => 1)
  opCount : m.opCount = m.latCount
  procLatCnt : Counts m.procLatCnt l.attributed SetupCmd.process (fun _ => 1)

/-- What the collector keeps of a command that is to be completed. -/
def Collector.Tracks (s : Collector) (k : Key3) : Option SetupCmd → Prop
  | none => word s.start k = 0
  | some a =>
      a.cmd = k ∧ a.nsecs ≠ 0 ∧ word s.start k = a.nsecs ∧
        s.cmdTgid.get? k = some a.pid

/-- The collector and the ledger of a run agree. -/
structure Ledger.Kept (s : Collector) (l : Ledger) : Prop where
  tallied : Tallied s.maps l
  tracks : ∀ k, s.Tracks k (l.pending k)

/-- The time of a submission is not 0. -/
def Probe.Timed : Probe → Prop
  | .setupCmd a => a.nsecs ≠ 0
  | _ => True

/-! ### A submission -/

/-- One, as a word. -/
theorem one_eq_ofNat : (1 : UInt64) = UInt64.ofNat 1 := rfl

/-- The bytes, as a word. -/
theorem SetupCmd.transferred_eq_ofNat (a : SetupCmd) :
    a.transferred = UInt64.ofNat a.bytes :=
  UInt64.ofNat_toNat.symm

/-- A transfer is counted in one of the two maps. -/
theorem SplitByOrder.setupCmd {m : Maps} {l : List SetupCmd}
    (h : SplitByOrder m (l.filter SetupCmd.isIo))
    (a : SetupCmd) (prevEnd : UInt64) :
    SplitByOrder (m.countProcess a prevEnd)
      ((l ++ [a]).filter SetupCmd.isIo) := by
  obtain ⟨sequential, random, hseq, hrand, hperm⟩ := h
  have hseq' :=
    hseq.ite a (a.isIo = true ∧ prevEnd ≠ 0 ∧ a.slba = prevEnd) one_eq_ofNat
  have hrand' :=
    hrand.ite a (a.isIo = true ∧
    ¬ (prevEnd ≠ 0 ∧ a.slba = prevEnd)) one_eq_ofNat
  refine ⟨_, _, hseq', hrand', ?_⟩
  rw [List.filter_append]
  by_cases hio : a.isIo = true
  · rw [List.filter_cons_of_pos hio, List.filter_nil]
    by_cases hend : prevEnd ≠ 0 ∧ a.slba = prevEnd
    · rw [if_pos ⟨hio, hend⟩, if_neg fun hn => hn.2 hend, List.append_assoc]
      refine (List.Perm.append_left _ List.perm_append_comm).trans ?_
      rw [← List.append_assoc]
      exact hperm.append_right _
    · rw [if_neg fun hs => hend hs.2, if_pos ⟨hio, hend⟩, ← List.append_assoc]
      exact hperm.append_right _
  · rw [List.filter_cons_of_neg hio, List.filter_nil, List.append_nil,
      if_neg fun hs => hio hs.1,
      if_neg fun hr => hio hr.1]
    exact hperm

/-- **A submission is counted** in the maps of its queue and of its process. -/
theorem Tallied.setupCmd {m : Maps} {l : Ledger} (h : Tallied m l)
    (a : SetupCmd) (prevEnd : UInt64) :
    Tallied ((m.countQueue a).countProcess a prevEnd) (l.step (.setupCmd a))
      where
  readCount := h.readCount.filter a (beq_iff_eq.symm) one_eq_ofNat
  writeCount := h.writeCount.filter a (beq_iff_eq.symm) one_eq_ofNat
  bytesSum := h.bytesSum.filter a Iff.rfl a.transferred_eq_ofNat
  procOps := h.procOps.add a one_eq_ofNat
  thrOps := h.thrOps.add a one_eq_ofNat
  procQ := h.procQ.add a one_eq_ofNat
  procRd := h.procRd.filter a (beq_iff_eq.symm) one_eq_ofNat
  procWr := h.procWr.filter a (beq_iff_eq.symm) one_eq_ofNat
  procBytes := h.procBytes.filter a Iff.rfl a.transferred_eq_ofNat
  procBs := h.procBs.filter a Iff.rfl one_eq_ofNat
  order := SplitByOrder.setupCmd h.order a prevEnd
  latCount := h.latCount
  opCount := h.opCount
  procLatCnt := h.procLatCnt

/-- A submission keeps the ledger. -/
theorem Ledger.Kept.setupCmd {s : Collector} {l : Ledger} (h : l.Kept s)
    {a : SetupCmd} (ha : a.nsecs ≠ 0) :
    (l.step (.setupCmd a)).Kept (s.setupCmd a) := by
  refine ⟨h.tallied.setupCmd a _, fun k => ?_⟩
  have hstart : word (s.setupCmd a).start k = if k = a.cmd then a.nsecs
      else word s.start k :=
    word_insert _ _ _ _
  have htgid : (s.setupCmd a).cmdTgid.get? k = if k = a.cmd then some a.pid
      else s.cmdTgid.get? k :=
    OrderedDict.get?_insert _ _ _ _
  have hpending : (l.step (.setupCmd a)).pending k = if k = a.cmd then some a
    else l.pending k := rfl
  rw [hpending]
  have htracks := h.tracks k
  by_cases hk : k = a.cmd
  · rw [if_pos hk] at hstart htgid ⊢
    exact ⟨hk.symm, ha, hstart, htgid⟩
  · rw [if_neg hk] at hstart htgid ⊢
    unfold Collector.Tracks at htracks ⊢
    rw [hstart, htgid]
    exact htracks

/-! ### A completion -/

/-- The error counters have no part in the ledger. -/
theorem Tallied.errCount {m : Maps} {l : Ledger} (h : Tallied m l)
    (errors : Counters Key3) :
    Tallied { m with errCount := errors } l :=
  ⟨h.readCount, h.writeCount, h.bytesSum, h.procOps, h.thrOps, h.procQ,
    h.procRd, h.procWr, h.procBytes,
    h.procBs, h.order, h.latCount, h.opCount, h.procLatCnt⟩

/-- **A completed command is counted** for its queue, and for the process that
submitted it. -/
theorem Tallied.countLatency {m : Maps} {l : Ledger} (h : Tallied m l)
    {a : CompleteRq} {b : SetupCmd}
    (hcmd : b.cmd = a.cmd) (lat : UInt64) :
    Tallied (m.countLatency a lat b.pid) { l with completed := l.completed ++
      [b] } := by
  obtain ⟨hctrl, hqid, -⟩ : b.ctrl = a.ctrl ∧ b.qid = a.qid ∧
      b.cid = a.cid := by
    simpa [SetupCmd.cmd, CompleteRq.cmd] using hcmd
  have hqueue : b.queue = (a.ctrl, a.qid) := by rw [SetupCmd.queue, hctrl, hqid]
  have hprocess : b.process = (a.ctrl, b.pid) := by rw [SetupCmd.process, hctrl]
  have hcount := h.latCount.add b one_eq_ofNat
  have hattributed :=
    h.procLatCnt.filter b (bne_iff_ne.symm : b.pid ≠ 0 ↔
    b.hasProcess = true) one_eq_ofNat
  rw [hqueue] at hcount
  rw [hprocess] at hattributed
  refine ⟨h.readCount, h.writeCount, h.bytesSum, h.procOps, h.thrOps, h.procQ,
    h.procRd, h.procWr,
    h.procBytes, h.procBs, h.order, hcount, ?_, hattributed⟩
  exact congrArg (fun d => Counters.add d (a.ctrl, a.qid) 1) h.opCount

/-- The maps do not depend on the commands that are to be completed. -/
theorem Tallied.congr {m : Maps} {l l' : Ledger} (h : Tallied m l)
    (hsubmitted : l'.submitted = l.submitted)
    (hcompleted : l'.completed = l.completed) : Tallied m l' := by
  obtain ⟨pending, submitted, completed⟩ := l
  obtain ⟨pending', submitted', completed'⟩ := l'
  obtain rfl : submitted' = submitted := hsubmitted
  obtain rfl : completed' = completed := hcompleted
  exact ⟨h.readCount, h.writeCount, h.bytesSum, h.procOps, h.thrOps, h.procQ,
    h.procRd, h.procWr,
    h.procBytes, h.procBs, h.order, h.latCount, h.opCount, h.procLatCnt⟩

/-- A completion keeps the ledger. -/
theorem Ledger.Kept.latencyMaps {s : Collector} {l : Ledger} (h : l.Kept s)
    (a : CompleteRq) :
    Tallied (s.latencyMaps a) (l.step (.completeRq a)) := by
  have hstep : (l.step (.completeRq a)).completed =
    l.completed ++ (l.pending a.cmd).toList := rfl
  have htracks := h.tracks a.cmd
  unfold Collector.latencyMaps
  cases hpending : l.pending a.cmd with
  | none =>
      rw [hpending] at htracks hstep
      have hzero : word s.start a.cmd = 0 := htracks
      rw [if_neg (not_not.mpr hzero)]
      exact h.tallied.congr rfl (hstep.trans (List.append_nil _))
  | some b =>
      rw [hpending] at htracks hstep
      obtain ⟨hcmd, hnsecs, hword, hget⟩ := htracks
      have hpid : s.tgidOf a = b.pid := by
        unfold Collector.tgidOf
        rw [hget]
        rfl
      rw [if_pos (by rw [hword]; exact hnsecs), hpid]
      exact (h.tallied.countLatency hcmd _).congr rfl hstep

/-- **A completion is counted** if its submission was, and then forgotten. -/
theorem Ledger.Kept.completeRq {s : Collector} {l : Ledger} (h : l.Kept s)
    (a : CompleteRq) :
    (l.step (.completeRq a)).Kept (s.completeRq a).1 := by
  rw [Collector.completeRq_eq]
  refine ⟨(h.latencyMaps a).errCount _, fun k => ?_⟩
  have hpending : (l.step (.completeRq a)).pending k = if k = a.cmd then none
    else l.pending k := rfl
  have hstart : word ((s.counted a).forget a).start k = if k = a.cmd then 0
      else word s.start k := by
    change word (if word s.start a.cmd ≠ 0 then s.start.erase a.cmd
      else s.start) k = _
    by_cases hword : word s.start a.cmd ≠ 0
    · rw [if_pos hword]
      unfold word
      rw [OrderedDict.get?_erase]
      split <;> rfl
    · rw [if_neg hword]
      split
      case isTrue hk => rw [hk, not_not.mp hword]
      case isFalse => rfl
  have htgid : ((s.counted a).forget a).cmdTgid.get? k = if k = a.cmd then none
      else s.cmdTgid.get? k :=
    OrderedDict.get?_erase _ _ _
  have htracks := h.tracks k
  rw [hpending]
  by_cases hk : k = a.cmd
  · rw [if_pos hk] at hstart ⊢
    exact hstart
  · rw [if_neg hk] at hstart htgid ⊢
    unfold Collector.Tracks at htracks ⊢
    rw [hstart, htgid]
    exact htracks

/-! ### A run -/

/-- After a tick there is nothing to tally. -/
theorem tallied_empty (tick : Nat) (errors : Counters Key3)
    (pending : Key3 → Option SetupCmd) :
    Tallied { tick := tick, errCount := errors } { pending := pending } :=
  ⟨counts_empty _ _, counts_empty _ _, counts_empty _ _, counts_empty _ _,
    counts_empty _ _, counts_empty _ _,
    counts_empty _ _, counts_empty _ _, counts_empty _ _, counts_empty _ _,
    ⟨[], [], counts_empty _ _, counts_empty _ _, List.Perm.nil⟩,
    counts_empty _ _, rfl, counts_empty _ _⟩

/-- **One probe** keeps the ledger and the collector together. -/
theorem Ledger.Kept.step (o : PrintOrder) {s : Collector} {l : Ledger}
    (h : l.Kept s) {p : Probe}
    (hp : p.Timed) : (l.step p).Kept (s.step o p).1 := by
  cases p with
  | setupCmd a => exact h.setupCmd hp
  | completeRq a => exact h.completeRq a
  | nvmeTimeout a => exact h
  | interval => exact ⟨tallied_empty _ _ _, h.tracks⟩

/-- **The maps of a run count what is in its ledger.** -/
theorem Ledger.kept_run (o : PrintOrder) {probes : List Probe}
    (hprobes : ∀ p ∈ probes, p.Timed) :
    (Ledger.after probes).Kept (Collector.run o {} probes) := by
  have hrun : ∀ (s : Collector) (l : Ledger), l.Kept s →
      (probes.foldl Ledger.step l).Kept (s.run o probes) := by
    induction probes with
    | nil => exact fun s l h => h
    | cons p probes ih =>
        intro s l h
        exact ih (fun q hq => hprobes q (List.mem_cons_of_mem _ hq)) _ _
          (h.step o (hprobes p List.mem_cons_self))
  exact hrun {} {} ⟨tallied_empty _ _ _, fun _ => rfl⟩

end Telemetryd
