import Mathlib.Tactic.Ring
import Telemetryd.Counting
import Telemetryd.Lib.Runs

/-!
# Accounting of data transfers

The collector counts every command with opcode 1 or 2 as a write or a read, and
takes a block for 512 bytes.  On the admin queue these opcodes mean something
else, and a namespace may have another block size.  Its counters are those of
the data transfers exactly as long as neither occurs and no counter of bytes
runs over.
-/

namespace Telemetryd

open PyText Counters GroupedSums

/-- The collector, and the commands set up since the last tick. -/
structure Accounted where
  collector : Collector := {}
  since : List SetupCmd := []

namespace Accounted

/-- The commands submitted since the last tick. -/
def sinceAfter (since : List SetupCmd) : Probe → List SetupCmd
  | .setupCmd a => a :: since
  | .completeRq _ => since
  | .nvmeTimeout _ => since
  | .interval => []

/-- The collector with the commands since the last tick. -/
def step (o : PrintOrder) (t : Accounted) (p : Probe) : Accounted where
  collector := (t.collector.step o p).1
  since := sinceAfter t.since p

end Accounted

namespace SetupCmd

variable (c : SetupCmd)

/-- The queue a command is on. -/
def queue : Key2 := (c.ctrl, c.qid)

/-- The process that submitted a command. -/
def process : Key2 := (c.ctrl, c.pid)

/-- A read of an I/O queue, counted once. -/
def dataReads : Nat := if c.qid ≠ 0 ∧ c.opcode = 2 then 1 else 0

/-- A write of an I/O queue, counted once. -/
def dataWrites : Nat := if c.qid ≠ 0 ∧ c.opcode = 1 then 1 else 0

/-- The bytes a read or write of an I/O queue transfers, where blocks have
`2 ^ lbaShift ctrl nsid` bytes. -/
def dataBytes (lbaShift : Int64 → UInt32 → Nat) : Nat :=
  if c.qid ≠ 0 ∧ c.isIo then (c.nlb.toNat + 1) * 2 ^ lbaShift c.ctrl c.nsid
    else 0

/-- The commands that are counted are reads and writes. -/
theorem isIo_iff : c.isIo = true ↔ c.opcode = 1 ∨ c.opcode = 2 := by
  unfold isIo
  simp

/-- The number of blocks is in 16 bits. -/
theorem nlb_lt : c.nlb.toNat < 2 ^ 16 := by
  have hnlb : c.nlb.toNat = (c.cdw10 9).toNat <<< 8 %
    2 ^ 64 ||| (c.cdw10 8).toNat := rfl
  have h8 := (c.cdw10 8).toNat_lt
  have h9 := (c.cdw10 9).toNat_lt
  rw [hnlb]
  refine Nat.or_lt_two_pow ?_ (by omega)
  rw [Nat.shiftLeft_eq]
  omega

/-- The bytes a command transfers, as they are counted. -/
theorem toNat_transferred : c.transferred.toNat = (c.nlb.toNat + 1) * 512 := by
  have h := c.nlb_lt
  have h1 : (1 : UInt64).toNat = 1 := rfl
  have h512 : (512 : UInt64).toNat = 512 := rfl
  unfold transferred
  rw [UInt64.toNat_mul, UInt64.toNat_add, h1, h512]
  omega

end SetupCmd

/-! ### One counter -/

/-- The counter of each key is what the commands with this key add up to. -/
def Tallies {κ : Type} [DecidableEq κ] (m : Counters κ) (since : List SetupCmd)
    (key : SetupCmd → κ) (amount : SetupCmd → Nat) : Prop :=
  ∀ k, (word m k).toNat = groupSum key amount since k

section

variable {κ : Type} [DecidableEq κ] {m : Counters κ} {since : List SetupCmd}
    {key : SetupCmd → κ}
variable {amount : SetupCmd → Nat}

/-- An empty map tallies nothing. -/
theorem tallies_empty (key : SetupCmd → κ) (amount : SetupCmd → Nat) :
    Tallies .empty [] key amount := fun _ => rfl

/-- **One command more.**  The counter stays right when what was added to it is
the amount of the command. -/
theorem tallies_cons (h : Tallies m since key amount) (a : SetupCmd)
    {m' : Counters κ}
    (hother : ∀ k, k ≠ key a → word m' k = word m k) :
    Tallies m' (a :: since) key amount ↔
      (word m' (key a)).toNat = (word m (key a)).toNat + amount a := by
  constructor
  · intro h'
    rw [h' (key a), groupSum_cons, if_pos rfl, h (key a), Nat.add_comm]
  · intro hkey k
    rw [groupSum_cons]
    by_cases hk : k = key a
    · subst hk
      rw [hkey, if_pos rfl, h (key a), Nat.add_comm]
    · rw [hother k hk, h k, if_neg (Ne.symm hk), Nat.zero_add]

/-- A counter that is increased on a condition. -/
theorem word_ite_add_of_ne (b : Prop) [Decidable b] (m : Counters κ) {k j : κ}
    (v : UInt64)
    (hj : j ≠ k) : word (if b then add m k v else m) j = word m j := by
  split
  · rw [word_add, if_neg hj]
  · rfl

/-- A word that something may be added to. -/
theorem toNat_word_ite_add (b : Prop) [Decidable b] (m : Counters κ) (k : κ)
    (v : UInt64) :
    (word (if b then add m k v else m) k).toNat
      = ((word m k).toNat + if b then v.toNat else 0) % 2 ^ 64 := by
  have hlt := (word m k).toNat_lt
  by_cases hb : b
  · rw [if_pos hb, if_pos hb, word_add, if_pos rfl, UInt64.toNat_add]
  · rw [if_neg hb, if_neg hb, Nat.add_zero, Nat.mod_eq_of_lt hlt]

/-- **One command** keeps a tally exactly if the sum stays within a word. -/
theorem tallies_step (h : Tallies m since key amount) (a : SetupCmd) (b : Prop)
    [Decidable b]
    (v : UInt64) :
    Tallies (if b then add m (key a) v else m) (a :: since) key amount ↔
      ((word m (key a)).toNat + if b then v.toNat else 0) % 2 ^ 64
        = (word m (key a)).toNat + amount a := by
  rw [tallies_cons h a (fun k hk => word_ite_add_of_ne b m v hk),
    toNat_word_ite_add]

end

/-! ### The six counters -/

/-- The counters of reads, writes and bytes are those of the data transfers
since the last tick. -/
structure Accounted.Exact (lbaShift : Int64 → UInt32 → Nat) (t : Accounted) :
    Prop where
  readCount : Tallies t.collector.maps.readCount t.since SetupCmd.queue
    SetupCmd.dataReads
  writeCount :
    Tallies t.collector.maps.writeCount t.since SetupCmd.queue
    SetupCmd.dataWrites
  bytesSum : Tallies t.collector.maps.bytesSum t.since SetupCmd.queue
    (·.dataBytes lbaShift)
  procRd : Tallies t.collector.maps.procRd t.since SetupCmd.process
    SetupCmd.dataReads
  procWr : Tallies t.collector.maps.procWr t.since SetupCmd.process
    SetupCmd.dataWrites
  procBytes : Tallies t.collector.maps.procBytes t.since SetupCmd.process
    (·.dataBytes lbaShift)

/-- A command that the collector accounts for correctly: one with opcode 1 or 2
is on an I/O queue of a namespace with blocks of 512 bytes, and the byte
counters have room for it. -/
def Accounted.Accounts (lbaShift : Int64 → UInt32 → Nat) (t : Accounted) :
    Probe → Prop
  | .setupCmd a => a.isIo = true → a.qid ≠ 0 ∧ lbaShift a.ctrl a.nsid = 9 ∧
      (word t.collector.maps.bytesSum a.queue).toNat + (a.nlb.toNat + 1) * 512 <
        2 ^ 64 ∧
      (word t.collector.maps.procBytes a.process).toNat + (a.nlb.toNat + 1) *
        512 < 2 ^ 64
  | .completeRq _ => True
  | .nvmeTimeout _ => True
  | .interval => True

section

variable {lbaShift : Int64 → UInt32 → Nat}

/-- A block count of bytes is right when blocks have 512 bytes and there is
room. -/
theorem bytes_mod_eq_iff {b n s : Nat} (hb : b < 2 ^ 64) (hn : n < 2 ^ 16) :
    (b + (n + 1) * 512) % 2 ^ 64 = b + (n + 1) * 2 ^ s ↔ s = 9 ∧
      b + (n + 1) * 512 < 2 ^ 64 := by
  constructor
  · intro h
    have hroom : b + (n + 1) * 512 < 2 ^ 64 := by
      by_contra hover
      have hmod : (b + (n + 1) * 512) % 2 ^ 64 =
        b + (n + 1) * 512 - 2 ^ 64 := by omega
      rw [hmod] at h
      generalize (n + 1) * 2 ^ s = x at h
      omega
    rw [Nat.mod_eq_of_lt hroom] at h
    have hpow : 2 ^ s = 2 ^ 9 := (Nat.eq_of_mul_eq_mul_left (Nat.succ_pos n)
      (Nat.add_left_cancel h)).symm
    exact ⟨Nat.pow_right_injective (Nat.le_refl 2) hpow, hroom⟩
  · intro ⟨hs, hroom⟩
    rw [Nat.mod_eq_of_lt hroom, hs]
    rfl

/-- What is read is some of what is transferred. -/
theorem SetupCmd.dataReads_le (c : SetupCmd) :
    c.dataReads ≤ c.dataBytes lbaShift := by
  unfold SetupCmd.dataReads SetupCmd.dataBytes
  by_cases h : c.qid ≠ 0 ∧ c.opcode = 2
  · have hio : c.qid ≠ 0 ∧ c.isIo = true := ⟨h.1, c.isIo_iff.mpr (Or.inr h.2)⟩
    rw [if_pos h, if_pos hio]
    exact Nat.mul_pos (Nat.succ_pos _) (Nat.two_pow_pos _)
  · rw [if_neg h]
    exact Nat.zero_le _

/-- What is written is some of what is transferred. -/
theorem SetupCmd.dataWrites_le (c : SetupCmd) :
    c.dataWrites ≤ c.dataBytes lbaShift := by
  unfold SetupCmd.dataWrites SetupCmd.dataBytes
  by_cases h : c.qid ≠ 0 ∧ c.opcode = 1
  · have hio : c.qid ≠ 0 ∧ c.isIo = true := ⟨h.1, c.isIo_iff.mpr (Or.inl h.2)⟩
    rw [if_pos h, if_pos hio]
    exact Nat.mul_pos (Nat.succ_pos _) (Nat.two_pow_pos _)
  · rw [if_neg h]
    exact Nat.zero_le _

/-- What a submission adds to the counters of one key is what it amounts to
exactly when it is accounted for. -/
theorem amounts_iff (lbaShift : Int64 → UInt32 → Nat) (a : SetupCmd)
    {rd wr bytes : Nat} (hread : rd ≤ bytes) (hwrite : wr ≤ bytes)
    (hb : bytes < 2 ^ 64) :
    ((rd + if a.opcode = 2 then 1 else 0) % 2 ^ 64 = rd + a.dataReads ∧
      (wr + if a.opcode = 1 then 1 else 0) % 2 ^ 64 = wr + a.dataWrites ∧
      (bytes + if a.isIo = true then (a.nlb.toNat + 1) * 512 else 0) % 2 ^ 64
        = bytes + a.dataBytes lbaShift) ↔
    (a.isIo = true → a.qid ≠ 0 ∧ lbaShift a.ctrl a.nsid = 9 ∧
      bytes + (a.nlb.toNat + 1) * 512 < 2 ^ 64) := by
  have hn := a.nlb_lt
  unfold SetupCmd.dataReads SetupCmd.dataWrites SetupCmd.dataBytes
  by_cases hio : a.isIo = true
  · have h12 : ¬ (a.opcode = 1 ∧ a.opcode = 2) := by
      intro ⟨h1, h2⟩
      exact absurd (h1.symm.trans h2) (by decide)
    by_cases hqid : a.qid = 0
    · -- An admin command is counted, and should not be.
      refine iff_of_false ?_ (fun h => (h hio).1 hqid)
      intro ⟨hrd, hwr, _⟩
      rcases a.isIo_iff.mp hio with h1 | h2
      · simp only [h1, hqid, if_true, ne_eq, not_true_eq_false, false_and,
          if_false] at hwr
        omega
      · simp only [h2, hqid, if_true, ne_eq, not_true_eq_false, false_and,
          if_false] at hrd
        omega
    · have hbytes := bytes_mod_eq_iff (s := lbaShift a.ctrl a.nsid) hb hn
      simp only [hio, hqid, if_true, ne_eq, not_false_eq_true, true_and,
        true_imp_iff, and_self,
        hbytes]
      constructor
      · intro ⟨_, _, hs, hroom⟩
        exact ⟨hs, hroom⟩
      · intro ⟨hs, hroom⟩
        refine ⟨?_, ?_, hs, hroom⟩
        · split <;> omega
        · split <;> omega
  · have h1 : a.opcode ≠ 1 := fun h => hio (a.isIo_iff.mpr (Or.inl h))
    have h2 : a.opcode ≠ 2 := fun h => hio (a.isIo_iff.mpr (Or.inr h))
    simp only [h1, h2, hio, if_false, and_false, Nat.add_zero,
      Bool.false_eq_true]
    refine iff_of_true ⟨Nat.mod_eq_of_lt (by omega),
      Nat.mod_eq_of_lt (by omega),
      Nat.mod_eq_of_lt hb⟩ (fun h => absurd h (by simp))

/-- **One submission.** -/
theorem exact_setupCmd_iff (o : PrintOrder) {t : Accounted}
    (h : t.Exact lbaShift) (a : SetupCmd) :
    (t.step o (.setupCmd a)).Exact lbaShift ↔
      t.Accounts lbaShift (.setupCmd a) := by
  have hrd := tallies_step h.readCount a (a.opcode = 2) 1
  have hwr := tallies_step h.writeCount a (a.opcode = 1) 1
  have hbytes := tallies_step h.bytesSum a (a.isIo = true) a.transferred
  have hprd := tallies_step h.procRd a (a.opcode = 2) 1
  have hpwr := tallies_step h.procWr a (a.opcode = 1) 1
  have hpbytes := tallies_step h.procBytes a (a.isIo = true) a.transferred
  have hone : (1 : UInt64).toNat = 1 := rfl
  rw [hone] at hrd hwr hprd hpwr
  rw [a.toNat_transferred] at hbytes hpbytes
  have hexact : (t.step o (.setupCmd a)).Exact lbaShift ↔ _ ∧ _ ∧ _ ∧
      _ ∧ _ ∧ _ :=
    ⟨fun h' => ⟨hrd.mp h'.readCount, hwr.mp h'.writeCount,
        hbytes.mp h'.bytesSum,
        hprd.mp h'.procRd, hpwr.mp h'.procWr, hpbytes.mp h'.procBytes⟩,
      fun h' => ⟨hrd.mpr h'.1, hwr.mpr h'.2.1, hbytes.mpr h'.2.2.1,
        hprd.mpr h'.2.2.2.1,
        hpwr.mpr h'.2.2.2.2.1, hpbytes.mpr h'.2.2.2.2.2⟩⟩
  rw [hexact]
  -- A counter of commands is at most the counter of bytes with the same key.
  have hread : (word t.collector.maps.readCount a.queue).toNat
      ≤ (word t.collector.maps.bytesSum a.queue).toNat := by
    rw [h.readCount, h.bytesSum]
    exact groupSum_mono (fun c => c.dataReads_le) _ _
  have hwrite : (word t.collector.maps.writeCount a.queue).toNat
      ≤ (word t.collector.maps.bytesSum a.queue).toNat := by
    rw [h.writeCount, h.bytesSum]
    exact groupSum_mono (fun c => c.dataWrites_le) _ _
  have hpread : (word t.collector.maps.procRd a.process).toNat
      ≤ (word t.collector.maps.procBytes a.process).toNat := by
    rw [h.procRd, h.procBytes]
    exact groupSum_mono (fun c => c.dataReads_le) _ _
  have hpwrite : (word t.collector.maps.procWr a.process).toNat
      ≤ (word t.collector.maps.procBytes a.process).toNat := by
    rw [h.procWr, h.procBytes]
    exact groupSum_mono (fun c => c.dataWrites_le) _ _
  have hb := (word t.collector.maps.bytesSum a.queue).toNat_lt
  have hpb := (word t.collector.maps.procBytes a.process).toNat_lt
  unfold Accounted.Accounts
  have hqueue := amounts_iff lbaShift a hread hwrite hb
  have hprocess := amounts_iff lbaShift a hpread hpwrite hpb
  constructor
  · intro ⟨h1, h2, h3, h4, h5, h6⟩ hio
    obtain ⟨hqid, hs, hroom⟩ := hqueue.mp ⟨h1, h2, h3⟩ hio
    exact ⟨hqid, hs, hroom, (hprocess.mp ⟨h4, h5, h6⟩ hio).2.2⟩
  · intro hacc
    obtain ⟨h1, h2, h3⟩ := hqueue.mpr fun hio =>
      ⟨(hacc hio).1, (hacc hio).2.1, (hacc hio).2.2.1⟩
    obtain ⟨h4, h5, h6⟩ := hprocess.mpr fun hio =>
      ⟨(hacc hio).1, (hacc hio).2.1, (hacc hio).2.2.2⟩
    exact ⟨h1, h2, h3, h4, h5, h6⟩

/-- A completion leaves the six counters alone. -/
theorem exact_completeRq (o : PrintOrder) {t : Accounted} (h : t.Exact lbaShift) (a : CompleteRq) :
    (t.step o (.completeRq a)).Exact lbaShift := by
  have hmaps : (t.step o (.completeRq a)).collector.maps
      = { t.collector.latencyMaps a with errCount := t.collector.errCountAfter a } := by
    change (t.collector.completeRq a).1.maps = _
    rw [Collector.completeRq_eq]
    rfl
  have hkept : t.collector.latencyMaps a = { t.collector.latencyMaps a with
      readCount := t.collector.maps.readCount
      writeCount := t.collector.maps.writeCount
      bytesSum := t.collector.maps.bytesSum
      procRd := t.collector.maps.procRd
      procWr := t.collector.maps.procWr
      procBytes := t.collector.maps.procBytes } := by
    unfold Collector.latencyMaps
    split <;> rfl
  rw [hkept] at hmaps
  have hsince : (t.step o (.completeRq a)).since = t.since := rfl
  constructor <;> rw [hmaps, hsince]
  · exact h.readCount
  · exact h.writeCount
  · exact h.bytesSum
  · exact h.procRd
  · exact h.procWr
  · exact h.procBytes

/-- At first all tallies are exact. -/
theorem exact_start : Accounted.Exact lbaShift {} :=
  ⟨tallies_empty _ _, tallies_empty _ _, tallies_empty _ _, tallies_empty _ _,
    tallies_empty _ _,
    tallies_empty _ _⟩

/-- After a tick all tallies start anew. -/
theorem exact_interval (o : PrintOrder) (t : Accounted) :
    (t.step o .interval).Exact lbaShift :=
  ⟨tallies_empty _ _, tallies_empty _ _, tallies_empty _ _, tallies_empty _ _,
    tallies_empty _ _,
    tallies_empty _ _⟩

end

/-- **When the counters are those of the data transfers.**  Over every run, the
read, write and byte counters are right after each probe if and only if every
command with opcode 1 or 2 is on an I/O queue of a namespace with blocks of 512
bytes and finds room in the byte counters. -/
theorem data_accounting_iff (o : PrintOrder) (lbaShift : Int64 → UInt32 → Nat)
    (probes : List Probe) :
    Runs.Always (Accounted.step o) (Accounted.Exact lbaShift) {} probes ↔
      Runs.Each (Accounted.step o) (Accounted.Accounts lbaShift) {} probes := by
  refine Runs.always_iff_each (I := Accounted.Exact lbaShift) (fun _ h => h) ?_
    ?_ exact_start
  · intro t p h hacc
    cases p with
    | setupCmd a => exact (exact_setupCmd_iff o h a).mpr hacc
    | completeRq a => exact exact_completeRq o h a
    | nvmeTimeout a => exact h
    | interval => exact exact_interval o t
  · intro t p h hnext
    cases p with
    | setupCmd a => exact (exact_setupCmd_iff o h a).mp hnext
    | completeRq a => trivial
    | nvmeTimeout a => trivial
    | interval => trivial

/-- A get_log of the admin queue: opcode 2. -/
def getLog : SetupCmd where
  nsecs := 1000
  ctrl := 0
  qid := 0
  cid := 5
  opcode := 2
  flags := 0
  nsid := 0xffffffff
  cdw10 := fun i => if i = 0 then 2 else if i = 2 then 127 else 0
  pid := 7
  tid := 7
  comm := ⟨[110, 118, 109, 101], by decide, by decide⟩

/-- It is counted as a read. -/
theorem getLog_not_accounted : ¬ Runs.Always (Accounted.step .inserted)
    (Accounted.Exact (fun _ _ => 9)) {} [.setupCmd getLog] := by
  intro ⟨_, hafter⟩
  have hread := Accounted.Exact.readCount hafter (0, 0)
  have hcounted :
      word (Accounted.step .inserted {}
      (.setupCmd getLog)).collector.maps.readCount
      (0, 0) = 1 := rfl
  rw [hcounted] at hread
  exact absurd hread (by decide)

end Telemetryd
