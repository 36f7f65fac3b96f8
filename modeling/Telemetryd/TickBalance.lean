import Mathlib.Algebra.BigOperators.Ring.Finset
import Telemetryd.ErrorRoundTrip
import Telemetryd.ErrorTotals
import Telemetryd.PerfRows
import Telemetryd.ProcRows
import Telemetryd.ProcTick
import Telemetryd.TickLedger

/-!
# The views of a tick balance

Both parsers see the same ledger.  The counters of a process split its commands
by thread, by queue, by size and by order, and each split adds up to the same
number.  The processes of a controller and the queues of a controller are two
ways to group the same commands, so their sums agree; only a completed command
that no process is known for is counted for its queue alone.
-/

namespace Telemetryd

open PyText Counters GroupedSums

/-! ### Counters that do not run over -/

/-- No group reaches 2^64. -/
def GroupsFit {κ : Type} [DecidableEq κ] (key : SetupCmd → κ)
    (amount : SetupCmd → Nat)
    (l : List SetupCmd) : Prop := ∀ k, groupSum key amount l k < 2 ^ 64

/-- No counter of the tick runs over.  A transfer has at least one byte, so the
counters of reads and writes are smaller than those of bytes. -/
structure Ledger.Fits (l : Ledger) : Prop where
  queueBytes : GroupsFit SetupCmd.queue SetupCmd.bytes l.transfers
  processBytes : GroupsFit SetupCmd.process SetupCmd.bytes l.transfers
  named : GroupsFit SetupCmd.named (fun _ => 1) l.submitted
  threads : GroupsFit SetupCmd.thread (fun _ => 1) l.submitted
  processQueues : GroupsFit SetupCmd.processQueue (fun _ => 1) l.submitted
  completed : GroupsFit SetupCmd.queue (fun _ => 1) l.completed
  attributed : GroupsFit SetupCmd.process (fun _ => 1) l.attributed

namespace SetupCmd

variable {a : SetupCmd}

/-- A transfer has a byte. -/
theorem bytes_pos : 1 ≤ a.bytes := by
  have hbytes : a.bytes = (a.nlb.toNat + 1) * 512 := a.toNat_transferred
  omega

/-- A transfer is below 64 MiB. -/
theorem bytes_lt : a.bytes < 2 ^ 26 := by
  have hbytes : a.bytes = (a.nlb.toNat + 1) * 512 := a.toNat_transferred
  have hnlb := a.nlb_lt
  omega

/-- A read is a transfer. -/
theorem isIo_of_isRead (h : a.isRead = true) : a.isIo = true :=
  a.isIo_iff.mpr (Or.inr (beq_iff_eq.mp h))

/-- So is a write. -/
theorem isIo_of_isWrite (h : a.isWrite = true) : a.isIo = true :=
  a.isIo_iff.mpr (Or.inl (beq_iff_eq.mp h))

/-- The size of a transfer is printed as it is. -/
theorem toInt_size : (a.transferred.toInt64).toInt = a.bytes := by
  rw [Failed.toInt_toInt64, if_pos]
  · rfl
  · have hlt := a.bytes_lt
    unfold bytes at hlt
    omega

end SetupCmd

namespace Ledger.Fits

variable {l : Ledger} (h : l.Fits)

include h

/-- The reads of a queue fit if its transfers do. -/
theorem readsOfQueue : GroupsFit SetupCmd.queue (fun _ => 1) l.reads := fun k =>
  lt_of_le_of_lt (groupSum_filter_le (fun _ hp hk =>
    ⟨SetupCmd.isIo_of_isRead hp, hk, SetupCmd.bytes_pos⟩) _)
    (h.queueBytes k)

/-- So do the writes of a queue. -/
theorem writesOfQueue : GroupsFit SetupCmd.queue (fun _ => 1) l.writes :=
  fun k =>
  lt_of_le_of_lt (groupSum_filter_le (fun _ hp hk =>
    ⟨SetupCmd.isIo_of_isWrite hp, hk, SetupCmd.bytes_pos⟩) _)
    (h.queueBytes k)

/-- The reads of a process fit if its commands do. -/
theorem readsOfProcess : GroupsFit SetupCmd.process (fun _ => 1) l.reads :=
  fun k =>
  lt_of_le_of_lt (groupSum_filter_le (fun _ hp hk =>
    ⟨SetupCmd.isIo_of_isRead hp, hk, SetupCmd.bytes_pos⟩) _)
    (h.processBytes k)

/-- So do the writes of a process. -/
theorem writesOfProcess : GroupsFit SetupCmd.process (fun _ => 1) l.writes :=
  fun k =>
  lt_of_le_of_lt (groupSum_filter_le (fun _ hp hk =>
    ⟨SetupCmd.isIo_of_isWrite hp, hk, SetupCmd.bytes_pos⟩) _)
    (h.processBytes k)

/-- So do its transfers. -/
theorem transfersOfProcess :
    GroupsFit SetupCmd.process (fun _ => 1) l.transfers := fun k =>
  lt_of_le_of_lt (groupSum_filter_le (fun _ hp hk =>
    ⟨hp, hk, SetupCmd.bytes_pos⟩) _) (h.processBytes k)

/-- So do its transfers of one size. -/
theorem sizes : GroupsFit SetupCmd.processSize (fun _ => 1) l.transfers := by
  intro k
  have hprocess : ∀ a : SetupCmd, a.processSize = k →
      a.process = (k.1, k.2.1) := by
    intro a hk
    rw [← hk]
    rfl
  exact lt_of_le_of_lt (groupSum_filter_le (fun a hp hk =>
    ⟨hp, hprocess a hk, SetupCmd.bytes_pos⟩) _)
    (h.processBytes _)

end Ledger.Fits

/-- **Few commands fit**: fewer than 2^38 that are submitted between two ticks,
and fewer than 2^64 that are completed. -/
theorem Ledger.fits_of_few {l : Ledger}
    (hsubmitted : l.submitted.length < 2 ^ 38)
    (hcompleted : l.completed.length < 2 ^ 64) : l.Fits := by
  have hcount :
      ∀ {κ : Type} [DecidableEq κ] {key : SetupCmd → κ} {list : List SetupCmd},
      list.length < 2 ^ 64 → GroupsFit key (fun _ => 1) list := by
    intro κ _ key list hlt k
    have hle : groupSum key (fun _ => 1) list k ≤ list.length * 1 :=
      groupSum_le_length (fun _ => Nat.le_refl 1) list k
    omega
  have hbytes : ∀ {key : SetupCmd → Key2},
      GroupsFit key SetupCmd.bytes l.transfers := by
    intro key k
    have hle : groupSum key SetupCmd.bytes l.transfers k ≤
        l.transfers.length * 2 ^ 26 :=
      groupSum_le_length (fun a => Nat.le_of_lt a.bytes_lt) l.transfers k
    have hlen : l.transfers.length ≤ l.submitted.length :=
      List.length_filter_le _ _
    have hmul : l.transfers.length * 2 ^ 26 ≤ (2 ^ 38 - 1) * 2 ^ 26 :=
      Nat.mul_le_mul_right _ (by omega)
    omega
  have hsome : l.submitted.length < 2 ^ 64 := by omega
  have hattributed : l.attributed.length ≤ l.completed.length :=
    List.length_filter_le _ _
  exact ⟨hbytes, hbytes, hcount hsome, hcount hsome, hcount hsome,
    hcount hcompleted, hcount (by omega)⟩

/-- Reads and writes are the transfers. -/
theorem groupSum_reads_writes {κ : Type} [DecidableEq κ] (l : Ledger)
    (key : SetupCmd → κ) (k : κ) :
    groupSum key (fun _ => 1) l.reads k + groupSum key (fun _ => 1) l.writes k
      = groupSum key (fun _ => 1) l.transfers k := by
  unfold Ledger.reads Ledger.writes Ledger.transfers
  induction l.submitted with
  | nil => rfl
  | cons a submitted ih =>
      by_cases hr : a.isRead = true
      · have hw : ¬ a.isWrite = true := by
          intro hw
          have h2 : a.opcode = 2 := beq_iff_eq.mp hr
          have h1 : a.opcode = 1 := beq_iff_eq.mp hw
          rw [h2] at h1
          exact absurd h1 (by decide)
        rw [List.filter_cons_of_pos hr, List.filter_cons_of_neg hw,
          List.filter_cons_of_pos (SetupCmd.isIo_of_isRead hr), groupSum_cons,
          groupSum_cons]
        omega
      · rw [List.filter_cons_of_neg hr]
        by_cases hw : a.isWrite = true
        · rw [List.filter_cons_of_pos hw,
            List.filter_cons_of_pos (SetupCmd.isIo_of_isWrite hw),
            groupSum_cons,
            groupSum_cons]
          omega
        · have hio : ¬ a.isIo = true := by
            intro hio
            rcases a.isIo_iff.mp hio with h | h
            · exact hw (beq_iff_eq.mpr h)
            · exact hr (beq_iff_eq.mpr h)
          rw [List.filter_cons_of_neg hw, List.filter_cons_of_neg hio]
          exact ih

/-! ### One process -/

/-- The counters of a process add up: its commands by thread and by queue, its
transfers by size and by order, and its bytes by size. -/
structure RawProc.Balanced (raw : RawProc) : Prop where
  threads : raw.ops = (raw.threads.values.map Prod.snd).sum
  queues : raw.ops = raw.queues.values.sum
  sizes : raw.read + raw.write = raw.sizes.values.sum
  order : raw.read + raw.write = raw.seq + raw.rand
  bytes : raw.bytes = (raw.sizes.items.map (fun e => e.1 * e.2)).sum

/-- The commands of a process. -/
def Ledger.opsOf (l : Ledger) (c p : Int64) : Nat :=
  groupSum SetupCmd.process (fun _ => 1) l.submitted (c, p)

/-- The transfers of a process. -/
def Ledger.transfersOf (l : Ledger) (c p : Int64) : Nat :=
  groupSum SetupCmd.process (fun _ => 1) l.transfers (c, p)

section

variable {m : Maps} {l : Ledger} (h : Tallied m l) (hfits : l.Fits)
    {c p : Int64} {raw : RawProc}

/-- The sum of a table is that of its map for the process. -/
theorem sum_tableOf (d : Counters Key3) (c p : Int64) :
    ((tableOf d c p).map Prod.snd).sum
    = groupSum (fun e => (e.1.1, e.1.2.1)) (fun e => (e.2.toNat : Int)) d.items
      (c, p) := by
  unfold tableOf groupSum
  rw [List.map_map]
  rfl

include h hfits

/-- The commands of a process are those of the ledger. -/
theorem Tallied.opsOf_eq (c p : Int64) : m.opsOf c p = l.opsOf c p := by
  unfold Maps.opsOf
  rw [groupSum_natCast,
    h.procOps.groupSum_items hfits.named (fun k => (k.1, k.2.1))]
  rfl

/-- The commands of its threads add up to them. -/
theorem Tallied.sum_threadsOf (c p : Int64) :
    ((m.threadsOf c p).map Prod.snd).sum = l.opsOf c p := by
  have hsum : ((m.threadsOf c p).map Prod.snd).sum
      = groupSum (fun e => (e.1.1, e.1.2.1)) (fun e => (e.2.toNat : Int))
        m.thrOps.items (c, p) := by
    unfold Maps.threadsOf groupSum
    rw [List.map_map]
    rfl
  rw [hsum, groupSum_natCast,
    h.thrOps.groupSum_items hfits.threads (fun k => (k.1, k.2.1))]
  rfl

/-- So do those by queue. -/
theorem Tallied.sum_queues (c p : Int64) :
    ((tableOf m.procQ c p).map Prod.snd).sum = l.opsOf c p := by
  rw [sum_tableOf, groupSum_natCast,
    h.procQ.groupSum_items hfits.processQueues (fun k => (k.1, k.2.1))]
  rfl

/-- Its transfers by size add up to its transfers. -/
theorem Tallied.sum_sizes (c p : Int64) :
    ((tableOf m.procBs c p).map Prod.snd).sum = l.transfersOf c p := by
  rw [sum_tableOf, groupSum_natCast,
    h.procBs.groupSum_items hfits.sizes (fun k => (k.1, k.2.1))]
  rfl

/-- The bytes of a process are its sizes, each as often as it was
transferred. -/
theorem Tallied.sum_bytes (c p : Int64) :
    ((tableOf m.procBs c p).map (fun e => e.1 * e.2)).sum =
      ((word m.procBytes (c, p)).toNat : Int) := by
  have hsize : ∀ e ∈ m.procBs.items,
      e.1.2.2.toInt = (e.1.2.2.toInt.toNat : Int) := by
    intro e he
    obtain ⟨a, -, hkey⟩ := (h.procBs.mem_keys e.1).mp (List.mem_map_of_mem he)
    have hint : e.1.2.2.toInt = a.bytes := by
      rw [← hkey]
      exact a.toInt_size
    rw [hint, Int.toNat_natCast]
  have htable : ((tableOf m.procBs c p).map (fun e => e.1 * e.2)).sum
      = groupSum (fun e => (e.1.1, e.1.2.1)) (fun e =>
        ((e.1.2.2.toInt.toNat * e.2.toNat : Nat) : Int))
        m.procBs.items (c, p) := by
    unfold tableOf groupSum
    rw [List.map_map]
    refine congrArg List.sum (List.map_congr_left fun e he => ?_)
    rw [Function.comp_apply,
      Nat.cast_mul, ← hsize e (List.mem_of_mem_filter he)]
  have hbytes : ∀ a : SetupCmd, a.processSize.2.2.toInt.toNat * 1 =
      a.bytes := by
    intro a
    rw [Nat.mul_one]
    exact (congrArg Int.toNat a.toInt_size).trans (Int.toNat_natCast _)
  have hweighted := h.procBs.sum_mul (fun k => k.2.2.toInt.toNat)
    (fun k => decide ((k.1, k.2.1) = (c, p))) (fun k _ => hfits.sizes k)
  rw [htable, groupSum_natCast, h.procBytes.toNat_word (hfits.processBytes _)]
  refine congrArg Int.ofNat (hweighted.trans ?_)
  exact congrArg List.sum (List.map_congr_left fun a _ => hbytes a)

/-- **The counters of a process balance.** -/
theorem DecodedProc.balanced (hraw : DecodedProc m c p raw) : raw.Balanced := by
  have htransfers : raw.read + raw.write = l.transfersOf c p := by
    rw [hraw.read, hraw.write, h.procRd.toNat_word (hfits.readsOfProcess _),
      h.procWr.toNat_word (hfits.writesOfProcess _), ← Nat.cast_add,
      groupSum_reads_writes]
    rfl
  have hops : raw.ops = l.opsOf c p := hraw.ops.trans (h.opsOf_eq hfits c p)
  constructor
  · have hvalues :
        raw.threads.values.map Prod.snd = raw.opsByThread.values := by
      unfold RawProc.opsByThread
      rw [OrderedDict.values_mapValues, OrderedDict.values, List.map_map]
      rfl
    rw [hvalues, sum_values_of_get? hraw.threads, h.sum_threadsOf hfits, hops]
  · have hsum : raw.queues.values.sum =
        ((tableOf m.procQ c p).map Prod.snd).sum :=
      (hraw.queues.map Prod.snd).sum_eq
    rw [hsum, h.sum_queues hfits, hops]
  · have hsum : raw.sizes.values.sum =
        ((tableOf m.procBs c p).map Prod.snd).sum :=
      (hraw.sizes.map Prod.snd).sum_eq
    rw [hsum, h.sum_sizes hfits, htransfers]
  · obtain ⟨sequential, random, hseq, hrand, hperm⟩ := h.order
    have hsum : groupSum SetupCmd.process (fun _ => 1) sequential (c, p)
        + groupSum SetupCmd.process (fun _ => 1) random (c, p) =
          l.transfersOf c p := by
      rw [← groupSum_append]
      exact groupSum_perm _ _ hperm _
    have hlt : l.transfersOf c p < 2 ^ 64 := hfits.transfersOfProcess (c, p)
    rw [htransfers, hraw.seq, hraw.rand, hseq.toNat_word (by omega),
      hrand.toNat_word (by omega), ← hsum,
      Nat.cast_add]
  · have hsum : (raw.sizes.items.map (fun e => e.1 * e.2)).sum
        = ((tableOf m.procBs c p).map (fun e => e.1 * e.2)).sum :=
          (hraw.sizes.map _).sum_eq
    rw [hsum, h.sum_bytes hfits, hraw.bytes]

end

/-! ### Small counters -/

/-- A word is a small counter. -/
theorem smallCounter_word (w : UInt64) : SmallCounter (w.toNat : Int) :=
  ⟨w.toNat, rfl, lt_floatLimit_of_lt w.toNat_lt⟩

/-- The counters of a process are small if its commands are few. -/
theorem DecodedProc.small_of {m : Maps} {c p : Int64} {raw : RawProc}
    (hraw : DecodedProc m c p raw)
    (hops : SmallCounter (m.opsOf c p))
    (hthreads : ∀ tid,
      SmallCounter (groupSum Prod.fst Prod.snd (m.threadsOf c p) tid)) :
    raw.Small where
  ops := hraw.ops ▸ hops
  read := hraw.read ▸ smallCounter_word _
  write := hraw.write ▸ smallCounter_word _
  bytes := hraw.bytes ▸ smallCounter_word _
  latSum := hraw.latSum ▸ smallCounter_word _
  latCnt := hraw.latCnt ▸ Int.natCast_nonneg _
  seq := hraw.seq ▸ smallCounter_word _
  rand := hraw.rand ▸ Int.natCast_nonneg _
  threads := by
    intro e he
    have hget : raw.opsByThread.get? e.1 = some e.2.2 := by
      have hmap := OrderedDict.get?_mapValues (fun _ x => x.2) raw.threads e.1
      rw [OrderedDict.get?_eq_some_iff.mpr he] at hmap
      exact hmap
    rw [hraw.threads] at hget
    split at hget
    · rw [← Option.some.inj hget]
      exact hthreads e.1
    · exact absurd hget (by simp)

section

variable {m : Maps} {l : Ledger} (h : Tallied m l) (hfits : l.Fits)
    {c p : Int64}

include h hfits

/-- The commands of a process are on one of its 2^64 queues. -/
theorem Ledger.opsOf_lt : l.opsOf c p < floatLimit := by
  have hwords : ∀ v ∈ (tableOf m.procQ c p).map Prod.snd, ∃ n : Nat, v = n ∧
      n < 2 ^ 64 := by
    intro v hv
    obtain ⟨x, hx, rfl⟩ := List.mem_map.mp hv
    obtain ⟨e, -, rfl⟩ := List.mem_map.mp hx
    exact ⟨e.2.toNat, rfl, e.2.toNat_lt⟩
  have hqueues : ((tableOf m.procQ c p).map Prod.fst).length ≤ 2 ^ 64 := by
    refine length_le_of_words (nodup_tableOf c p m.procQ) fun q hq => ?_
    obtain ⟨x, hx, rfl⟩ := List.mem_map.mp hq
    obtain ⟨e, -, rfl⟩ := List.mem_map.mp hx
    exact ⟨e.1.2.2.le_toInt, e.1.2.2.toInt_lt⟩
  obtain ⟨n, hn, hle⟩ := sum_range hwords
  rw [h.sum_queues hfits, Nat.cast_inj] at hn
  rw [List.length_map] at hle hqueues
  refine lt_floatLimit_of_lt_two_pow (k := 129) ?_ (by decide)
  have hmul : (tableOf m.procQ c p).length * 2 ^ 64 ≤ 2 ^ 64 * 2 ^ 64 :=
    Nat.mul_le_mul_right _ hqueues
  omega

/-- A thread has no more commands than its process. -/
theorem Tallied.smallCounter_thread (tid : Int) :
    SmallCounter (groupSum Prod.fst Prod.snd (m.threadsOf c p) tid) := by
  have hsum := h.sum_threadsOf hfits c p
  have hmap : groupSum Prod.fst Prod.snd (m.threadsOf c p) tid
      = groupSum (fun e => e.1.2.2.1.toInt) (fun e => (e.2.toNat : Int))
        (m.thrOps.items.filter (fun e => decide ((e.1.1, e.1.2.1) = (c, p))))
          tid := groupSum_map _ _ _ _ _
  have hle : groupSum (fun e => e.1.2.2.1.toInt) (fun e => e.2.toNat)
      (m.thrOps.items.filter (fun e => decide ((e.1.1, e.1.2.1) = (c, p)))) tid
      ≤ groupSum (fun e => (e.1.1, e.1.2.1)) (fun e => e.2.toNat)
        (m.thrOps.items.filter (fun _ => true)) (c, p) :=
    groupSum_filter_le (fun e hp _ =>
      ⟨rfl, of_decide_eq_true hp, Nat.le_refl _⟩) _
  rw [List.filter_true,
    h.thrOps.groupSum_items hfits.threads (fun k => (k.1, k.2.1))] at hle
  rw [hmap, groupSum_natCast]
  exact ⟨_, rfl, lt_of_le_of_lt hle (Ledger.opsOf_lt h hfits)⟩

/-- **The counters of a process are small.** -/
theorem DecodedProc.small {raw : RawProc} (hraw : DecodedProc m c p raw) :
    raw.Small :=
  hraw.small_of ⟨l.opsOf c p, h.opsOf_eq hfits c p, Ledger.opsOf_lt h hfits⟩
    (h.smallCounter_thread hfits)

end

/-! ### The processes of a controller -/

/-- What the commands of a controller amount to. -/
def onCtrl (amount : SetupCmd → Nat) (l : List SetupCmd) (ctrl : Int64) : Nat :=
  groupSum SetupCmd.ctrl amount l ctrl

/-- The raw counters of the processes of a controller. -/
def Procs.onCtrl (procs : Procs) (c : Int) : List RawProc :=
  (procs.items.filter (fun e => decide (e.1.1 = c))).map Prod.snd

/-- The sums by a key as it is printed are the sums by the key. -/
theorem groupSum_pairOf (key : SetupCmd → Key2) (amount : SetupCmd → Nat)
    (l : List SetupCmd) (k : Key2) :
    groupSum (fun a => pairOf (key a).1 (key a).2) amount l (pairOf k.1 k.2) =
      groupSum key amount l k := by
  have hsame : (fun a => decide (pairOf (key a).1 (key a).2 = pairOf k.1 k.2)) =
      fun a => decide (key a = k) := by
    funext a
    exact decide_eq_decide.mpr pairOf_eq_iff
  unfold groupSum
  rw [hsame]

/-- Entries whose values are the groups of distinct keys add up to what the
commands of the controller amount to, if no key of theirs is missing. -/
theorem sum_entries_onCtrl {β : Type} {entries : List β} {pair : β → Int × Int}
    {value : β → Int}
    (hnodup : (entries.map pair).Nodup) {key : SetupCmd → Key2}
    (hkey : ∀ a, (key a).1 = a.ctrl)
    {amount : SetupCmd → Nat} {l : List SetupCmd} {ctrl : Int64}
    (hvalue : ∀ e ∈ entries,
      value e = (groupSum (fun a =>
      pairOf (key a).1 (key a).2) amount l (pair e) : Nat))
    (hctrl : ∀ e ∈ entries, (pair e).1 = ctrl.toInt)
    (hall : ∀ a ∈ l, a.ctrl = ctrl →
      pairOf (key a).1 (key a).2 ∈ entries.map pair) :
    (entries.map value).sum = onCtrl amount l ctrl := by
  have hsum : ((entries.map pair).map (groupSum (fun a =>
      pairOf (key a).1 (key a).2) amount l)).sum
      = onCtrl amount l ctrl := by
    refine sum_groupSum _ _ hnodup fun a ha => ?_
    rw [decide_eq_true_eq]
    constructor
    · exact fun hc => hall a ha hc
    · intro hmem
      obtain ⟨e, he, heq⟩ := List.mem_map.mp hmem
      have hfirst := hctrl e he
      rw [heq] at hfirst
      have hint : (key a).1.toInt = ctrl.toInt := hfirst
      rw [hkey] at hint
      exact Int64.toInt_inj.mp hint
  rw [← hsum, List.map_map, Nat.cast_list_sum, List.map_map]
  exact congrArg List.sum (List.map_congr_left hvalue)

section

variable {m : Maps} {procs : Procs} (hprocs : Decoded m procs)
    {d : Counters Key2} {l : List SetupCmd}
variable {amount : SetupCmd → Nat} (hd : Counts d l SetupCmd.process amount)
variable (hfits : GroupsFit SetupCmd.process amount l)

include hprocs hd hfits

/-- **A counter is summed over the processes of a controller.** -/
theorem Decoded.sum_onCtrl {field : RawProc → Int}
    (hfield : ∀ c p raw, DecodedProc m c p raw →
      field raw = (word d (c, p)).toNat)
    (hhas : ∀ c p, (c, p) ∈ d.keys → m.HasProcess c p) (ctrl : Int64) :
    ((procs.onCtrl ctrl.toInt).map field).sum = onCtrl amount l ctrl := by
  have hvalue : ∀ e ∈ procs.items.filter (fun e => decide (e.1.1 = ctrl.toInt)),
      field e.2 = (groupSum (fun a =>
        pairOf a.process.1 a.process.2) amount l e.1 : Nat) := by
    intro e he
    have hget : procs.get? e.1 = some e.2 :=
      OrderedDict.get?_eq_some_iff.mpr (List.mem_of_mem_filter he)
    obtain ⟨c, p, hk, -⟩ :=
      (hprocs.keys e.1).mp (OrderedDict.mem_keys_iff.mpr ⟨_, hget⟩)
    rw [hk] at hget
    rw [hfield c p e.2 (hprocs.counters c p e.2 hget), hk,
      groupSum_pairOf SetupCmd.process amount l (c, p),
      hd.toNat_word (hfits _)]
  have hnodup :
      ((procs.items.filter (fun e => decide (e.1.1 = ctrl.toInt))).map
      Prod.fst).Nodup :=
    List.Nodup.sublist (List.filter_sublist.map _) procs.nodup
  unfold Procs.onCtrl
  rw [List.map_map]
  refine sum_entries_onCtrl hnodup (fun _ => rfl) hvalue (fun e he => ?_)
    (fun a ha hc => ?_)
  · exact of_decide_eq_true (List.mem_filter.mp he).2
  · have hkey : (a.ctrl, a.pid) ∈ d.keys := (hd.mem_keys _).mpr ⟨a, ha, rfl⟩
    have hmem := (hprocs.keys _).mpr ⟨a.ctrl, a.pid, rfl, hhas _ _ hkey⟩
    obtain ⟨e, he, heq⟩ := List.mem_map.mp hmem
    refine List.mem_map.mpr ⟨e, List.mem_filter.mpr ⟨he, decide_eq_true ?_⟩,
      heq⟩
    rw [heq, ← hc]
    rfl

end

/-! ### The queues of a controller -/

section

variable {d : Counters Key2} {l : List SetupCmd} {amount : SetupCmd → Nat}
variable (hd : Counts d l SetupCmd.queue amount)
    (hfits : GroupsFit SetupCmd.queue amount l)

include hd hfits

/-- The value that is read is the sum of the ledger. -/
theorem valueAt_eq_groupSum (c q : Int) :
    valueAt d c q =
      (groupSum (fun a =>
      pairOf a.queue.1 a.queue.2) amount l (c, q) : Nat) := by
  have hlook := groupSum_look (fun v => v) (nodup_intItems d) (c, q)
  have hitems : groupSum Prod.fst (fun e => e.2) (intItems d) (c, q)
      = groupSum (fun e => pairOf e.1.1 e.1.2) (fun e => (e.2.toNat : Int))
        d.items (c, q) := groupSum_map _ _ _ _ _
  rw [Option.map_id'] at hlook
  unfold valueAt
  rw [← hlook, hitems, groupSum_natCast,
    hd.groupSum_items hfits (fun k => pairOf k.1 k.2)]

/-- **A counter is summed over the queues of a controller.** -/
theorem sum_tickEntries (o : PrintOrder) {m : Maps} {name : PyText}
    (hname : ∀ k, (OrderedDict.look name (scalarMaps m)).bind (fun t =>
      OrderedDict.look k (intItems t))
      = OrderedDict.look k (intItems d))
    (hqueue : ∀ c q, HasKey d c q → m.IsQueue c q) (ctrl : Int64) :
    ((tickEntries o m ctrl.toInt).map (fun e => counter e.2 name)).sum =
      onCtrl amount l ctrl := by
  have hvalue : ∀ e ∈ tickEntries o m ctrl.toInt, counter e.2 name
      = (groupSum (fun a =>
        pairOf a.queue.1 a.queue.2) amount l e.1 : Nat) := by
    intro e he
    rw [counter_tickScalars o m ((mem_tickEntries o m _).mp he).1, hname]
    exact valueAt_eq_groupSum hd hfits e.1.1 e.1.2
  have hnodup : ((tickEntries o m ctrl.toInt).map Prod.fst).Nodup := by
    have hqids := nodup_qids_tickEntries o m ctrl.toInt
    refine List.Nodup.of_map Prod.snd ?_
    rwa [List.map_map]
  refine sum_entries_onCtrl hnodup (fun _ => rfl) hvalue (fun e he => ?_)
    (fun a ha hc => ?_)
  · exact ((mem_tickEntries o m _).mp he).2
  · have hkey : a.queue ∈ d.keys := (hd.mem_keys _).mpr ⟨a, ha, rfl⟩
    have hhas : HasKey d a.ctrl.toInt a.qid.toInt := by
      obtain ⟨e, he, heq⟩ := List.mem_map.mp hkey
      refine List.mem_map.mpr ⟨_, List.mem_map_of_mem he, ?_⟩
      rw [heq]
      rfl
    have hmem := (mem_keys_tickScalars o m _ _).mpr (Or.inl (hqueue _ _ hhas))
    obtain ⟨e, he, heq⟩ := List.mem_map.mp hmem
    refine List.mem_map.mpr ⟨e, (mem_tickEntries o m _).mpr ⟨he, ?_⟩, heq⟩
    rw [heq, ← hc]

end

/-! ### Both views -/

/-- The completed commands of a controller that the process 0 submitted. -/
def Ledger.ofTgid0 (l : Ledger) (ctrl : Int64) : Nat :=
  (l.completed.filter (fun a => decide (a.ctrl = ctrl ∧ a.pid = 0))).length

/-- The completions of a controller, of known processes and of others. -/
theorem onCtrl_attributed (l : Ledger) (ctrl : Int64) :
    onCtrl (fun _ => 1) l.attributed ctrl + l.ofTgid0 ctrl =
      onCtrl (fun _ => 1) l.completed ctrl := by
  unfold onCtrl Ledger.attributed Ledger.ofTgid0
  induction l.completed with
  | nil => rfl
  | cons a completed ih =>
      rw [groupSum_cons, ← ih, List.filter_cons, List.filter_cons]
      by_cases hp : a.pid = 0
      · have hno : ¬ a.hasProcess = true := fun h => absurd hp (bne_iff_ne.mp h)
        rw [if_neg hno]
        by_cases hc : a.ctrl = ctrl
        · rw [if_pos hc, if_pos (decide_eq_true ⟨hc, hp⟩), List.length_cons]
          omega
        · rw [if_neg hc, if_neg (fun h => hc (of_decide_eq_true h).1)]
          omega
      · have hyes : a.hasProcess = true := bne_iff_ne.mpr hp
        rw [if_pos hyes, if_neg (fun h => hp (of_decide_eq_true h).2),
          groupSum_cons]
        omega

/-- What is parsed of a tick balances: each process, each queue, and the
completions of a controller by process and by queue. -/
structure ParsedBalance (procs : Procs) (parsed : Parsed) (l : Ledger) :
    Prop where
  processes : ∀ raw ∈ procs.values, raw.Balanced
  queues : ∀ counters ∈ parsed.scalars.values,
    counter counters "op_count".toList = counter counters "lat_count".toList
  completions : ∀ ctrl : Int64,
    ((procs.onCtrl ctrl.toInt).map RawProc.latCnt).sum
    = ((deviceCounters parsed ctrl.toInt).map (fun e =>
      counter e.2 "lat_count".toList)).sum - l.ofTgid0 ctrl

/-- The sums over the processes are the row of the controller, zeros if there is
none. -/
structure ViewsAgree (rows : List ProcessIoStat)
    (aggregate : Option QueuePerf) : Prop where
  readIops : (rows.map ProcessIoStat.readIops).sum =
    (aggregate.map QueuePerf.readIops).getD 0
  writeIops : (rows.map ProcessIoStat.writeIops).sum =
    (aggregate.map QueuePerf.writeIops).getD 0
  bandwidth : (rows.map ProcessIoStat.bandwidthBps).sum
    = (aggregate.map QueuePerf.bandwidthBytesPerSec).getD 0

section

variable {m : Maps} {l : Ledger} (h : Tallied m l) (hfits : l.Fits)
    {procs : Procs} (hprocs : Decoded m procs)
variable (o : PrintOrder) (hists : OrderedDict (Int × Int) (List Bucket))

include hprocs in
/-- Every entry that is read decodes some process. -/
theorem Decoded.of_mem_values {raw : RawProc} (hraw : raw ∈ procs.values) :
    ∃ c p, DecodedProc m c p raw := by
  obtain ⟨k, hget⟩ := OrderedDict.mem_values_iff.mp hraw
  obtain ⟨c, p, rfl, -⟩ :=
    (hprocs.keys k).mp (OrderedDict.mem_keys_iff.mpr ⟨_, hget⟩)
  exact ⟨c, p, hprocs.counters c p raw hget⟩

include h hfits

/-- **The sums of a controller over its queues.** -/
theorem Tallied.queue_sums (ctrl : Int64) :
    ((tickEntries o m ctrl.toInt).map (fun e =>
      counter e.2 "read_count".toList)).sum
        = onCtrl (fun _ => 1) l.reads ctrl ∧
      ((tickEntries o m ctrl.toInt).map (fun e =>
        counter e.2 "write_count".toList)).sum
        = onCtrl (fun _ => 1) l.writes ctrl ∧
      ((tickEntries o m ctrl.toInt).map (fun e =>
        counter e.2 "bytes_sum".toList)).sum
        = onCtrl SetupCmd.bytes l.transfers ctrl ∧
      ((tickEntries o m ctrl.toInt).map (fun e =>
        counter e.2 "lat_count".toList)).sum
        = onCtrl (fun _ => 1) l.completed ctrl := by
  refine ⟨?_, ?_, ?_, ?_⟩
  · exact sum_tickEntries h.readCount hfits.readsOfQueue o (fun _ => rfl)
      (fun _ _ hk => Or.inr (Or.inl hk)) ctrl
  · exact sum_tickEntries h.writeCount hfits.writesOfQueue o (fun _ => rfl)
      (fun _ _ hk => Or.inr (Or.inr (Or.inl hk))) ctrl
  · exact sum_tickEntries h.bytesSum hfits.queueBytes o (fun _ => rfl)
      (fun _ _ hk => Or.inr (Or.inr (Or.inr (Or.inl hk)))) ctrl
  · exact sum_tickEntries h.latCount hfits.completed o (fun _ => rfl)
      (fun _ _ hk => Or.inr (Or.inr (Or.inr (Or.inr (Or.inr hk))))) ctrl

/-- **The row of the controller** has the sums over its queues. -/
theorem Tallied.aggregateRow_sums (ctrl : Int64)
    (buckets : Int × Int → List Bucket) :
    ((aggregateRow o m ctrl.toInt buckets).map QueuePerf.readIops).getD 0
        = (onCtrl (fun _ => 1) l.reads ctrl : ℚ) ∧
      ((aggregateRow o m ctrl.toInt buckets).map QueuePerf.writeIops).getD 0
        = (onCtrl (fun _ => 1) l.writes ctrl : ℚ) ∧
      ((aggregateRow o m ctrl.toInt buckets).map
        QueuePerf.bandwidthBytesPerSec).getD 0
        = (onCtrl SetupCmd.bytes l.transfers ctrl : ℚ) := by
  obtain ⟨hread, hwrite, hbytes, -⟩ := h.queue_sums hfits o ctrl
  have hcolumn : ∀ {column : QueuePerf → ℚ} {name : PyText},
      (∀ qid counters b, column (queueRow qid counters b) =
        counter counters name) → ∀ {n : Nat},
      ((tickEntries o m ctrl.toInt).map (fun e => counter e.2 name)).sum = n →
        ((aggregateRow o m ctrl.toInt buckets).map column).getD 0 =
          (n : ℚ) := by
    intro column name hcolumn n hn
    unfold aggregateRow
    split
    case isTrue hnil =>
      unfold queueRows at hnil
      rw [List.map_eq_nil_iff.mp hnil] at hn
      have hzero : n = 0 := Int.ofNat.inj hn.symm
      rw [hzero]
      rfl
    case isFalse =>
      rw [Option.map_some, Option.getD_some, hcolumn, counter_sumCounters,
        List.map_map]
      exact (congrArg (Int.cast : Int → ℚ) hn).trans (Int.cast_natCast n)
  exact ⟨hcolumn (fun _ _ _ => rfl) hread, hcolumn (fun _ _ _ => rfl) hwrite,
    hcolumn (fun _ _ _ => rfl) hbytes⟩

include hprocs

/-- **The sums of a controller over its processes.** -/
theorem Tallied.process_sums (ctrl : Int64) :
    ((procs.onCtrl ctrl.toInt).map RawProc.read).sum =
      onCtrl (fun _ => 1) l.reads ctrl ∧
      ((procs.onCtrl ctrl.toInt).map RawProc.write).sum =
        onCtrl (fun _ => 1) l.writes ctrl ∧
      ((procs.onCtrl ctrl.toInt).map RawProc.bytes).sum =
        onCtrl SetupCmd.bytes l.transfers ctrl ∧
      ((procs.onCtrl ctrl.toInt).map RawProc.latCnt).sum =
        onCtrl (fun _ => 1) l.attributed ctrl := by
  refine ⟨?_, ?_, ?_, ?_⟩
  · exact hprocs.sum_onCtrl h.procRd hfits.readsOfProcess (fun _ _ _ hraw =>
      hraw.read)
      (fun _ _ hk => Or.inr (Or.inr (Or.inl hk))) ctrl
  · exact hprocs.sum_onCtrl h.procWr hfits.writesOfProcess (fun _ _ _ hraw =>
      hraw.write)
      (fun _ _ hk => Or.inr (Or.inr (Or.inr (Or.inl hk)))) ctrl
  · exact hprocs.sum_onCtrl h.procBytes hfits.processBytes (fun _ _ _ hraw =>
      hraw.bytes)
      (fun _ _ hk => Or.inr (Or.inl hk)) ctrl
  · exact hprocs.sum_onCtrl h.procLatCnt hfits.attributed (fun _ _ _ hraw =>
      hraw.latCnt)
      (fun _ _ hk =>
        Or.inr (Or.inr
        (Or.inr (Or.inr (Or.inr (Or.inr (Or.inr (Or.inl hk)))))))) ctrl

/-- **What is parsed of a tick balances.** -/
theorem Tallied.parsedBalance :
    ParsedBalance procs ⟨tickScalars o m, hists⟩ l := by
  refine ⟨fun raw hraw => ?_, fun counters hcounters => ?_, fun ctrl => ?_⟩
  · obtain ⟨c, p, hdecoded⟩ := hprocs.of_mem_values hraw
    exact hdecoded.balanced h hfits
  · obtain ⟨e, he, rfl⟩ := List.mem_map.mp hcounters
    have hop := counter_tickScalars o m he "op_count".toList
    have hlat := counter_tickScalars o m he "lat_count".toList
    have hsame : (OrderedDict.look "op_count".toList (scalarMaps m)) =
        some m.latCount := by
      rw [← h.opCount]
      rfl
    have hcount : (OrderedDict.look "lat_count".toList (scalarMaps m)) =
      some m.latCount := rfl
    rw [hop, hlat, hsame, hcount]
  · obtain ⟨-, -, -, hprocess⟩ := h.process_sums hfits hprocs ctrl
    obtain ⟨-, -, -, hqueue⟩ := h.queue_sums hfits o ctrl
    have hentries : deviceCounters ⟨tickScalars o m, hists⟩ ctrl.toInt =
      tickEntries o m ctrl.toInt := rfl
    have hsplit := onCtrl_attributed l ctrl
    rw [hprocess, hentries, hqueue]
    omega

/-- **The two views of a controller agree.** -/
theorem Tallied.viewsAgree {want : Option Int} {ctrl : Int64}
    (hwant : want = none ∨ want = some ctrl.toInt)
    (buckets : Int × Int → List Bucket) :
    ViewsAgree (rowsOf (ctrlName ctrl.toInt) (processRows procs want))
      (aggregateRow o m ctrl.toInt buckets) := by
  obtain ⟨hread, hwrite, hbytes, -⟩ := h.process_sums hfits hprocs ctrl
  obtain ⟨hread', hwrite', hbytes'⟩ := h.aggregateRow_sums hfits o ctrl buckets
  have hcolumn : ∀ {column : ProcessIoStat → ℚ} {field : RawProc → Int},
      (∀ c t raw, column (processRow c t raw) = field raw) → ∀ {n : Nat},
      ((procs.onCtrl ctrl.toInt).map field).sum = n →
        ((rowsOf (ctrlName ctrl.toInt) (processRows procs want)).map
          column).sum = n := by
    intro column field hcolumn n hn
    unfold Procs.onCtrl at hn
    rw [List.map_map] at hn
    rw [sum_rowsOf hcolumn procs hwant]
    exact (congrArg (Int.cast : Int → ℚ) hn).trans (Int.cast_natCast n)
  constructor
  · rw [hcolumn (fun _ _ _ => rfl) hread, hread']
  · rw [hcolumn (fun _ _ _ => rfl) hwrite, hwrite']
  · rw [hcolumn (fun _ _ _ => rfl) hbytes, hbytes']

end

end Telemetryd
