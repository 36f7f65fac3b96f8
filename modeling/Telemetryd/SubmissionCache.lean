import Telemetryd.CollectorSteps
import Telemetryd.ErrorRoundTrip
import Telemetryd.Lib.Runs

/-!
# The submission cache of the collector

Ten maps keep what a command looked like when it was set up, under its tag,
until it is completed.  A tag is part of the command's id and is used again.
As long as a tag is set up again only after its command was completed, the maps
hold exactly the commands in flight that this run has seen, and the lines of
timeouts and errors show the command they are about.
-/

namespace Telemetryd

open PyText Counters

/-- The tag a command is kept under. -/
def SetupCmd.req (c : SetupCmd) : Key3 := (c.ctrl, c.qid, c.tag)

/-- The request of a completion. -/
def CompleteRq.req (a : CompleteRq) : Key3 := (a.ctrl, a.qid, a.tag)

/-- The request of a timeout. -/
def NvmeTimeout.req (a : NvmeTimeout) : Key3 := (a.ctrl, a.qid, a.tag)

/-- The completion is that of the command. -/
def CompleteRq.Completes (a : CompleteRq) (c : SetupCmd) : Prop :=
  c.ctrl = a.ctrl ∧ c.qid = a.qid ∧ c.cid = a.cid

instance (a : CompleteRq) (c : SetupCmd) : Decidable (a.Completes c) :=
  inferInstanceAs (Decidable (_ ∧ _ ∧ _))

/-- A completion is of the request of its command. -/
theorem CompleteRq.Completes.req_eq {a : CompleteRq} {c : SetupCmd}
    (h : a.Completes c) :
    c.req = a.req := by
  obtain ⟨hctrl, hqid, hcid⟩ := h
  unfold SetupCmd.req CompleteRq.req SetupCmd.tag CompleteRq.tag
  rw [hctrl, hqid, hcid]

/-- The collector, and the commands that were set up and not completed. -/
structure Traced where
  collector : Collector := {}
  outstanding : List SetupCmd := []

namespace Traced

/-- The commands outstanding after a probe. -/
def outstandingAfter (out : List SetupCmd) : Probe → List SetupCmd
  | .setupCmd a => a :: out
  | .completeRq a => out.filter (fun c => decide (¬ a.Completes c))
  | .nvmeTimeout _ => out
  | .interval => out

/-- The collector with the commands that are outstanding. -/
def step (o : PrintOrder) (t : Traced) (p : Probe) : Traced where
  collector := (t.collector.step o p).1
  outstanding := outstandingAfter t.outstanding p

/-- A tag is set up only while no command is outstanding under it, so that what
is completed under the tag of an outstanding command is this command; and the
clock is not at 0. -/
def Admits (t : Traced) : Probe → Prop
  | .setupCmd a => a.nsecs ≠ 0 ∧ ∀ c ∈ t.outstanding, c.req ≠ a.req
  | .completeRq a => ∀ c ∈ t.outstanding, c.req = a.req → a.Completes c
  | .nvmeTimeout _ => True
  | .interval => True

instance (t : Traced) : ∀ p, Decidable (t.Admits p)
  | .setupCmd a =>
      inferInstanceAs (Decidable (a.nsecs ≠ 0 ∧ ∀ c ∈ t.outstanding,
        c.req ≠ a.req))
  | .completeRq a =>
      inferInstanceAs (Decidable (∀ c ∈ t.outstanding, c.req = a.req →
        a.Completes c))
  | .nvmeTimeout _ => isTrue trivial
  | .interval => isTrue trivial

end Traced

/-! ### The fields of a command -/

namespace SetupCmd

variable (c : SetupCmd)

/-- A tag is the id modulo 4096. -/
theorem toInt_and_0xfff (x : Int64) : (x &&& 0xfff).toInt = x.toInt % 4096 := by
  have hnat : (x &&& 0xfff).toBitVec.toNat = x.toBitVec.toNat % 2 ^ 12 := by
    rw [Int64.toBitVec_and, BitVec.toNat_and]
    exact Nat.and_two_pow_sub_one_eq_mod _ 12
  have hx : x.toInt = x.toBitVec.toInt := rfl
  have hand : (x &&& 0xfff).toInt = (x &&& 0xfff).toBitVec.toInt := rfl
  rw [hx, hand, BitVec.toInt_eq_toNat_cond, BitVec.toInt_eq_toNat_cond, hnat]
  have hlt := x.toBitVec.isLt
  generalize x.toBitVec.toNat = n at hlt
  split <;> split <;> omega

/-- A command word is little endian. -/
theorem toNat_dword (i : Fin 21) (hi : i.val < 24) (hi1 : i.val + 1 < 24)
    (hi2 : i.val + 2 < 24)
    (hi3 : i.val + 3 < 24) :
    (c.dword i).toNat = (c.cdw10 ⟨i, hi⟩).toNat + 2 ^ 8 *
      (c.cdw10 ⟨i + 1, hi1⟩).toNat
      + 2 ^ 16 * (c.cdw10 ⟨i + 2, hi2⟩).toNat + 2 ^ 24 *
        (c.cdw10 ⟨i + 3, hi3⟩).toNat := by
  have h0 := (c.cdw10 ⟨i, hi⟩).toNat_lt
  have h1 := (c.cdw10 ⟨i + 1, hi1⟩).toNat_lt
  have h2 := (c.cdw10 ⟨i + 2, hi2⟩).toNat_lt
  have h3 := (c.cdw10 ⟨i + 3, hi3⟩).toNat_lt
  have hdword : (c.dword i).toNat = ((((c.cdw10 ⟨i, hi⟩).toNat |||
      ((c.cdw10 ⟨i + 1, hi1⟩).toNat <<< 8 % 2 ^ 32)) |||
      ((c.cdw10 ⟨i + 2, hi2⟩).toNat <<< 16 % 2 ^ 32)) |||
      ((c.cdw10 ⟨i + 3, hi3⟩).toNat <<< 24 % 2 ^ 32)) := rfl
  rw [hdword]
  generalize (c.cdw10 ⟨i, hi⟩).toNat = b0 at h0
  generalize (c.cdw10 ⟨i + 1, hi1⟩).toNat = b1 at h1
  generalize (c.cdw10 ⟨i + 2, hi2⟩).toNat = b2 at h2
  generalize (c.cdw10 ⟨i + 3, hi3⟩).toNat = b3 at h3
  have hs : ∀ (b k n : Nat), b < 2 ^ 8 → n < 2 ^ k → 2 ^ (k + 8) ≤ 2 ^ 32 →
      n ||| (b <<< k % 2 ^ 32) = n + 2 ^ k * b := by
    intro b k n hb hn hk
    have hlt : b <<< k < 2 ^ 32 := by
      rw [Nat.shiftLeft_eq, Nat.mul_comm]
      calc 2 ^ k * b < 2 ^ k * 2 ^ 8 :=
        Nat.mul_lt_mul_of_pos_left hb (Nat.two_pow_pos k)
        _ = 2 ^ (k + 8) := (Nat.pow_add 2 k 8).symm
        _ ≤ 2 ^ 32 := hk
    rw [Nat.mod_eq_of_lt hlt, Nat.or_comm, ← Nat.shiftLeft_add_eq_or_of_lt hn,
      Nat.shiftLeft_eq]
    ring
  rw [hs b1 8 b0 h1 h0 (by decide), hs b2 16 _ h2 (by omega) (by decide),
    hs b3 24 _ h3 (by omega) (by decide)]

/-- Command word 10 + `i`. -/
def cdw (i : Fin 6) : UInt32 :=
  .ofNat ((c.cdw10 ⟨4 * i, by omega⟩).toNat + 2 ^ 8 *
    (c.cdw10 ⟨4 * i + 1, by omega⟩).toNat
    + 2 ^ 16 * (c.cdw10 ⟨4 * i + 2, by omega⟩).toNat
    + 2 ^ 24 * (c.cdw10 ⟨4 * i + 3, by omega⟩).toNat)

/-- The bytes are put together in the right order. -/
theorem dword_eq_cdw (i : Fin 6) : c.dword ⟨4 * i, by omega⟩ = c.cdw i := by
  have hword :=
    c.toNat_dword ⟨4 * i, by omega⟩ (by dsimp only; omega)
    (by dsimp only; omega)
    (by dsimp only; omega) (by dsimp only; omega)
  unfold cdw
  rw [← hword, UInt32.ofNat_toNat]

end SetupCmd

/-! ### One map -/

/-- The map has the outstanding commands for keys, with a value of each. -/
def Caches {V : Type} (m : OrderedDict Key3 V) (out : List SetupCmd)
    (value : SetupCmd → V) : Prop :=
  ∀ k v, m.get? k = some v ↔ ∃ c ∈ out, c.req = k ∧ value c = v

section

variable {V : Type} {m : OrderedDict Key3 V} {out : List SetupCmd}
    {value : SetupCmd → V}

/-- An empty map caches nothing. -/
theorem caches_empty (value : SetupCmd → V) : Caches .empty [] value := by
  intro k v
  simp

/-- A command is set up under a free tag. -/
theorem Caches.insert (h : Caches m out value) {a : SetupCmd}
    (hfree : ∀ c ∈ out, c.req ≠ a.req)
    {stored : V} (hstored : stored = value a) :
    Caches (m.insert a.req stored) (a :: out) value := by
  subst hstored
  intro k v
  rw [OrderedDict.get?_insert]
  by_cases hk : k = a.req
  · subst hk
    rw [if_pos rfl]
    constructor
    · intro hv
      exact ⟨a, List.mem_cons_self, rfl, Option.some.inj hv⟩
    · intro ⟨c, hc, hreq, hv⟩
      rcases List.mem_cons.mp hc with rfl | hc
      · rw [hv]
      · exact absurd hreq (hfree c hc)
  · rw [if_neg hk, h k v]
    constructor
    · intro ⟨c, hc, hrest⟩
      exact ⟨c, List.mem_cons_of_mem _ hc, hrest⟩
    · intro ⟨c, hc, hreq, hv⟩
      rcases List.mem_cons.mp hc with rfl | hc
      · exact absurd hreq.symm hk
      · exact ⟨c, hc, hreq, hv⟩

/-- The command under a tag is completed. -/
theorem Caches.erase (h : Caches m out value) {a : CompleteRq}
    (hown : ∀ c ∈ out, c.req = a.req → a.Completes c) :
    Caches (m.erase a.req) (out.filter (fun c => decide (¬ a.Completes c)))
      value := by
  intro k v
  rw [OrderedDict.get?_erase]
  by_cases hk : k = a.req
  · rw [if_pos hk]
    refine iff_of_false (by simp) ?_
    intro ⟨c, hc, hreq, _⟩
    obtain ⟨hc, hnot⟩ := List.mem_filter.mp hc
    exact of_decide_eq_true hnot (hown c hc (hreq.trans hk))
  · rw [if_neg hk, h k v]
    constructor
    · intro ⟨c, hc, hreq, hv⟩
      refine ⟨c, List.mem_filter.mpr ⟨hc, decide_eq_true ?_⟩, hreq, hv⟩
      intro hdone
      exact hk (hreq.symm.trans hdone.req_eq)
    · intro ⟨c, hc, hrest⟩
      exact ⟨c, List.mem_of_mem_filter hc, hrest⟩

/-- A command that is outstanding is found. -/
theorem Caches.get?_of_mem (h : Caches m out value) {c : SetupCmd}
    (hc : c ∈ out) :
    m.get? c.req = some (value c) := (h _ _).mpr ⟨c, hc, rfl, rfl⟩

/-- A request without a command is not. -/
theorem Caches.get?_eq_none (h : Caches m out value) {k : Key3}
    (hk : ∀ c ∈ out, c.req ≠ k) :
    m.get? k = none := by
  rw [Option.eq_none_iff_forall_ne_some]
  intro v hv
  obtain ⟨c, hc, hreq, -⟩ := (h k v).mp hv
  exact hk c hc hreq

/-- The keys are those of the outstanding commands. -/
theorem Caches.mem_keys (h : Caches m out value) {k : Key3} :
    k ∈ m.keys ↔ ∃ c ∈ out, c.req = k := by
  rw [OrderedDict.mem_keys_iff]
  constructor
  · intro ⟨v, hv⟩
    obtain ⟨c, hc, hreq, -⟩ := (h k v).mp hv
    exact ⟨c, hc, hreq⟩
  · intro ⟨c, hc, hreq⟩
    exact ⟨value c, (h k _).mpr ⟨c, hc, hreq, rfl⟩⟩

end

/-! ### The ten maps -/

/-- What the collector stores of the opcode, the namespace and the flags. -/
def SetupCmd.cachedOpcode (c : SetupCmd) : Int64 := c.opcode.toInt8.toInt64
/-- The namespace, as the map keeps it. -/
def SetupCmd.cachedNsid (c : SetupCmd) : Int64 := c.nsid.toInt32.toInt64
/-- The flags, as the map keeps them. -/
def SetupCmd.cachedFlags (c : SetupCmd) : Int64 := c.flags.toInt8.toInt64

/-- The maps hold the outstanding commands. -/
structure Collector.CacheExact (s : Collector) (out : List SetupCmd) :
    Prop where
  toTs : Caches s.toTs out (·.nsecs)
  toOpcode : Caches s.toOpcode out SetupCmd.cachedOpcode
  toNsid : Caches s.toNsid out SetupCmd.cachedNsid
  toFlags : Caches s.toFlags out SetupCmd.cachedFlags
  toCdw10 : Caches s.toCdw10 out (·.cdw 0)
  toCdw11 : Caches s.toCdw11 out (·.cdw 1)
  toCdw12 : Caches s.toCdw12 out (·.cdw 2)
  toCdw13 : Caches s.toCdw13 out (·.cdw 3)
  toCdw14 : Caches s.toCdw14 out (·.cdw 4)
  toCdw15 : Caches s.toCdw15 out (·.cdw 5)

/-- A submission keeps the cache exact. -/
theorem Collector.CacheExact.setupCmd {s : Collector} {out : List SetupCmd}
    (h : s.CacheExact out)
    {a : SetupCmd} (hfree : ∀ c ∈ out, c.req ≠ a.req) :
    (s.setupCmd a).CacheExact (a :: out) where
  toTs := h.toTs.insert hfree rfl
  toOpcode := h.toOpcode.insert hfree rfl
  toNsid := h.toNsid.insert hfree rfl
  toFlags := h.toFlags.insert hfree rfl
  toCdw10 := h.toCdw10.insert hfree (a.dword_eq_cdw 0)
  toCdw11 := h.toCdw11.insert hfree (a.dword_eq_cdw 1)
  toCdw12 := h.toCdw12.insert hfree (a.dword_eq_cdw 2)
  toCdw13 := h.toCdw13.insert hfree (a.dword_eq_cdw 3)
  toCdw14 := h.toCdw14.insert hfree (a.dword_eq_cdw 4)
  toCdw15 := h.toCdw15.insert hfree (a.dword_eq_cdw 5)

/-- So does a completion. -/
theorem Collector.CacheExact.forget {s : Collector} {out : List SetupCmd}
    (h : s.CacheExact out)
    {a : CompleteRq} (hown : ∀ c ∈ out, c.req = a.req → a.Completes c) :
    (s.forget a).CacheExact (out.filter (fun c => decide (¬ a.Completes c)))
      where
  toTs := h.toTs.erase hown
  toOpcode := h.toOpcode.erase hown
  toNsid := h.toNsid.erase hown
  toFlags := h.toFlags.erase hown
  toCdw10 := h.toCdw10.erase hown
  toCdw11 := h.toCdw11.erase hown
  toCdw12 := h.toCdw12.erase hown
  toCdw13 := h.toCdw13.erase hown
  toCdw14 := h.toCdw14.erase hown
  toCdw15 := h.toCdw15.erase hown

/-- The counters of the tick do not matter to the cache. -/
theorem Collector.CacheExact.setMaps {s : Collector} {out : List SetupCmd}
    (h : s.CacheExact out)
    (maps : Maps) (budget : Counters Int64) :
    ({ s with maps := maps, errBudget := budget } : Collector).CacheExact out :=
  ⟨h.toTs, h.toOpcode, h.toNsid, h.toFlags, h.toCdw10, h.toCdw11, h.toCdw12,
    h.toCdw13, h.toCdw14,
    h.toCdw15⟩

/-- **One probe.** -/
theorem Traced.cacheExact_step (o : PrintOrder) {t : Traced}
    (h : t.collector.CacheExact t.outstanding)
    {p : Probe} (hp : t.Admits p) :
    (t.step o p).collector.CacheExact (t.step o p).outstanding := by
  cases p with
  | setupCmd a => exact h.setupCmd hp.2
  | completeRq a =>
      change (t.collector.completeRq a).1.CacheExact _
      rw [Collector.completeRq_eq]
      exact (h.setMaps _ _).forget hp
  | nvmeTimeout a => exact h
  | interval => exact h.setMaps _ _

/-! ### Words of two halves -/

/-- Two command words make an address. -/
theorem toNat_address (hi lo : UInt32) :
    ((hi.toUInt64 <<< 32) ||| lo.toUInt64).toNat =
      hi.toNat * 2 ^ 32 + lo.toNat := by
  have hhi := hi.toNat_lt
  have hlo := lo.toNat_lt
  have h : ((hi.toUInt64 <<< 32) ||| lo.toUInt64).toNat =
    (hi.toNat <<< 32 % 2 ^ 64) ||| lo.toNat := rfl
  have hlt : hi.toNat <<< 32 < 2 ^ 64 := by
    rw [Nat.shiftLeft_eq]
    omega
  rw [h, Nat.mod_eq_of_lt hlt, ← Nat.shiftLeft_add_eq_or_of_lt hlo,
    Nat.shiftLeft_eq]

/-- The low half of a command word, and one. -/
theorem toNat_blocks (x : UInt32) :
    ((x.toUInt64 &&& 0xffff) + 1).toNat = x.toNat % 2 ^ 16 + 1 := by
  have hand : (x.toUInt64 &&& 0xffff).toNat = x.toNat % 2 ^ 16 := by
    rw [UInt64.toNat_and, UInt32.toNat_toUInt64]
    exact Nat.and_two_pow_sub_one_eq_mod _ 16
  have hone : (1 : UInt64).toNat = 1 := rfl
  rw [UInt64.toNat_add, hand, hone]
  omega

/-! ### The lines -/

/-- The line of a timeout of this command. -/
def SetupCmd.timeoutText (c : SetupCmd) (a : NvmeTimeout) : PyText :=
  timeoutEventLine a.nsecs.toInt64.toInt a.ctrl.toInt a.qid.toInt a.tag.toInt
    (TimedOut.signExtend8 c.opcode) (TimedOut.signExtend32 c.nsid)
      (TimedOut.signExtend8 c.flags)
    (c.cdw 0).toNat (c.cdw 1).toNat (c.cdw 2).toNat (c.cdw 3).toNat
      (c.cdw 4).toNat
    (c.cdw 5).toNat (a.nsecs - c.nsecs).toInt64.toInt

/-- The line of an error, from the fields that were cached and the time since
the submission. -/
def CompleteRq.errorText (a : CompleteRq)
    (opcode nsid slba nlb cached elapsedNs : Int) : PyText :=
  errorEventLine a.nsecs.toInt64.toInt a.ctrl.toInt a.qid.toInt a.cid.toInt
    (a.cid.toInt % 4096)
    opcode nsid a.status.toNat a.sct.toNat a.sc.toNat a.dnr.toNat a.more.toNat
      a.crd.toNat slba nlb
    a.retries.toNat cached elapsedNs

/-- The line of an error of this command. -/
def SetupCmd.errorText (c : SetupCmd) (a : CompleteRq) : PyText :=
  a.errorText (TimedOut.signExtend8 c.opcode) (TimedOut.signExtend32 c.nsid)
    ((c.cdw 1).toNat * 2 ^ 32 + (c.cdw 0).toNat : Nat) ((c.cdw 2).toNat %
      2 ^ 16 + 1 : Nat) 1
    (a.nsecs - c.nsecs).toInt64.toInt

/-- The opcode is kept as a signed byte. -/
theorem SetupCmd.toInt_cachedOpcode (c : SetupCmd) :
    c.cachedOpcode.toInt = TimedOut.signExtend8 c.opcode := Int8.toInt_toInt64 _

/-- The namespace is kept as a signed word. -/
theorem SetupCmd.toInt_cachedNsid (c : SetupCmd) :
    c.cachedNsid.toInt = TimedOut.signExtend32 c.nsid := Int32.toInt_toInt64 _

/-- The flags are kept as a signed byte. -/
theorem SetupCmd.toInt_cachedFlags (c : SetupCmd) :
    c.cachedFlags.toInt = TimedOut.signExtend8 c.flags := Int8.toInt_toInt64 _

namespace Collector.CacheExact

variable {s : Collector} {out : List SetupCmd}

/-- The line of a timeout shows the command of its request. -/
theorem timeoutLine_eq (h : s.CacheExact out) (hnsecs : ∀ c ∈ out, c.nsecs ≠ 0)
    {a : NvmeTimeout}
    {c : SetupCmd} (hc : c ∈ out) (hreq : c.req = a.req) :
    s.timeoutLine a = c.timeoutText a := by
  have hts : word s.toTs c.req = c.nsecs := by
    rw [word, h.toTs.get?_of_mem hc, Option.getD_some]
  unfold Collector.timeoutLine SetupCmd.timeoutText
  rw [show (a.ctrl, a.qid, a.tag) = c.req from hreq.symm]
  simp only [hts, h.toOpcode.get?_of_mem hc, h.toNsid.get?_of_mem hc,
    h.toFlags.get?_of_mem hc,
    h.toCdw10.get?_of_mem hc, h.toCdw11.get?_of_mem hc,
    h.toCdw12.get?_of_mem hc,
    h.toCdw13.get?_of_mem hc, h.toCdw14.get?_of_mem hc,
    h.toCdw15.get?_of_mem hc, Option.getD_some,
    if_pos (hnsecs c hc), SetupCmd.toInt_cachedOpcode,
    SetupCmd.toInt_cachedNsid,
    SetupCmd.toInt_cachedFlags]

/-- The line of an error shows the command that failed. -/
theorem errorLine_of_mem (h : s.CacheExact out)
    (hnsecs : ∀ c ∈ out, c.nsecs ≠ 0) {a : CompleteRq}
    {c : SetupCmd} (hc : c ∈ out) (hdone : a.Completes c) :
    s.errorLine a = c.errorText a := by
  have hts : word s.toTs c.req = c.nsecs := by
    rw [word, h.toTs.get?_of_mem hc, Option.getD_some]
  have htag : a.tag.toInt = a.cid.toInt % 4096 := SetupCmd.toInt_and_0xfff a.cid
  unfold Collector.errorLine SetupCmd.errorText CompleteRq.errorText
  rw [show (a.ctrl, a.qid, a.tag) = c.req from hdone.req_eq.symm]
  simp only [hts, h.toOpcode.get?_of_mem hc, h.toNsid.get?_of_mem hc,
    h.toCdw10.get?_of_mem hc,
    h.toCdw11.get?_of_mem hc, h.toCdw12.get?_of_mem hc, Option.getD_some,
    if_pos (hnsecs c hc),
    SetupCmd.toInt_cachedOpcode, SetupCmd.toInt_cachedNsid, toNat_address,
    toNat_blocks, htag]

/-- Without one it shows none. -/
theorem errorLine_of_unseen (h : s.CacheExact out) {a : CompleteRq}
    (hown : ∀ c ∈ out, c.req = a.req → a.Completes c)
    (hno : ∀ c ∈ out, ¬ a.Completes c) :
    s.errorLine a = a.errorText 0 0 0 1 0 0 := by
  have hfree : ∀ c ∈ out, c.req ≠ (a.ctrl, a.qid, a.tag) :=
    fun c hc hreq => hno c hc (hown c hc hreq)
  have hts : word s.toTs (a.ctrl, a.qid, a.tag) = 0 := by
    rw [word, h.toTs.get?_eq_none hfree, Option.getD_none]
  have htag : a.tag.toInt = a.cid.toInt % 4096 := SetupCmd.toInt_and_0xfff a.cid
  have hzero : (0 : UInt64) ≠ 0 ↔ False := by decide
  unfold Collector.errorLine CompleteRq.errorText
  simp only [hts, h.toOpcode.get?_eq_none hfree, h.toNsid.get?_eq_none hfree,
    h.toCdw10.get?_eq_none hfree, h.toCdw11.get?_eq_none hfree,
    h.toCdw12.get?_eq_none hfree,
    Option.getD_none, hzero, if_false, toNat_address, toNat_blocks, htag]
  rfl

end Collector.CacheExact

/-! ### Every run -/

/-- What holds between two probes: the cache is that of the outstanding
commands; a timeout of one of them is printed with its fields; and an error is
printed with the fields of the command that is completed, and as cached, or
with no fields when its submission was not seen. -/
structure Traced.Faithful (t : Traced) : Prop where
  cache : t.collector.CacheExact t.outstanding
  timeout : ∀ o a c, c ∈ t.outstanding → c.req = a.req →
    (t.collector.step o (.nvmeTimeout a)).2 = [.line (.plain (c.timeoutText a))]
  error : ∀ o a c, t.Admits (.completeRq a) → c ∈ t.outstanding →
    a.Completes c →
    (t.collector.step o (.completeRq a)).2
      = if t.collector.PrintsError a then [.line (.plain (c.errorText a))]
        else []
  unseen : ∀ o a, t.Admits (.completeRq a) →
    (∀ c ∈ t.outstanding, ¬ a.Completes c) →
    (t.collector.step o (.completeRq a)).2
      = if t.collector.PrintsError a
        then [.line (.plain (a.errorText 0 0 0 1 0 0))] else []

/-- **The submission cache is exact in every run** that sets a tag up only
while no command is outstanding under it. -/
theorem submission_cache_exact (o : PrintOrder) (probes : List Probe)
    (h : Runs.Each (Traced.step o) Traced.Admits {} probes) :
    Runs.Always (Traced.step o) Traced.Faithful {} probes := by
  refine Runs.always_of_each (I := fun t =>
    t.collector.CacheExact t.outstanding ∧
    ∀ c ∈ t.outstanding, c.nsecs ≠ 0) ?_ ?_ ?_ h
  · intro t ⟨hcache, hnsecs⟩
    refine ⟨hcache, ?_, ?_, ?_⟩
    · intro o a c hc hreq
      change [Entry.line (.plain (t.collector.timeoutLine a))] = _
      rw [hcache.timeoutLine_eq hnsecs hc hreq]
    · intro o a c _ hc hdone
      change (t.collector.completeRq a).2 = _
      rw [Collector.completeRq_eq, hcache.errorLine_of_mem hnsecs hc hdone]
    · intro o a hown hno
      change (t.collector.completeRq a).2 = _
      rw [Collector.completeRq_eq, hcache.errorLine_of_unseen hown hno]
  · intro t p ⟨hcache, hnsecs⟩ hp
    refine ⟨Traced.cacheExact_step o hcache hp, ?_⟩
    cases p with
    | setupCmd a =>
        intro c hc
        rcases List.mem_cons.mp hc with rfl | hc
        · exact hp.1
        · exact hnsecs c hc
    | completeRq a => exact fun c hc => hnsecs c (List.mem_of_mem_filter hc)
    | nvmeTimeout a => exact hnsecs
    | interval => exact hnsecs
  · exact ⟨⟨caches_empty _, caches_empty _, caches_empty _, caches_empty _,
      caches_empty _,
      caches_empty _, caches_empty _, caches_empty _, caches_empty _,
      caches_empty _⟩,
      fun c hc => absurd hc List.not_mem_nil⟩

/-- A read of eight blocks from block 2048. -/
def readOf2048 (nsecs : UInt64) (cid : Int64) : SetupCmd where
  nsecs := nsecs
  ctrl := 0
  qid := 1
  cid := cid
  opcode := 2
  flags := 0
  nsid := 1
  cdw10 := fun i => if i = 1 then 8 else if i = 8 then 7 else 0
  pid := 7
  tid := 7
  comm := ⟨[102, 105, 111], by decide, by decide⟩

/-- A completion on the same queue. -/
def completionOf (cid : Int64) (status : UInt16) : CompleteRq where
  nsecs := 3000
  ctrl := 0
  qid := 1
  cid := cid
  status := status
  retries := 0

/-- A command of before the run is completed, then a tag is used twice with
different ids, with a timeout while the second command is outstanding. -/
def tagReused : List Probe :=
  [.completeRq (completionOf 5 0x281), .setupCmd (readOf2048 1000 0x1005),
    .completeRq (completionOf 0x1005 0x281), .setupCmd (readOf2048 2000 0x2005),
    .nvmeTimeout ⟨2500, 0, 1, 5⟩, .interval,
    .completeRq (completionOf 0x2005 0)]

/-- The second command prints its own time. -/
theorem submission_cache_exact_tagReused :
    Runs.Each (Traced.step .inserted) Traced.Admits {} tagReused ∧
      Runs.Always (Traced.step .inserted) Traced.Faithful {} tagReused ∧
      (readOf2048 2000 0x2005).timeoutText ⟨2500, 0, 1, 5⟩
        = ("TIMEOUT_EVENT ts_ns=2500 ctrl=0 qid=1 tag=5 opcode=2 nsid=1 flags=0 cdw10=2048 cdw11=0"
          ++ " cdw12=7 cdw13=0 cdw14=0 cdw15=0 elapsed_ns=500").toList :=
  ⟨by decide +kernel,
    submission_cache_exact .inserted tagReused (by decide +kernel),
    by decide +kernel⟩

end Telemetryd
