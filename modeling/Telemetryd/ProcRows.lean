import Mathlib.Algebra.BigOperators.Ring.Finset
import Telemetryd.ProcStats

/-!
# The rows of the process view

What `_to_stat` makes of the raw counters of a process, once nothing is raised:
every counter of a tick is small enough for a float.
-/

namespace Telemetryd

open PyText PyError

/-- A counter that is small enough for a float. -/
def SmallCounter (i : Int) : Prop := ∃ n : Nat, i = n ∧ n < floatLimit

/-- A small counter is a float. -/
theorem SmallCounter.float {i : Int} (h : SmallCounter i) :
    floatOfInt i = .ok (i : ℚ) := by
  obtain ⟨n, rfl, hlt⟩ := h
  exact floatOfInt_natCast hlt

/-- So it can be divided. -/
theorem SmallCounter.div {i : Int} (h : SmallCounter i) {n : Nat} (hn : n ≠ 0) :
    trueDiv i n = .ok ((i : ℚ) / n) := by
  obtain ⟨m, rfl, hlt⟩ := h
  exact trueDiv_natCast hlt hn

/-- The raw counters of a process are small enough for floats. -/
structure RawProc.Small (raw : RawProc) : Prop where
  ops : SmallCounter raw.ops
  read : SmallCounter raw.read
  write : SmallCounter raw.write
  bytes : SmallCounter raw.bytes
  latSum : SmallCounter raw.latSum
  latCnt : 0 ≤ raw.latCnt
  seq : SmallCounter raw.seq
  rand : 0 ≤ raw.rand
  threads : ∀ e ∈ raw.threads.items, SmallCounter e.2.2

/-- The statistics of the threads, once nothing is raised. -/
def threadRows (threads : OrderedDict Int (PyText × Int)) : List ThreadIoStat :=
  (threads.items.insertionSort (fun a b => b.2.2 ≤ a.2.2)).map
    (fun e => { tid := e.1, comm := e.2.1, iops := e.2.2 })

/-- The statistics of `_to_stat`, once nothing is raised. -/
def processRow (ctrlId tgid : Int) (raw : RawProc) : ProcessIoStat :=
  let avgLatUs : ℚ :=
    (if raw.latCnt = 0 then 0 else (raw.latSum : ℚ) / raw.latCnt) / 1000
  let sizes := raw.sizes.items.insertionSort (fun a b => b.2 ≤ a.2)
  { device := "nvme".toList ++ ofInt ctrlId
    pid := tgid
    comm := if raw.comm ≠ [] then raw.comm
      else ((threadRows raw.threads).head?.map ThreadIoStat.comm).getD []
    iops := raw.ops
    readIops := raw.read
    writeIops := raw.write
    bandwidthBps := raw.bytes
    avgLatencyUs := avgLatUs
    ioSizeDominant := (sizes.head?.map Prod.fst).getD 0
    ioSizeHist := sizes
    queues := raw.queues.items.insertionSort (fun a b => a.1 ≤ b.1)
    queueDepthEst := if avgLatUs ≠ 0 then raw.ops * (avgLatUs / 1000000) else 0
    seqRatio := if raw.seq + raw.rand = 0 then none
      else some ((raw.seq : ℚ) / (raw.seq + raw.rand : Int))
    threads := threadRows raw.threads }

/-- The threads of small counters are shown. -/
theorem threadStats_eq_ok {threads : OrderedDict Int (PyText × Int)}
    (h : ∀ e ∈ threads.items, SmallCounter e.2.2) :
    threadStats threads = .ok (threadRows threads) := by
  unfold threadStats threadRows
  refine Fallible.mapM_eq_ok_of_forall fun e he => ?_
  rw [(h e ((List.mem_insertionSort _).mp he)).float]
  rfl

/-- The mean latency of small counters is shown. -/
theorem RawProc.avgLatNs_eq_ok {raw : RawProc} (h : raw.Small) :
    raw.avgLatNs = .ok (if raw.latCnt = 0 then 0
      else (raw.latSum : ℚ) / raw.latCnt) := by
  obtain ⟨n, hn⟩ := Int.eq_ofNat_of_zero_le h.latCnt
  unfold avgLatNs
  by_cases hzero : raw.latCnt = 0
  · rw [if_neg (not_not.mpr hzero), if_pos hzero]
  · rw [if_pos hzero, if_neg hzero, hn,
      h.latSum.div (by rintro rfl; exact hzero hn)]
    rfl

/-- So is the part in sequence. -/
theorem RawProc.seqRatio_eq_ok {raw : RawProc} (h : raw.Small) :
    raw.seqRatio = .ok (if raw.seq + raw.rand = 0 then none
      else some ((raw.seq : ℚ) / (raw.seq + raw.rand : Int))) := by
  obtain ⟨s, hs, -⟩ := h.seq
  obtain ⟨n, hn⟩ :=
    Int.eq_ofNat_of_zero_le (show 0 ≤
    raw.seq + raw.rand by have := h.rand; omega)
  unfold seqRatio
  by_cases hzero : raw.seq + raw.rand = 0
  · simp only [hzero, ne_eq, not_true_eq_false, if_false, if_true]
  · simp only [ne_eq, hzero, not_false_eq_true, if_true, if_false]
    rw [hn, h.seq.div (by rintro rfl; exact hzero hn)]
    rfl

/-- **Small counters give statistics.** -/
theorem toStat_eq_ok {raw : RawProc} (h : raw.Small) (c t : Int) :
    toStat c t raw = .ok (processRow c t raw) := by
  unfold toStat
  rw [raw.avgLatNs_eq_ok h, h.ops.float, raw.seqRatio_eq_ok h,
    threadStats_eq_ok h.threads, h.read.float,
    h.write.float, h.bytes.float]
  rfl

/-! ### All processes -/

/-- The statistics of the controllers that are asked for, once nothing is
raised. -/
def processRows (procs : Procs) (want : Option Int) : List ProcessIoStat :=
  ((procs.items.filter (fun e => decide (want = none ∨ some e.1.1 = want))).map
    (fun e => processRow e.1.1 e.1.2 e.2)).insertionSort (fun a b =>
      b.iops ≤ a.iops)

/-- **Small counters** are shown, without an error. -/
theorem processStats_eq_ok {procs : Procs} (h : ∀ raw ∈ procs.values, raw.Small)
    (want : Option Int) :
    processStats procs want = .ok (processRows procs want) := by
  unfold processStats processRows
  dsimp only
  have hall :=
    Fallible.mapM_eq_ok_of_forall (f := fun e : (Int × Int) × RawProc =>
    toStat e.1.1 e.1.2 e.2)
    (g := fun e => processRow e.1.1 e.1.2 e.2)
    (l := procs.items.filter (fun e =>
      decide (want = none ∨ some e.1.1 = want)))
    fun e he => toStat_eq_ok
      (h e.2 (List.mem_map_of_mem (List.mem_of_mem_filter he))) _ _
  rw [hall]
  rfl

/-- The device of a controller. -/
def ctrlName (c : Int) : PyText := "nvme".toList ++ ofInt c

/-- The rows of one device. -/
def rowsOf (device : PyText) (rows : List ProcessIoStat) : List ProcessIoStat :=
  rows.filter (fun s => decide (s.device = device))

/-- Different controllers have different names. -/
theorem ctrlName_eq_iff {c c' : Int} : ctrlName c = ctrlName c' ↔ c = c' := by
  unfold ctrlName
  rw [List.append_cancel_left_eq]
  exact ofInt_injective.eq_iff

/-- **A column of a controller** is that of its processes. -/
theorem sum_rowsOf {column : ProcessIoStat → ℚ} {field : RawProc → Int}
    (hcolumn : ∀ c t raw, column (processRow c t raw) = field raw)
    (procs : Procs) {want : Option Int} {c : Int}
    (hwant : want = none ∨ want = some c) :
    ((rowsOf (ctrlName c) (processRows procs want)).map column).sum
      = (((procs.items.filter (fun e => decide (e.1.1 = c))).map (fun e =>
        field e.2)).sum : Int) := by
  have hdevice : (fun e : (Int × Int) × RawProc =>
      decide ((processRow e.1.1 e.1.2 e.2).device = ctrlName c)) = fun e =>
        decide (e.1.1 = c) := by
    funext e
    exact decide_eq_decide.mpr ctrlName_eq_iff
  have hchosen :
      (procs.items.filter (fun e =>
      decide (want = none ∨ some e.1.1 = want))).filter
      (fun e => decide (e.1.1 = c)) =
        procs.items.filter (fun e => decide (e.1.1 = c)) := by
    rw [List.filter_filter]
    refine List.filter_congr fun e _ => ?_
    rcases hwant with rfl | rfl
    · simp
    · simp
  have hperm : (rowsOf (ctrlName c) (processRows procs want)).Perm
      ((procs.items.filter (fun e => decide (e.1.1 = c))).map (fun e =>
        processRow e.1.1 e.1.2 e.2)) := by
    refine ((List.perm_insertionSort _ _).filter _).trans ?_
    rw [List.filter_map]
    change List.Perm (List.map _ (List.filter (fun e : (Int × Int) × RawProc =>
      decide ((processRow e.1.1 e.1.2 e.2).device = ctrlName c)) _)) _
    rw [hdevice, hchosen]
  rw [(hperm.map column).sum_eq, List.map_map, Int.cast_list_sum, List.map_map]
  exact congrArg List.sum (List.map_congr_left fun e _ => hcolumn _ _ _)

end Telemetryd
