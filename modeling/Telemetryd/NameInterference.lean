import Mathlib.Data.Fintype.BigOperators
import Telemetryd.HistogramView
import Telemetryd.RenamedLogs

/-!
# Names and numbers

Whether the name of a process can change what is reported of the I/O.  Take two
runs of the collector that differ in the name of one process, and read their
logs at the same point.  If no name of the run has a line boundary or the marker
of a tick in it, the performance of the queues is the same in both, and the
statistics of the processes are the same entries with the same numbers, in
whatever order bpftrace prints them.  A name with a line boundary or a marker is
a part of the line format, and the numbers do change.
-/

namespace Telemetryd

open PyText Utf8 GroupedSums

/-! ### Statistics that differ in names -/

/-- The statistics of a thread without its name. -/
def ThreadIoStat.blank (t : ThreadIoStat) : ThreadIoStat :=
  { t with comm := [] }

/-- The same numbers: nothing differs but the names and the order of the
threads. -/
structure ProcessIoStat.SameNumbers (s s' : ProcessIoStat) : Prop where
  fields : { s with comm := [], threads := [] } =
    { s' with comm := [], threads := [] }
  threads : (s.threads.map ThreadIoStat.blank).Perm
    (s'.threads.map ThreadIoStat.blank)

/-- The lines of the process `q` come in an order that depends on them only. -/
structure PrintOrder.KeepsLinesOf (o : PrintOrder) (q : Int64) : Prop where
  procOps : ∀ (tick : Nat) (l l' : List ((Int64 × Int64 × Comm) × UInt64)),
    l.filter (fun e => decide (e.1.2.1 = q)) =
      l'.filter (fun e => decide (e.1.2.1 = q)) →
      (o.order tick "proc_ops".toList l).filter (fun e => decide (e.1.2.1 = q))
        = (o.order tick "proc_ops".toList l').filter (fun e =>
          decide (e.1.2.1 = q))
  thrOps : ∀ (tick : Nat) (l l' : List ((Int64 × Int64 × Int64 × Comm) × UInt64)),
    l.filter (fun e => decide (e.1.2.1 = q)) =
      l'.filter (fun e => decide (e.1.2.1 = q)) →
      (o.order tick "thr_ops".toList l).filter (fun e => decide (e.1.2.1 = q))
        = (o.order tick "thr_ops".toList l').filter (fun e =>
          decide (e.1.2.1 = q))

theorem PrintOrder.keepsLinesOf_inserted (q : Int64) :
    PrintOrder.inserted.KeepsLinesOf q :=
  ⟨fun _ _ _ h => h, fun _ _ _ h => h⟩

/-- What two runs that differ in the name of `p` report of one process: the same
numbers, and the same names if it is another process, whose lines come in an
order of their own. -/
structure SameButName (o : PrintOrder) (p : Int64) (s s' : ProcessIoStat) :
    Prop where
  numbers : s.SameNumbers s'
  others : ∀ q : Int64, s.pid = q.toInt → q ≠ p → o.KeepsLinesOf q → s = s'

/-- The elements of two lists can be paired, each with a related one. -/
def PairedBy {α : Type} (R : α → α → Prop) (l l' : List α) : Prop :=
  ∃ pairs : List (α × α), l.Perm (pairs.map Prod.fst) ∧
    l'.Perm (pairs.map Prod.snd) ∧
    ∀ e ∈ pairs, R e.1 e.2

/-- Both reads fail in the same way, or both give the same entries. -/
inductive SameAnswer (o : PrintOrder) (p : Int64) :
    Except PyError (List ProcessIoStat) → Except PyError (List ProcessIoStat) →
      Prop
  | error (e : PyError) : SameAnswer o p (.error e) (.error e)
  | entries {rows rows' : List ProcessIoStat}
      (h : PairedBy (SameButName o p) rows rows') :
      SameAnswer o p (.ok rows) (.ok rows')

theorem SameButName.refl (o : PrintOrder) (p : Int64) (s : ProcessIoStat) :
    SameButName o p s s :=
  ⟨⟨rfl, List.Perm.refl _⟩, fun _ _ _ _ => rfl⟩

theorem SameAnswer.refl (o : PrintOrder) (p : Int64)
    (r : Except PyError (List ProcessIoStat)) :
    SameAnswer o p r r := by
  cases r with
  | error e => exact .error e
  | ok rows =>
      refine .entries ⟨rows.map fun s => (s, s), ?_, ?_, fun e he => ?_⟩
      · rw [List.map_map]
        exact .of_eq (List.map_id rows).symm
      · rw [List.map_map]
        exact .of_eq (List.map_id rows).symm
      · obtain ⟨s, -, rfl⟩ := List.mem_map.mp he
        exact .refl o p s

/-! ### Few names -/

/-- A name by its fifteen places. -/
def Comm.places (x : Comm) : Fin 15 → Option (Fin 256) :=
  fun i => x.bytes[i.val]?.map UInt8.toFin

/-- A name is given by its places. -/
theorem Comm.places_injective : Function.Injective Comm.places := by
  intro x y h
  have hbytes : x.bytes = y.bytes := by
    refine List.ext_getElem? fun i => ?_
    by_cases hi : i < 15
    · have hplace := congrFun h ⟨i, hi⟩
      exact Option.map_injective (fun _ _ heq => UInt8.toFin_inj.mp heq) hplace
    · have hx := x.length_le
      have hy := y.length_le
      rw [List.getElem?_eq_none (by omega), List.getElem?_eq_none (by omega)]
  cases x
  cases y
  exact Comm.mk.injEq .. ▸ hbytes

/-- A word by its number. -/
def wordPlace (i : Int64) : Fin (2 ^ 64) := i.toBitVec.toFin

theorem wordPlace_injective : Function.Injective wordPlace :=
  fun _ _ h => Int64.toBitVec_inj.mp (BitVec.toFin_inj.mp h)

/-- Whatever is summed over the entries of a map is small, if its keys are
few. -/
theorem smallCounter_groupSum {κ γ β : Type} [DecidableEq γ] [Fintype β]
    {code : κ → β}
    (hcode : Function.Injective code)
    (hcard : Fintype.card β * 2 ^ 64 < floatLimit)
    {l : List (κ × UInt64)} (hl : (l.map Prod.fst).Nodup) (key : κ × UInt64 → γ)
    (k : γ) :
    SmallCounter (groupSum key (fun e => (e.2.toNat : Int)) l k) := by
  have hlength : l.length ≤ Fintype.card β := by
    have hle := (hl.map hcode).length_le_card
    rwa [List.length_map, List.length_map] at hle
  have hsum : groupSum key (fun e => e.2.toNat) l k ≤ l.length * 2 ^ 64 :=
    groupSum_le_length (fun e => Nat.le_of_lt e.2.toNat_lt) l k
  refine ⟨_, groupSum_natCast _ _ _ _, Nat.lt_of_le_of_lt hsum ?_⟩
  exact Nat.lt_of_le_of_lt (Nat.mul_le_mul_right _ hlength) hcard

/-- The commands of a process, under all its names. -/
theorem Maps.smallCounter_opsOf (m : Maps) (c q : Int64) :
    SmallCounter (m.opsOf c q) := by
  have hcode : Function.Injective
      fun k : Int64 × Int64 × Comm =>
        (wordPlace k.1, wordPlace k.2.1, k.2.2.places) := by
    intro k k' h
    obtain ⟨h1, h⟩ := Prod.mk.inj h
    obtain ⟨h2, h3⟩ := Prod.mk.inj h
    exact Prod.ext (wordPlace_injective h1)
      (Prod.ext (wordPlace_injective h2) (Comm.places_injective h3))
  refine smallCounter_groupSum hcode ?_ m.procOps.nodup _ _
  simp only [Fintype.card_prod, Fintype.card_fun, Fintype.card_option,
    Fintype.card_fin]
  decide +kernel

/-- The commands of a thread, under all its names. -/
theorem Maps.smallCounter_threadsOf (m : Maps) (c q : Int64) (tid : Int) :
    SmallCounter (groupSum Prod.fst Prod.snd (m.threadsOf c q) tid) := by
  have hcode : Function.Injective fun k : Int64 × Int64 × Int64 × Comm =>
      (wordPlace k.1, wordPlace k.2.1, wordPlace k.2.2.1, k.2.2.2.places) := by
    intro k k' h
    obtain ⟨h1, h⟩ := Prod.mk.inj h
    obtain ⟨h2, h⟩ := Prod.mk.inj h
    obtain ⟨h3, h4⟩ := Prod.mk.inj h
    exact Prod.ext (wordPlace_injective h1) (Prod.ext (wordPlace_injective h2)
      (Prod.ext (wordPlace_injective h3) (Comm.places_injective h4)))
  have hnodup := List.Nodup.sublist (List.Sublist.map Prod.fst
    (List.filter_sublist (l := m.thrOps.items)
      (p := fun e => decide ((e.1.1, e.1.2.1) = (c, q))))) m.thrOps.nodup
  rw [Maps.threadsOf, groupSum_map]
  refine smallCounter_groupSum hcode ?_ hnodup _ _
  simp only [Fintype.card_prod, Fintype.card_fun, Fintype.card_option,
    Fintype.card_fin]
  decide +kernel

/-- Whatever is read of a tick is small enough for floats. -/
theorem Decoded.small {m : Maps} {procs : Procs} (h : Decoded m procs) :
    ∀ raw ∈ procs.values, raw.Small := by
  intro raw hraw
  obtain ⟨c, q, hdecoded⟩ := h.of_mem_values hraw
  exact hdecoded.small_of (m.smallCounter_opsOf c q)
    (m.smallCounter_threadsOf c q)

/-! ### The counters of two ticks -/

theorem renameProc_process (p : Int64) (x : Comm) (k : Int64 × Int64 × Comm) :
    (renameProc p x k).1 = k.1 ∧ (renameProc p x k).2.1 = k.2.1 := by
  unfold renameProc
  split <;> exact ⟨rfl, rfl⟩

theorem renameThr_thread (p : Int64) (x : Comm)
    (k : Int64 × Int64 × Int64 × Comm) :
    (renameThr p x k).1 = k.1 ∧ (renameThr p x k).2.1 = k.2.1 ∧
      (renameThr p x k).2.2.1 = k.2.2.1 := by
  unfold renameThr
  split <;> exact ⟨rfl, rfl, rfl⟩

section

variable {p : Int64} {a b : Comm} {s s' : Collector} (h : SameBut p a b s s')

include h

/-- The process has as many commands in the second run. -/
theorem SameBut.opsOf_eq (c q : Int64) :
    s'.maps.opsOf c q = s.maps.opsOf c q := by
  obtain ⟨procOps, thrOps, rfl, hproc, -⟩ := h
  show groupSum _ _ procOps.items (c, q) = _
  rw [hproc.items, groupSum_map]
  refine congrArg (fun key => groupSum key _ _ _) (funext fun e => ?_)
  obtain ⟨h1, h2⟩ := renameProc_process p b e.1
  exact Prod.ext h1 h2

/-- So have its threads. -/
theorem SameBut.threadsOf_eq (c q : Int64) :
    s'.maps.threadsOf c q = s.maps.threadsOf c q := by
  obtain ⟨procOps, thrOps, rfl, -, hthr⟩ := h
  have hkey : ∀ e : (Int64 × Int64 × Int64 × Comm) × UInt64,
      ((renameThr p b e.1).1, (renameThr p b e.1).2.1) = (e.1.1, e.1.2.1) := by
    intro e
    obtain ⟨h1, h2, -⟩ := renameThr_thread p b e.1
    exact Prod.ext h1 h2
  show (thrOps.items.filter _).map _ = _
  rw [hthr.items, List.filter_map, List.map_map]
  unfold Maps.threadsOf
  refine congrArg₂ List.map (funext fun e => ?_) (List.filter_congr fun e _ =>
    ?_)
  · exact Prod.ext (congrArg Int64.toInt (renameThr_thread p b e.1).2.2) rfl
  · exact decide_eq_decide.mpr (hkey e ▸ Iff.rfl)

/-- The same processes are there. -/
theorem SameBut.hasProcess_iff (c q : Int64) :
    s'.maps.HasProcess c q ↔ s.maps.HasProcess c q := by
  obtain ⟨procOps, thrOps, rfl, hproc, hthr⟩ := h
  have hprocs : (∃ comm, (c, q, comm) ∈ procOps.keys) ↔
      ∃ comm, (c, q, comm) ∈ s.maps.procOps.keys := by
    have hkeys := hproc.map_keys (fun k => (k.1, k.2.1)) fun k =>
      Prod.ext (renameProc_process p b k).1 (renameProc_process p b k).2
    have hmem := congrArg (fun ks => (c, q) ∈ ks) hkeys
    simpa using hmem
  have hthreads : (∃ tid comm, (c, q, tid, comm) ∈ thrOps.keys) ↔
      ∃ tid comm, (c, q, tid, comm) ∈ s.maps.thrOps.keys := by
    have hkeys := hthr.map_keys (fun k => (k.1, k.2.1)) fun k =>
      Prod.ext (renameThr_thread p b k).1 (renameThr_thread p b k).2.1
    have hmem := congrArg (fun ks => (c, q) ∈ ks) hkeys
    simpa using hmem
  unfold Maps.HasProcess
  exact or_congr hprocs
    (or_congr Iff.rfl (or_congr Iff.rfl (or_congr Iff.rfl (or_congr Iff.rfl
    (or_congr Iff.rfl
      (or_congr Iff.rfl (or_congr Iff.rfl (or_congr Iff.rfl (or_congr Iff.rfl
    hthreads)))))))))

/-- What decodes the second tick decodes the first. -/
theorem SameBut.decoded {procs : Procs} (hprocs : Decoded s'.maps procs) :
    Decoded s.maps procs := by
  have hops := h.opsOf_eq
  have hthreads := h.threadsOf_eq
  have hkeys := h.hasProcess_iff
  obtain ⟨procOps, thrOps, rfl, -, -⟩ := h
  refine ⟨fun k => ?_, fun c q raw hget => ?_⟩
  · rw [hprocs.keys]
    simp only [hkeys]
  · have hraw := hprocs.counters c q raw hget
    refine ⟨?_, hraw.bytes, hraw.read, hraw.write, hraw.latSum, hraw.latCnt,
      hraw.seq, hraw.rand,
      hraw.sizes, hraw.queues, ?_⟩
    · rw [hraw.ops, hops]
    · intro tid
      rw [hraw.threads, hthreads]

end

/-! ### The entries of two ticks -/

/-- The same counters, whatever the names are. -/
structure RawProc.SameCounters (raw raw' : RawProc) : Prop where
  ops : raw.ops = raw'.ops
  read : raw.read = raw'.read
  write : raw.write = raw'.write
  bytes : raw.bytes = raw'.bytes
  latSum : raw.latSum = raw'.latSum
  latCnt : raw.latCnt = raw'.latCnt
  seq : raw.seq = raw'.seq
  rand : raw.rand = raw'.rand
  sizes : raw.sizes = raw'.sizes
  queues : raw.queues = raw'.queues
  threads : ∀ tid, raw.opsByThread.get? tid = raw'.opsByThread.get? tid

/-- The threads of an entry, without their names and in any order. -/
theorem blank_threadRows (raw : RawProc) :
    ((threadRows raw.threads).map ThreadIoStat.blank).Perm
      (raw.opsByThread.items.map fun e =>
        { tid := e.1, comm := [], iops := e.2 }) := by
  have hblank : (threadRows raw.threads).map ThreadIoStat.blank
      = (raw.threads.items.insertionSort (fun a b => b.2.2 ≤ a.2.2)).map
        (fun e => { tid := e.1, comm := [], iops := e.2.2 }) := List.map_map
  have hitems : raw.opsByThread.items = raw.threads.items.map fun e =>
    (e.1, e.2.2) := rfl
  rw [hblank, hitems, List.map_map]
  exact (List.perm_insertionSort _ _).map _

/-- **The same counters give the same numbers.** -/
theorem RawProc.SameCounters.sameNumbers {raw raw' : RawProc}
    (h : raw.SameCounters raw') (c t : Int) :
    (processRow c t raw).SameNumbers (processRow c t raw') := by
  constructor
  · simp only [processRow, h.ops, h.read, h.write, h.bytes, h.latSum, h.latCnt,
      h.seq, h.rand,
      h.sizes, h.queues]
  · have hperm := OrderedDict.perm_items_of_get? h.threads
    exact (blank_threadRows raw).trans
      ((hperm.map _).trans (blank_threadRows raw').symm)

/-- What is read of a tick. -/
def tickProcs (o : PrintOrder) (m : Maps) : Procs :=
  Procs.updateAll .empty (processChanges o m)

/-- An entry is what its changes make of an empty one. -/
theorem get?_tickProcs {o : PrintOrder} {m : Maps} {k : Int × Int}
    {raw : RawProc}
    (h : (tickProcs o m).get? k = some raw) :
    raw = RawProc.applyAll {} (changesOf k (processChanges o m)) := by
  unfold tickProcs at h
  rw [get?_updateAll] at h
  split at h
  · exact (Option.some.inj h).symm
  · exact absurd h (by simp)

/-- The sizes of an entry. -/
theorem sizes_tickProcs {o : PrintOrder} {m : Maps} {k : Int × Int}
    {raw : RawProc}
    (h : (tickProcs o m).get? k = some raw) :
    raw.sizes = (selected Change.sizeOf k
      (bucketChanges o m.tick "proc_bs".toList m.procBs)).foldl
      bump .empty := by
  rw [get?_tickProcs h,
    RawProc.field_applyAll bump RawProc.sizes_apply, ← selected_sizeOf]
  rfl

/-- The queues of an entry. -/
theorem queues_tickProcs {o : PrintOrder} {m : Maps} {k : Int × Int}
    {raw : RawProc}
    (h : (tickProcs o m).get? k = some raw) :
    raw.queues =
      (selected Change.queueOf k
      (bucketChanges o m.tick "proc_q".toList m.procQ)).foldl
      bump .empty := by
  rw [get?_tickProcs h,
    RawProc.field_applyAll bump RawProc.queues_apply, ← selected_queueOf]
  rfl

theorem changesOf_append (k : Int × Int) (l l' : List ((Int × Int) × Change)) :
    changesOf k (l ++ l') = changesOf k l ++ changesOf k l' := by
  simp [changesOf]

/-- The lines of one process, of those of all. -/
theorem changesOf_map {α : Type} (ctrl pid : α → Int64) (change : α → Change)
    (c q : Int64)
    (l : List α) :
    changesOf (pairOf c q) (l.map fun e => (pairOf (ctrl e) (pid e), change e))
      = ((l.filter fun e => decide (pid e = q)).filter fun e =>
        decide (ctrl e = c)).map change := by
  unfold changesOf
  rw [List.filter_map, List.map_map, List.filter_filter]
  refine congrArg (List.map _) (List.filter_congr fun e _ => ?_)
  rw [← Bool.decide_and]
  refine decide_eq_decide.mpr (pairOf_eq_iff.trans ?_)
  rw [Prod.mk.injEq]

/-- The entries of a process that keeps its name. -/
theorem Renamed.filter_eq {κ : Type} {f g : κ → κ} {m m' : Counters κ}
    (h : Renamed f g m m')
    (pid : κ → Int64) {p q : Int64} (hpid : ∀ k, pid (f k) = pid k)
    (hkeep : ∀ k, pid k ≠ p → f k = k) (hq : q ≠ p) :
    m.items.filter (fun e => decide (pid e.1 = q)) =
      m'.items.filter (fun e => decide (pid e.1 = q)) := by
  have hsame : (fun e : κ × UInt64 => decide (pid (Prod.map f id e).1 = q))
      = fun e => decide (pid e.1 = q) :=
    funext fun e => decide_eq_decide.mpr (by rw [Prod.map_fst, hpid])
  rw [h.items, List.filter_map]
  show _ = List.map _ (List.filter (fun e : κ × UInt64 =>
    decide (pid (Prod.map f id e).1 = q)) _)
  rw [hsame]
  refine (List.map_id _).symm.trans (List.map_congr_left fun e he => ?_)
  have hpq : pid e.1 = q := of_decide_eq_true (List.mem_filter.mp he).2
  exact Prod.ext (hkeep e.1 (hpq ▸ hq)).symm rfl

section

variable (o : PrintOrder) {p : Int64} {a b : Comm} {s s' : Collector}
    (h : SameBut p a b s s')

include h

/-- The entries of a process have the same counters. -/
theorem SameBut.sameCounters {c q : Int64} {raw raw' : RawProc}
    (hraw : (tickProcs o s.maps).get? (pairOf c q) = some raw)
    (hraw' : (tickProcs o s'.maps).get? (pairOf c q) = some raw') :
    raw.SameCounters raw' := by
  have hd := (decoded_updateAll o s.maps).counters c q raw hraw
  have hd' := (h.decoded (decoded_updateAll o s'.maps)).counters c q raw' hraw'
  have hsizes := sizes_tickProcs hraw'
  have hqueues := queues_tickProcs hraw'
  obtain ⟨procOps, thrOps, rfl, -, -⟩ := h
  exact {
    ops := hd.ops.trans hd'.ops.symm
    read := hd.read.trans hd'.read.symm
    write := hd.write.trans hd'.write.symm
    bytes := hd.bytes.trans hd'.bytes.symm
    latSum := hd.latSum.trans hd'.latSum.symm
    latCnt := hd.latCnt.trans hd'.latCnt.symm
    seq := hd.seq.trans hd'.seq.symm
    rand := hd.rand.trans hd'.rand.symm
    sizes := (sizes_tickProcs hraw).trans hsizes.symm
    queues := (queues_tickProcs hraw).trans hqueues.symm
    threads := fun tid => (hd.threads tid).trans (hd'.threads tid).symm }

/-- Another process has the same lines, if they come in an order of their
own. -/
theorem SameBut.changesOf_eq (c : Int64) {q : Int64} (hq : q ≠ p)
    (hkeeps : o.KeepsLinesOf q) :
    changesOf (pairOf c q) (processChanges o s.maps)
      = changesOf (pairOf c q) (processChanges o s'.maps) := by
  obtain ⟨procOps, thrOps, rfl, hproc, hthr⟩ := h
  have hops : changesOf (pairOf c q) (opsChanges o s.maps.tick s.maps.procOps)
      = changesOf (pairOf c q) (opsChanges o s.maps.tick procOps) := by
    have hlines :=
      hkeeps.procOps s.maps.tick _ _ (hproc.filter_eq (fun k => k.2.1)
      (fun k => (renameProc_process p b k).2) (fun k hk => if_neg hk) hq)
    have hmap :=
      changesOf_map (fun e : (Int64 × Int64 × Comm) × UInt64 => e.1.1)
      (fun e => e.1.2.1) (fun e => .ops (decode e.1.2.2.bytes) e.2.toNat) c q
    unfold opsChanges
    rw [hmap, hmap, hlines]
  have hthreads :
      changesOf (pairOf c q) (threadChanges o s.maps.tick s.maps.thrOps)
      = changesOf (pairOf c q) (threadChanges o s.maps.tick thrOps) := by
    have hlines :=
      hkeeps.thrOps s.maps.tick _ _ (hthr.filter_eq (fun k => k.2.1)
      (fun k => (renameThr_thread p b k).2.1) (fun k hk => if_neg hk) hq)
    have hmap :=
      changesOf_map (fun e : (Int64 × Int64 × Int64 × Comm) × UInt64 => e.1.1)
      (fun e => e.1.2.1) (fun e =>
        .thread e.1.2.2.1.toInt (decode e.1.2.2.2.bytes) e.2.toNat) c q
    unfold threadChanges
    rw [hmap, hmap, hlines]
  unfold processChanges
  simp only [changesOf_append]
  rw [hops, hthreads]
  rfl

/-- The performance of the queues does not depend on the names. -/
theorem SameBut.parsed_eq :
    (⟨tickScalars o s.maps, tickHists o s.maps⟩ : Parsed)
      = ⟨tickScalars o s'.maps, tickHists o s'.maps⟩ := by
  obtain ⟨procOps, thrOps, rfl, -, -⟩ := h
  rfl

/-- **The same entries**, in any order. -/
theorem SameBut.pairedBy (want : Option Int) :
    PairedBy (SameButName o p) (processRows (tickProcs o s.maps) want)
      (processRows (tickProcs o s'.maps) want) := by
  set procs := tickProcs o s.maps with hprocs
  set procs' := tickProcs o s'.maps with hprocs'
  have hkeys : ∀ k, k ∈ procs.keys ↔ k ∈ procs'.keys := fun k =>
    ((decoded_updateAll o s.maps).keys k).trans
      ((h.decoded (decoded_updateAll o s'.maps)).keys k).symm
  set wantIt := fun e : (Int × Int) × RawProc =>
    decide (want = none ∨ some e.1.1 = want)
  have hitems := OrderedDict.perm_items_of_keys hkeys {}
  refine ⟨(procs.items.filter wantIt).map fun e => (processRow e.1.1 e.1.2 e.2,
    processRow e.1.1 e.1.2 ((procs'.get? e.1).getD {})), ?_, ?_, ?_⟩
  · rw [List.map_map]
    exact List.perm_insertionSort _ _
  · refine (List.perm_insertionSort _ _).trans
      (((hitems.filter wantIt).map _).trans ?_)
    rw [List.filter_map, List.map_map, List.map_map]
    exact List.Perm.refl _
  · intro e he
    obtain ⟨⟨k, raw⟩, hmem, rfl⟩ := List.mem_map.mp he
    have hget : procs.get? k = some raw :=
      OrderedDict.get?_eq_some_iff.mpr (List.mem_filter.mp hmem).1
    obtain ⟨c, q, rfl, -⟩ :=
      ((decoded_updateAll o s.maps).keys k).mp
        (OrderedDict.mem_keys_iff.mpr ⟨raw, hget⟩)
    obtain ⟨raw', hget'⟩ := OrderedDict.mem_keys_iff.mp
      ((hkeys _).mp (OrderedDict.mem_keys_iff.mpr ⟨raw, hget⟩))
    dsimp only
    rw [hget', Option.getD_some]
    refine ⟨(h.sameCounters o hget hget').sameNumbers _ _,
      fun r hr hrp hkeeps => ?_⟩
    have hrq : q = r := Int64.toInt_inj.mp hr
    subst hrq
    rw [get?_tickProcs hget, get?_tickProcs hget',
      h.changesOf_eq o c hrp hkeeps]

end

/-! ### Two runs, read at the same point -/

section

variable [UnicodeDb] (o : PrintOrder)

/-- Logs that are parsed alike show the same performance. -/
theorem readLatestPerformance_congr {log log' : Bytes}
    (h : parseLastCompleteTick (readAll (some log)) =
      parseLastCompleteTick (readAll (some log')))
    (c : Int) : readLatestPerformance (some log) c =
      readLatestPerformance (some log') c := by
  unfold readLatestPerformance
  rw [if_neg (by simp), if_neg (by simp), h]

/-- Without a complete tick nothing is read. -/
theorem KilledRun.reads_nothing {r : KilledRun} (hr : r.Harmless)
    (hnone : ¬ tickMarker <:+: decode (r.bytes o)) :
    (∀ c, readLatestPerformance (some (r.bytes o)) c = performanceOf [] c) ∧
      (InTail procTailBytes (r.bytes o) → ∀ device,
        readProcessStats (some (r.bytes o)) device =
          processStatsOf [] device) := by
  have hlast := lastComplete_no_marker hnone
  refine ⟨fun c => ?_, fun hin device => ?_⟩
  · rw [readLatestPerformance_some, KilledRun.readAll_bytes o hr, hlast]
    rfl
  · rw [readProcessStats_eq, lastComplete_readTail hin, hlast]
    rfl

/-- The statistics of the last tick, if the tail reaches back to it. -/
theorem KilledRun.LastTick.readProcessStats_eq {r : KilledRun} (hr : r.Harmless)
    {before : List Probe} {rest : Bytes} (hlast : r.LastTick o before rest)
    (hin : InTail procTailBytes (r.bytes o)) (device : Option PyText) :
    readProcessStats (some (r.bytes o)) device = wanted device >>= fun want =>
      match want with
      | none => .ok []
      | some want =>
          .ok (processRows (tickProcs o (Collector.run o {} before).maps)
            want) := by
  obtain ⟨tick, htick, -, hparse⟩ := hlast.parses o hr (Nat.zero_le _)
  rw [List.drop_zero] at htick
  have hsmall := (decoded_updateAll o (Collector.run o {} before).maps).small
  unfold readProcessStats
  rw [lastComplete_readTail hin, htick, Option.getD_some, hparse]
  show (wanted device >>= _) = _
  refine congrArg (wanted device >>= ·) (funext fun want => ?_)
  cases want with
  | none => rfl
  | some want => exact processStats_eq_ok hsmall want

variable {p : Int64} {a b : Comm} (ha : a.Harmless) (hb : b.Harmless)

include ha hb

/-- **Names do not interfere.**  Two runs that differ in the name of the
process `p`, read at the same point, none of whose names is a part of the line
format. -/
theorem names_do_not_interfere {probes : List Probe}
    (hprobes : ∀ q ∈ probes, q.HarmlessBut p)
    (k j : Nat) :
    let log := cutLog (runOutput o (probes.map (Probe.rename p a))) k j
    let log' := cutLog (runOutput o (probes.map (Probe.rename p b))) k j
    (∀ c, readLatestPerformance (some log) c =
      readLatestPerformance (some log') c) ∧
      (InTail procTailBytes log → InTail procTailBytes log' → ∀ device,
        SameAnswer o p (readProcessStats (some log) device)
          (readProcessStats (some log') device)) := by
  intro log log'
  have hr : (cutRun o (probes.map (Probe.rename p a)) k j).Harmless :=
    List.forall_mem_map.mpr fun q hq => harmless_rename ha (hprobes q hq)
  have hr' : (cutRun o (probes.map (Probe.rename p b)) k j).Harmless :=
    List.forall_mem_map.mpr fun q hq => harmless_rename hb (hprobes q hq)
  have hlog := bytes_cutRun o (probes.map (Probe.rename p a)) k j
  have hlog' := bytes_cutRun o (probes.map (Probe.rename p b)) k j
  rcases sameTick_runs o ha hb hprobes k j with ⟨hnone, hnone'⟩ | ⟨before,
    ⟨rest, hlast⟩, rest', hlast'⟩
  · obtain ⟨hperf, hprocs⟩ := KilledRun.reads_nothing o hr hnone
    obtain ⟨hperf', hprocs'⟩ := KilledRun.reads_nothing o hr' hnone'
    rw [hlog] at hperf hprocs
    rw [hlog'] at hperf' hprocs'
    refine ⟨fun c => (hperf c).trans (hperf' c).symm, fun hin hin' device => ?_⟩
    rw [hprocs hin, hprocs' hin']
    exact .refl o p _
  · have hsame := sameBut_run o (sameBut_initial p a b) before
    have hparse := hlast.parse_hists o hr
    have hparse' := hlast'.parse_hists o hr'
    have hrows := hlast.readProcessStats_eq o hr
    have hrows' := hlast'.readProcessStats_eq o hr'
    rw [hlog] at hparse hrows
    rw [hlog'] at hparse' hrows'
    refine ⟨fun c => ?_, fun hin hin' device => ?_⟩
    · rw [← hsame.parsed_eq o] at hparse'
      exact readLatestPerformance_congr (hparse.trans hparse'.symm) c
    · rw [hrows hin, hrows' hin']
      cases wanted device with
      | error e => exact .error e
      | ok want =>
          cases want with
          | none => exact .refl o p (.ok [])
          | some want => exact .entries (hsame.pairedBy o want)

end

/-! ### A process with two names -/

section

attribute [local instance] UnicodeDb.ascii

/-- A name that is a line feed. -/
def nameLineFeed : Comm := ⟨[10], by decide, by decide⟩

/-- The log of a flush, once the tick is complete. -/
def oneFlushLog (x : Comm) : Bytes :=
  cutLog (runOutput .inserted (oneFlush.map (Probe.rename 7 x))) 5 0

/-- A name with a blank in it. -/
def nameBlank : Comm := ⟨[97, 32, 98], by decide, by decide⟩

theorem names_do_not_interfere_oneFlush :
    (∀ c, readLatestPerformance (some (oneFlushLog nameX)) c
        = readLatestPerformance (some (oneFlushLog nameBlank)) c) ∧
      (∀ device, SameAnswer .inserted 7
        (readProcessStats (some (oneFlushLog nameX)) device)
        (readProcessStats (some (oneFlushLog nameBlank)) device)) ∧
      ∀ q, PrintOrder.inserted.KeepsLinesOf q := by
  have hx : nameX.Harmless := ⟨by decide, by decide⟩
  have hblank : nameBlank.Harmless := ⟨by decide, by decide⟩
  have hprobes : ∀ q ∈ oneFlush, q.HarmlessBut 7 := by
    intro q hq
    simp only [oneFlush, List.mem_cons, List.not_mem_nil, or_false] at hq
    rcases hq with rfl | rfl
    · exact fun hne => absurd rfl hne
    · trivial
  have hlog : InTail procTailBytes (oneFlushLog nameX) := Or.inl (by decide)
  have hlog' : InTail procTailBytes (oneFlushLog nameBlank) :=
    Or.inl (by decide)
  obtain ⟨hperf, hprocs⟩ :=
    names_do_not_interfere .inserted (p := 7) hx hblank hprobes 5 0
  exact ⟨hperf, hprocs hlog hlog', PrintOrder.keepsLinesOf_inserted⟩

/-- With a line feed for its name the process has no I/O. -/
theorem lineFeed_name_hides_iops :
    ¬ SameAnswer .inserted 7 (readProcessStats (some (oneFlushLog nameX)) none)
      (readProcessStats (some (oneFlushLog nameLineFeed)) none) := by
  intro h
  have hiops : ∀ r r' : Except PyError (List ProcessIoStat),
      SameAnswer .inserted 7 r r' →
      (r.toOption.map fun rows => (rows.map ProcessIoStat.iops).sum)
        = r'.toOption.map fun rows => (rows.map ProcessIoStat.iops).sum := by
    intro r r' hrr
    cases hrr with
    | error e => rfl
    | @entries rows rows' hpaired =>
        obtain ⟨pairs, hfst, hsnd, hboth⟩ := hpaired
        refine congrArg some ?_
        show (rows.map ProcessIoStat.iops).sum =
          (rows'.map ProcessIoStat.iops).sum
        rw [(hfst.map _).sum_eq, (hsnd.map _).sum_eq, List.map_map,
          List.map_map]
        refine congrArg List.sum (List.map_congr_left fun e he => ?_)
        have hiops := congrArg ProcessIoStat.iops (hboth e he).numbers.fields
        exact hiops
  exact absurd (hiops _ _ h) (by decide +kernel)

end

end Telemetryd
