import Telemetryd.PerfHist
import Telemetryd.ProcLines

/-!
# A tick of the process maps

What the collector prints of its process maps is read back: the parser finds
exactly the processes that are in one of the maps, each with the counters the
maps have, whatever other lines stand between theirs, whatever ticks come
before and however much of the next one has been written.
-/

namespace Telemetryd

open PyText Utf8 GroupedSums

section

variable (o : PrintOrder) (tick : Nat)

/-- The lines of the process maps, in the order of a tick. -/
def processLines (m : Maps) : List PrintedLine :=
  printProcOps o m.tick m.procOps ++
    (print2 o m.tick "proc_bytes".toList m.procBytes ++
    (print2 o m.tick "proc_rd".toList m.procRd ++
      (print2 o m.tick "proc_wr".toList m.procWr ++
    (print3 o m.tick "proc_bs".toList m.procBs ++
      (print3 o m.tick "proc_q".toList m.procQ ++
    (print2 o m.tick "proc_lat_sum".toList m.procLatSum ++
      (print2 o m.tick "proc_lat_cnt".toList m.procLatCnt ++
    (print2 o m.tick "proc_seq".toList m.procSeq ++
      (print2 o m.tick "proc_rand".toList m.procRand ++
    printThrOps o m.tick m.thrOps)))))))))

/-! ### The changes of a tick -/

/-- The process of two keys. -/
def pairOf (c p : Int64) : Int × Int := (c.toInt, p.toInt)

/-- The changes that the lines of the commands by process make. -/
def opsChanges (m : Counters (Int64 × Int64 × Comm)) :
    List ((Int × Int) × Change) :=
  (o.order tick "proc_ops".toList m.items).map
    (fun e => (pairOf e.1.1 e.1.2.1, .ops (decode e.1.2.2.bytes) e.2.toNat))

/-- The changes that the lines of a counter make. -/
def counterChanges (name : PyText) (m : Counters Key2) :
    List ((Int × Int) × Change) :=
  (o.order tick name m.items).map (fun e =>
    (pairOf e.1.1 e.1.2, .counter name e.2.toNat))

/-- The changes that the lines of a table make. -/
def bucketChanges (name : PyText) (m : Counters Key3) :
    List ((Int × Int) × Change) :=
  (o.order tick name m.items).map (fun e =>
    (pairOf e.1.1 e.1.2.1, .bucket name e.1.2.2.toInt e.2.toNat))

/-- The changes that the lines of the commands by thread make. -/
def threadChanges (m : Counters (Int64 × Int64 × Int64 × Comm)) :
    List ((Int × Int) × Change) :=
  (o.order tick "thr_ops".toList m.items).map (fun e =>
    (pairOf e.1.1 e.1.2.1,
      .thread e.1.2.2.1.toInt (decode e.1.2.2.2.bytes) e.2.toNat))

/-- The changes of the lines of a tick. -/
def processChanges (m : Maps) : List ((Int × Int) × Change) :=
  opsChanges o m.tick m.procOps ++
    (counterChanges o m.tick "proc_bytes".toList m.procBytes ++
    (counterChanges o m.tick "proc_rd".toList m.procRd ++
      (counterChanges o m.tick "proc_wr".toList m.procWr ++
    (bucketChanges o m.tick "proc_bs".toList m.procBs ++
      (bucketChanges o m.tick "proc_q".toList m.procQ ++
    (counterChanges o m.tick "proc_lat_sum".toList m.procLatSum ++
    (counterChanges o m.tick "proc_lat_cnt".toList m.procLatCnt ++
    (counterChanges o m.tick "proc_seq".toList m.procSeq ++
      (counterChanges o m.tick "proc_rand".toList m.procRand ++
    threadChanges o m.tick m.thrOps)))))))))

end

/-- The names of the processes are no part of the format. -/
def Maps.NamesHarmless (m : Maps) : Prop :=
  (∀ k ∈ m.procOps.keys, k.2.2.Harmless) ∧ ∀ k ∈ m.thrOps.keys, k.2.2.2.Harmless

/-- A printed entry is one of the map. -/
theorem mem_keys_of_order {κ ν : Type} (o : PrintOrder) {tick : Nat}
    {name : PyText}
    (d : OrderedDict κ ν) {e : κ × ν} (he : e ∈ o.order tick name d.items) :
    e.1 ∈ d.keys :=
  List.mem_map_of_mem ((o.perm tick name d.items).mem_iff.mp he)

/-- A harmless name has no line feed. -/
theorem Comm.Harmless.no_newline {comm : Comm} (h : comm.Harmless) :
    '\n' ∉ decode comm.bytes := by
  intro hmem
  exact absurd (h.1 _ hmem) (by decide)

section

variable [UnicodeDb]

/-- Some lines are read as some changes. -/
def ReadsAs (lines : List PyText) (changes : List ((Int × Int) × Change)) :
    Prop :=
  ∀ procs : Procs, lines.foldlM Procs.parseLine procs =
    .ok (procs.updateAll changes)

/-- Two pieces in a row are read as the changes of each. -/
theorem ReadsAs.append {l l' : List PyText}
    {ch ch' : List ((Int × Int) × Change)}
    (h : ReadsAs l ch) (h' : ReadsAs l' ch') :
    ReadsAs (l ++ l') (ch ++ ch') := by
  intro procs
  rw [List.foldlM_append, h procs]
  exact (h' _).trans (congrArg Except.ok List.foldl_append.symm)

/-- Lines that are read one by one. -/
theorem readsAs_map {α : Type} {l : List α} {line : α → PyText}
    {change : α → (Int × Int) × Change}
    (h : ∀ a ∈ l, ∀ procs : Procs, procs.parseLine (line a)
      = .ok (procs.update (change a).1 (change a).2.apply)) :
    ReadsAs (l.map line) (l.map change) := by
  induction l with
  | nil => exact fun procs => rfl
  | cons a l ih =>
      intro procs
      rw [List.map_cons, List.foldlM_cons, h a List.mem_cons_self]
      exact ih (fun b hb => h b (List.mem_cons_of_mem _ hb)) _

/-- Only the lines about processes change the table. -/
theorem foldlM_filter_isProcLine (l : List PyText) (procs : Procs) :
    l.foldlM Procs.parseLine procs
      = (l.filter (fun t => decide (IsProcLine t))).foldlM Procs.parseLine
        procs := by
  induction l generalizing procs with
  | nil => rfl
  | cons t l ih =>
      by_cases ht : IsProcLine t
      · rw [List.filter_cons_of_pos (by simpa using ht), List.foldlM_cons,
          List.foldlM_cons]
        cases procs.parseLine t with
        | error e => rfl
        | ok procs' => exact ih procs'
      · rw [List.filter_cons_of_neg (by simpa using ht), List.foldlM_cons,
          parseLine_of_not_isProcLine ht]
        exact ih procs

/-- Lines of another kind may stand anywhere. -/
theorem ReadsAs.of_filter {l : List PyText} {ch : List ((Int × Int) × Change)}
    (h : ReadsAs (l.filter (fun t => decide (IsProcLine t))) ch) :
    ReadsAs l ch :=
  fun procs => (foldlM_filter_isProcLine l procs).trans (h procs)

variable (o : PrintOrder) {tick : Nat}

/-- The lines of a counter are read as its changes. -/
theorem readsAs_print2 {name : PyText} (hname : name ∈ twoKeyNames)
    (m : Counters Key2) :
    ReadsAs ((print2 o tick name m).map PrintedLine.text)
      (counterChanges o tick name m) := by
  unfold print2 counterChanges
  rw [List.map_map]
  exact readsAs_map fun e _ procs =>
    parseLine_twoKey hname e.1.1 e.1.2 e.2 procs

/-- So are those of a table. -/
theorem readsAs_print3 {name : PyText} (hname : name ∈ threeKeyNames)
    (m : Counters Key3) :
    ReadsAs ((print3 o tick name m).map PrintedLine.text)
      (bucketChanges o tick name m) := by
  unfold print3 bucketChanges
  rw [List.map_map]
  exact readsAs_map fun e _ procs =>
    parseLine_threeKey hname e.1.1 e.1.2.1 e.1.2.2 e.2 procs

/-- So are the commands by process, if the names are harmless. -/
theorem readsAs_printProcOps {m : Counters (Int64 × Int64 × Comm)}
    (h : ∀ k ∈ m.keys, k.2.2.Harmless) :
    ReadsAs ((printProcOps o tick m).map PrintedLine.text)
      (opsChanges o tick m) := by
  unfold printProcOps opsChanges
  rw [List.map_map]
  exact readsAs_map fun e he procs =>
    parseLine_procOps (h _ (mem_keys_of_order o m he)).no_newline procs _ _ _

/-- So are the commands by thread. -/
theorem readsAs_printThrOps {m : Counters (Int64 × Int64 × Int64 × Comm)}
    (h : ∀ k ∈ m.keys, k.2.2.2.Harmless) :
    ReadsAs ((printThrOps o tick m).map PrintedLine.text)
      (threadChanges o tick m) := by
  unfold printThrOps threadChanges
  rw [List.map_map]
  exact readsAs_map fun e he procs =>
    parseLine_thrOps (h _ (mem_keys_of_order o m he)).no_newline procs _ _ _ _

/-- **The process maps are read line by line.** -/
theorem readsAs_processLines {m : Maps} (h : m.NamesHarmless) :
    ReadsAs ((processLines o m).map PrintedLine.text) (processChanges o m) := by
  unfold processLines processChanges
  simp only [List.map_append]
  refine (readsAs_printProcOps o h.1).append ?_
  refine (readsAs_print2 o (by decide) _).append ?_
  refine (readsAs_print2 o (by decide) _).append ?_
  refine (readsAs_print2 o (by decide) _).append ?_
  refine (readsAs_print3 o (by decide) _).append ?_
  refine (readsAs_print3 o (by decide) _).append ?_
  refine (readsAs_print2 o (by decide) _).append ?_
  refine (readsAs_print2 o (by decide) _).append ?_
  refine (readsAs_print2 o (by decide) _).append ?_
  refine (readsAs_print2 o (by decide) _).append ?_
  exact readsAs_printThrOps o h.2

end

/-! ### Counters as sums -/

/-- Some changes of one process, one after the other. -/
def RawProc.applyAll (raw : RawProc) (changes : List Change) : RawProc :=
  changes.foldl (fun raw ch => ch.apply raw) raw

/-- The changes of one process. -/
def changesOf (k : Int × Int) (changes : List ((Int × Int) × Change)) :
    List Change :=
  (changes.filter (fun ch => decide (ch.1 = k))).map Prod.snd

/-- **Each process gets its own changes.** -/
theorem get?_updateAll (procs : Procs) (changes : List ((Int × Int) × Change))
    (k : Int × Int) :
    (procs.updateAll changes).get? k = if k ∈ changes.map Prod.fst then
        some (((procs.get? k).getD {}).applyAll (changesOf k changes))
          else procs.get? k := by
  induction changes generalizing procs with
  | nil => rfl
  | cons ch changes ih =>
      have hstep :
          procs.updateAll (ch :: changes) =
          (procs.update ch.1 ch.2.apply).updateAll changes :=
        rfl
      rw [hstep, ih]
      unfold Procs.update
      rw [OrderedDict.get?_insert]
      by_cases hk : k = ch.1
      · subst hk
        have hchanges :
            changesOf ch.1 (ch :: changes) =
            ch.2 :: changesOf ch.1 changes := by
          simp [changesOf]
        have hnil : ch.1 ∉ changes.map Prod.fst →
            changesOf ch.1 changes = [] := by
          intro hno
          unfold changesOf
          rw [List.filter_eq_nil_iff.mpr, List.map_nil]
          intro d hd heq
          exact hno (of_decide_eq_true heq ▸ List.mem_map_of_mem hd)
        rw [hchanges, List.map_cons, if_pos List.mem_cons_self]
        by_cases hmem : ch.1 ∈ changes.map Prod.fst
        · rw [if_pos hmem, if_pos rfl]
          rfl
        · rw [if_neg hmem, if_pos rfl, hnil hmem]
          rfl
      · have hchanges : changesOf k (ch :: changes) = changesOf k changes := by
          unfold changesOf
          rw [List.filter_cons_of_neg (by simpa using fun h => hk h.symm)]
        rw [hchanges, if_neg hk, List.map_cons]
        simp only [List.mem_cons, hk, false_or]

namespace Change

/-- What a change adds to the counter of commands. -/
def opsOf : Change → Option Int
  | ops _ n => some n
  | _ => none

/-- What a change adds to the counter of a map with two keys. -/
def counterOf (name : PyText) : Change → Option Int
  | counter n v => if n = name then some v else none
  | _ => none

/-- What a change adds to the table of sizes. -/
def sizeOf : Change → Option (Int × Int)
  | bucket n k v => if n = "proc_bs".toList then some (k, v) else none
  | _ => none

/-- What a change adds to the table of queues. -/
def queueOf : Change → Option (Int × Int)
  | bucket n k v => if n = "proc_bs".toList then none else some (k, v)
  | _ => none

/-- What a change adds to the counters of the threads. -/
def threadOf : Change → Option (Int × Int)
  | thread tid _ n => some (tid, n)
  | _ => none

end Change

namespace RawProc

/-- The counters of the threads, without their names. -/
def opsByThread (raw : RawProc) : OrderedDict Int Int :=
  raw.threads.mapValues (fun _ e => e.2)

/-- A field to which each change adds what concerns it. -/
theorem field_applyAll {ρ β : Type} {field : RawProc → ρ}
    {part : Change → Option β} (add : ρ → β → ρ)
    (h : ∀ ch raw, field (ch.apply raw) =
      (part ch).elim (field raw) (add (field raw)))
    (raw : RawProc) (changes : List Change) :
    field (raw.applyAll changes) =
      (changes.filterMap part).foldl add (field raw) := by
  induction changes generalizing raw with
  | nil => rfl
  | cons ch changes ih =>
      have hstep :
        raw.applyAll (ch :: changes) = (ch.apply raw).applyAll changes := rfl
      rw [hstep, ih, h]
      cases hpart : part ch with
      | none => rw [List.filterMap_cons_none hpart, Option.elim_none]
      | some b =>
          rw [List.filterMap_cons_some hpart, Option.elim_some, List.foldl_cons]

/-- What a change does to the commands. -/
theorem ops_apply (ch : Change) (raw : RawProc) :
    (ch.apply raw).ops = ch.opsOf.elim raw.ops (raw.ops + ·) := by
  cases ch with
  | ops comm n => rfl
  | thread tid comm n => rfl
  | counter name v => exact (raw.addCounter_frame name v).1
  | bucket name k v => exact (raw.addBucket_frame name k v).1

/-- What a change does to the sizes. -/
theorem sizes_apply (ch : Change) (raw : RawProc) :
    (ch.apply raw).sizes = ch.sizeOf.elim raw.sizes (bump raw.sizes) := by
  cases ch with
  | ops comm n => rfl
  | thread tid comm n => rfl
  | counter name v => exact (raw.addCounter_frame name v).2.1
  | bucket name k v =>
      change (addBucket name k v raw).sizes
        = (if name = "proc_bs".toList then some (k, v)
          else none).elim raw.sizes (bump raw.sizes)
      unfold addBucket
      split_ifs <;> rfl

/-- What a change does to the queues. -/
theorem queues_apply (ch : Change) (raw : RawProc) :
    (ch.apply raw).queues = ch.queueOf.elim raw.queues (bump raw.queues) := by
  cases ch with
  | ops comm n => rfl
  | thread tid comm n => rfl
  | counter name v => exact (raw.addCounter_frame name v).2.2.1
  | bucket name k v =>
      change (addBucket name k v raw).queues
        = (if name = "proc_bs".toList then none
          else some (k, v)).elim raw.queues (bump raw.queues)
      unfold addBucket
      split_ifs <;> rfl

/-- What a change does to the commands of the threads. -/
theorem opsByThread_apply (ch : Change) (raw : RawProc) :
    (ch.apply raw).opsByThread =
      ch.threadOf.elim raw.opsByThread (bump raw.opsByThread) := by
  cases ch with
  | ops comm n => rfl
  | thread tid comm n =>
      change (addThread tid comm n raw).opsByThread =
        bump raw.opsByThread (tid, n)
      unfold addThread opsByThread bump
      rw [OrderedDict.mapValues_insert, OrderedDict.get?_mapValues]
  | counter name v =>
      obtain ⟨-, -, -, hthreads⟩ := raw.addCounter_frame name v
      exact congrArg (OrderedDict.mapValues fun _ e => e.2) hthreads
  | bucket name k v =>
      obtain ⟨-, hthreads⟩ := raw.addBucket_frame name k v
      exact congrArg (OrderedDict.mapValues fun _ e => e.2) hthreads

/-- A change adds to the counter of its map and leaves the others. -/
structure Adds (ch : Change) (raw raw' : RawProc) : Prop where
  bytes : raw'.bytes =
    (ch.counterOf "proc_bytes".toList).elim raw.bytes (raw.bytes + ·)
  read : raw'.read =
    (ch.counterOf "proc_rd".toList).elim raw.read (raw.read + ·)
  write : raw'.write =
    (ch.counterOf "proc_wr".toList).elim raw.write (raw.write + ·)
  latSum : raw'.latSum =
    (ch.counterOf "proc_lat_sum".toList).elim raw.latSum (raw.latSum + ·)
  latCnt : raw'.latCnt =
    (ch.counterOf "proc_lat_cnt".toList).elim raw.latCnt (raw.latCnt + ·)
  seq : raw'.seq = (ch.counterOf "proc_seq".toList).elim raw.seq (raw.seq + ·)
  rand : raw'.rand =
    (ch.counterOf "proc_rand".toList).elim raw.rand (raw.rand + ·)

/-- A counter line adds to its counter and to no other. -/
theorem adds_counter (name : PyText) (v : Int) (raw : RawProc) :
    Adds (.counter name v) raw (addCounter name v raw) := by
  have hself : ∀ (x : Int) (n : PyText),
      x + v = (Change.counterOf n (.counter n v)).elim x (x + ·) := by
    intro x n
    rw [Change.counterOf, if_pos rfl, Option.elim_some]
  have hother : ∀ (x : Int) {n n' : PyText}, n ≠ n' →
      x = (Change.counterOf n' (.counter n v)).elim x (x + ·) := by
    intro x n n' hne
    rw [Change.counterOf, if_neg hne, Option.elim_none]
  unfold addCounter
  split_ifs with h1 h2 h3 h4 h5 h6 h7
  · subst h1
    exact ⟨hself _ _, hother _ (by decide), hother _ (by decide),
      hother _ (by decide),
      hother _ (by decide), hother _ (by decide), hother _ (by decide)⟩
  · subst h2
    exact ⟨hother _ (by decide), hself _ _, hother _ (by decide),
      hother _ (by decide),
      hother _ (by decide), hother _ (by decide), hother _ (by decide)⟩
  · subst h3
    exact ⟨hother _ (by decide), hother _ (by decide), hself _ _,
      hother _ (by decide),
      hother _ (by decide), hother _ (by decide), hother _ (by decide)⟩
  · subst h4
    exact ⟨hother _ (by decide), hother _ (by decide), hother _ (by decide),
      hself _ _,
      hother _ (by decide), hother _ (by decide), hother _ (by decide)⟩
  · subst h5
    exact ⟨hother _ (by decide), hother _ (by decide), hother _ (by decide),
      hother _ (by decide),
      hself _ _, hother _ (by decide), hother _ (by decide)⟩
  · subst h6
    exact ⟨hother _ (by decide), hother _ (by decide), hother _ (by decide),
      hother _ (by decide),
      hother _ (by decide), hself _ _, hother _ (by decide)⟩
  · subst h7
    exact ⟨hother _ (by decide), hother _ (by decide), hother _ (by decide),
      hother _ (by decide),
      hother _ (by decide), hother _ (by decide), hself _ _⟩
  · exact ⟨hother _ h1, hother _ h2, hother _ h3, hother _ h4, hother _ h5,
      hother _ h6, hother _ h7⟩

/-- A change adds what it says and nothing else. -/
theorem adds_apply (ch : Change) (raw : RawProc) :
    Adds ch raw (ch.apply raw) := by
  cases ch with
  | ops comm n => exact ⟨rfl, rfl, rfl, rfl, rfl, rfl, rfl⟩
  | thread tid comm n => exact ⟨rfl, rfl, rfl, rfl, rfl, rfl, rfl⟩
  | bucket name k v =>
      change Adds _ raw (addBucket name k v raw)
      unfold addBucket
      split_ifs
      · exact ⟨rfl, rfl, rfl, rfl, rfl, rfl, rfl⟩
      · exact ⟨rfl, rfl, rfl, rfl, rfl, rfl, rfl⟩
  | counter name v => exact adds_counter name v raw

end RawProc

/-! ### The changes of a process -/

/-- What the changes of a process add to one of its counters. -/
def selected {β : Type} (part : Change → Option β) (k : Int × Int)
    (changes : List ((Int × Int) × Change)) : List β :=
  (changesOf k changes).filterMap part

/-- The parts of two lists of changes, in a row. -/
theorem selected_append {β : Type} (part : Change → Option β) (k : Int × Int)
    (l l' : List ((Int × Int) × Change)) :
    selected part k (l ++ l') = selected part k l ++ selected part k l' := by
  simp [selected, changesOf]

/-- Changes of another kind have no such part. -/
theorem selected_none {α β : Type} {part : Change → Option β}
    {change : α → Change}
    (h : ∀ a, part (change a) = none) (key : α → Int × Int) (k : Int × Int)
    (l : List α) :
    selected part k (l.map (fun a => (key a, change a))) = [] := by
  unfold selected changesOf
  refine List.filterMap_eq_nil_iff.mpr fun ch hch => ?_
  obtain ⟨e, he, rfl⟩ := List.mem_map.mp hch
  obtain ⟨a, _, rfl⟩ := List.mem_map.mp (List.mem_of_mem_filter he)
  exact h a

/-- The parts of the changes of one map, for a process. -/
theorem selected_some {α β : Type} {part : Change → Option β}
    {change : α → Change} {value : α → β}
    (h : ∀ a, part (change a) = some (value a)) (key : α → Int × Int)
    (k : Int × Int) (l : List α) :
    selected part k (l.map (fun a => (key a, change a)))
      = (l.filter (fun a => decide (key a = k))).map value := by
  unfold selected changesOf
  rw [List.filter_map, List.map_map,
    List.filterMap_map, ← List.filterMap_eq_map]
  exact List.filterMap_congr fun a _ => h a

/-- Different words are different keys. -/
theorem pairOf_eq_iff {c p c' p' : Int64} :
    pairOf c p = pairOf c' p' ↔ (c, p) = (c', p') := by
  simp only [pairOf, Prod.mk.injEq, Int64.toInt_inj]

/-- The entries of a process, in the order of a print. -/
theorem filter_pairOf {κ ν : Type} (o : PrintOrder) {tick : Nat} {name : PyText}
    (key : κ → Int64 × Int64) (d : List (κ × ν))
    (c p : Int64) :
    ((o.order tick name d).filter (fun e =>
      decide (pairOf (key e.1).1 (key e.1).2 = pairOf c p))).Perm
      (d.filter (fun e => decide (key e.1 = (c, p)))) := by
  have hsame :
      (fun e : κ × ν => decide (pairOf (key e.1).1 (key e.1).2 = pairOf c p))
      = fun e => decide (key e.1 = (c, p)) := by
    funext e
    exact decide_eq_decide.mpr pairOf_eq_iff
  rw [hsame]
  exact (o.perm tick name d).filter _

namespace Maps

/-- The commands of a process, under all its names. -/
def opsOf (m : Maps) (c p : Int64) : Int :=
  groupSum (fun e => (e.1.1, e.1.2.1)) (fun e => (e.2.toNat : Int))
    m.procOps.items (c, p)

/-- The commands of a process by thread, one entry a name of the thread. -/
def threadsOf (m : Maps) (c p : Int64) : List (Int × Int) :=
  (m.thrOps.items.filter (fun e => decide ((e.1.1, e.1.2.1) = (c, p)))).map
    (fun e => (e.1.2.2.1.toInt, (e.2.toNat : Int)))

/-- A process is in one of the maps. -/
def HasProcess (m : Maps) (c p : Int64) : Prop :=
  (∃ comm, (c, p, comm) ∈ m.procOps.keys) ∨ (c, p) ∈ m.procBytes.keys ∨
    (c, p) ∈ m.procRd.keys ∨
    (c, p) ∈ m.procWr.keys ∨ (∃ size, (c, p, size) ∈ m.procBs.keys) ∨
    (∃ qid, (c, p, qid) ∈ m.procQ.keys) ∨ (c, p) ∈ m.procLatSum.keys ∨
    (c, p) ∈ m.procLatCnt.keys ∨ (c, p) ∈ m.procSeq.keys ∨
      (c, p) ∈ m.procRand.keys ∨
    ∃ tid comm, (c, p, tid, comm) ∈ m.thrOps.keys

end Maps

/-- The table of a process in a map with three keys. -/
def tableOf (m : Counters Key3) (c p : Int64) : List (Int × Int) :=
  (m.items.filter (fun e => decide ((e.1.1, e.1.2.1) = (c, p)))).map
    (fun e => (e.1.2.2.toInt, (e.2.toNat : Int)))

/-- The counters of a process are those of the maps. -/
structure DecodedProc (m : Maps) (c p : Int64) (raw : RawProc) : Prop where
  ops : raw.ops = m.opsOf c p
  bytes : raw.bytes = (Counters.word m.procBytes (c, p)).toNat
  read : raw.read = (Counters.word m.procRd (c, p)).toNat
  write : raw.write = (Counters.word m.procWr (c, p)).toNat
  latSum : raw.latSum = (Counters.word m.procLatSum (c, p)).toNat
  latCnt : raw.latCnt = (Counters.word m.procLatCnt (c, p)).toNat
  seq : raw.seq = (Counters.word m.procSeq (c, p)).toNat
  rand : raw.rand = (Counters.word m.procRand (c, p)).toNat
  sizes : raw.sizes.items.Perm (tableOf m.procBs c p)
  queues : raw.queues.items.Perm (tableOf m.procQ c p)
  threads : ∀ tid, raw.opsByThread.get? tid =
    if tid ∈ (m.threadsOf c p).map Prod.fst then
    some (groupSum Prod.fst Prod.snd (m.threadsOf c p) tid) else none

/-- What was read is the processes of the maps, each with its counters. -/
structure Decoded (m : Maps) (procs : Procs) : Prop where
  keys : ∀ k, k ∈ procs.keys ↔ ∃ c p, k = pairOf c p ∧ m.HasProcess c p
  counters : ∀ c p raw, procs.get? (pairOf c p) = some raw →
    DecodedProc m c p raw

section

variable (o : PrintOrder) {tick : Nat} (c p : Int64)

/-- The value of a process in a map with two keys. -/
theorem sum_selected_counter (name : PyText) (m : Counters Key2) :
    (selected (Change.counterOf name) (pairOf c p)
      (counterChanges o tick name m)).sum
      = ((Counters.word m (c, p)).toNat : Int) := by
  have hpart : ∀ e : Key2 × UInt64,
      Change.counterOf name (.counter name e.2.toNat)
      = some (e.2.toNat : Int) := fun e => if_pos rfl
  have hitems := groupSum_items m (fun v => (v.toNat : Int)) (c, p)
  unfold counterChanges
  rw [selected_some hpart]
  refine (((filter_pairOf o id m.items c p).map _).sum_eq).trans
    (hitems.trans ?_)
  unfold Counters.word
  cases m.get? (c, p) <;> rfl

/-- The commands of a process are the sum over its names. -/
theorem sum_selected_ops (m : Maps) :
    (selected Change.opsOf (pairOf c p) (opsChanges o m.tick m.procOps)).sum =
      m.opsOf c p := by
  have hpart : ∀ e : (Int64 × Int64 × Comm) × UInt64,
      Change.opsOf (.ops (decode e.1.2.2.bytes) e.2.toNat) =
        some (e.2.toNat : Int) := fun e => rfl
  unfold opsChanges
  rw [selected_some hpart]
  exact ((filter_pairOf o (fun k => (k.1, k.2.1)) m.procOps.items c p).map
    (fun e => (e.2.toNat : Int))).sum_eq

/-- A table has each key once. -/
theorem nodup_tableOf (m : Counters Key3) :
    ((tableOf m c p).map Prod.fst).Nodup := by
  have hkeys :
      ((m.items.filter (fun e => decide ((e.1.1, e.1.2.1) = (c, p)))).map
      Prod.fst).Nodup :=
    (List.filter_sublist.map Prod.fst).nodup m.nodup
  have hfst : (tableOf m c p).map Prod.fst
      = ((m.items.filter (fun e => decide ((e.1.1, e.1.2.1) = (c, p)))).map
          Prod.fst).map
          (fun k => k.2.2.toInt) := by
    simp [tableOf]
  rw [hfst]
  refine hkeys.map_on fun k hk k' hk' h => ?_
  obtain ⟨e, he, rfl⟩ := List.mem_map.mp hk
  obtain ⟨e', he', rfl⟩ := List.mem_map.mp hk'
  have hpair := of_decide_eq_true (List.mem_filter.mp he).2
  have hpair' := of_decide_eq_true (List.mem_filter.mp he').2
  obtain ⟨hc, hp⟩ := Prod.mk.inj (hpair.trans hpair'.symm)
  exact Prod.ext hc (Prod.ext hp (Int64.toInt_inj.mp h))

/-- The entries of a table, in the order they are printed in. -/
theorem selected_buckets_perm {part : Change → Option (Int × Int)}
    {name : PyText}
    (hpart : ∀ k v, part (.bucket name k v) = some (k, v)) (m : Counters Key3) :
    (selected part (pairOf c p) (bucketChanges o tick name m)).Perm
      (tableOf m c p) := by
  have hsome : ∀ e : Key3 × UInt64, part (.bucket name e.1.2.2.toInt e.2.toNat)
      = some (e.1.2.2.toInt, (e.2.toNat : Int)) := fun e => hpart _ _
  unfold bucketChanges
  rw [selected_some hsome]
  exact (filter_pairOf o (fun k => (k.1, k.2.1)) m.items c p).map
    (fun e => (e.1.2.2.toInt, (e.2.toNat : Int)))

/-- A table is read as it is printed. -/
theorem items_selected {part : Change → Option (Int × Int)} {name : PyText}
    (hpart : ∀ k v, part (.bucket name k v) = some (k, v)) (m : Counters Key3) :
    ((selected part (pairOf c p) (bucketChanges o tick name m)).foldl bump
      .empty).items.Perm
      (tableOf m c p) := by
  have hperm : (selected part (pairOf c p)
      (bucketChanges o tick name m)).Perm (tableOf m c p) :=
    selected_buckets_perm o c p hpart m
  rw [items_foldl_bump
    ((hperm.map Prod.fst).nodup_iff.mpr (nodup_tableOf c p m))]
  exact hperm

/-- The threads of a process, in the order they are printed in. -/
theorem selected_threads_perm (m : Maps) :
    (selected Change.threadOf (pairOf c p)
      (threadChanges o m.tick m.thrOps)).Perm (m.threadsOf c p) := by
  have hsome : ∀ e : (Int64 × Int64 × Int64 × Comm) × UInt64,
      Change.threadOf
        (.thread e.1.2.2.1.toInt (decode e.1.2.2.2.bytes) e.2.toNat)
        = some (e.1.2.2.1.toInt, (e.2.toNat : Int)) := fun e => rfl
  unfold threadChanges
  rw [selected_some hsome]
  exact (filter_pairOf o (fun k => (k.1, k.2.1)) m.thrOps.items c p).map
    (fun e => (e.1.2.2.1.toInt, (e.2.toNat : Int)))

variable {β : Type} (part : Change → Option β)

/-- The commands by process have no other part. -/
theorem selected_ops_none (h : ∀ comm n, part (.ops comm n) = none)
    (k : Int × Int)
    (m : Counters (Int64 × Int64 × Comm)) :
    selected part k (opsChanges o tick m) = [] :=
  selected_none (fun _ => h _ _) _ k _

/-- Nor have the counters. -/
theorem selected_counter_none {name : PyText}
    (h : ∀ v, part (.counter name v) = none) (k : Int × Int)
    (m : Counters Key2) : selected part k (counterChanges o tick name m) = [] :=
  selected_none (fun _ => h _) _ k _

/-- Nor have the tables. -/
theorem selected_bucket_none {name : PyText}
    (h : ∀ b v, part (.bucket name b v) = none)
    (k : Int × Int) (m : Counters Key3) :
    selected part k (bucketChanges o tick name m) = [] :=
  selected_none (fun _ => h _ _) _ k _

/-- Nor have the commands by thread. -/
theorem selected_thread_none
    (h : ∀ tid comm n, part (.thread tid comm n) = none) (k : Int × Int)
    (m : Counters (Int64 × Int64 × Int64 × Comm)) :
    selected part k (threadChanges o tick m) = [] :=
  selected_none (fun _ => h _ _ _) _ k _

variable (m : Maps) (k : Int × Int)

/-- The commands come from the lines of the processes only. -/
theorem selected_opsOf : selected Change.opsOf k (processChanges o m)
    = selected Change.opsOf k (opsChanges o m.tick m.procOps) := by
  unfold processChanges
  simp only [selected_append,
    selected_counter_none o Change.opsOf (fun _ => rfl),
    selected_bucket_none o Change.opsOf (fun _ _ => rfl),
    selected_thread_none o Change.opsOf (fun _ _ _ => rfl),
    List.append_nil]

/-- Those of the threads come from the lines of the threads only. -/
theorem selected_threadOf : selected Change.threadOf k (processChanges o m)
    = selected Change.threadOf k (threadChanges o m.tick m.thrOps) := by
  unfold processChanges
  simp only [selected_append,
    selected_counter_none o Change.threadOf (fun _ => rfl),
    selected_bucket_none o Change.threadOf (fun _ _ => rfl),
    selected_ops_none o Change.threadOf (fun _ _ => rfl), List.nil_append]

/-- The sizes come from their own map only. -/
theorem selected_sizeOf : selected Change.sizeOf k (processChanges o m)
    = selected Change.sizeOf k
      (bucketChanges o m.tick "proc_bs".toList m.procBs) := by
  have hqueues :
      selected Change.sizeOf k
      (bucketChanges o m.tick "proc_q".toList m.procQ) = [] :=
    selected_bucket_none o Change.sizeOf (fun _ _ => rfl) k _
  unfold processChanges
  simp only [selected_append,
    selected_counter_none o Change.sizeOf (fun _ => rfl), hqueues,
    selected_thread_none o Change.sizeOf (fun _ _ _ => rfl),
    selected_ops_none o Change.sizeOf (fun _ _ => rfl), List.nil_append,
    List.append_nil]

/-- So do the queues. -/
theorem selected_queueOf : selected Change.queueOf k (processChanges o m)
    = selected Change.queueOf k
      (bucketChanges o m.tick "proc_q".toList m.procQ) := by
  have hsizes :
      selected Change.queueOf k
      (bucketChanges o m.tick "proc_bs".toList m.procBs) = [] :=
    selected_bucket_none o Change.queueOf (fun _ _ => rfl) k _
  unfold processChanges
  simp only [selected_append,
    selected_counter_none o Change.queueOf (fun _ => rfl), hsizes,
    selected_thread_none o Change.queueOf (fun _ _ _ => rfl),
    selected_ops_none o Change.queueOf (fun _ _ => rfl), List.nil_append,
    List.append_nil]

/-- A map with two keys adds to its own counter. -/
theorem sum_selected_counterOf (n name : PyText) (d : Counters Key2) :
    (selected (Change.counterOf n) (pairOf c p)
      (counterChanges o tick name d)).sum
      = if name = n then ((Counters.word d (c, p)).toNat : Int) else 0 := by
  by_cases h : name = n
  · subst h
    rw [if_pos rfl, sum_selected_counter]
  · rw [if_neg h, selected_counter_none o _ (fun _ => if_neg h), List.sum_nil]

/-- What the lines of a tick add to the counter of a map with two keys. -/
theorem sum_counterOf (n : PyText) :
    (selected (Change.counterOf n) (pairOf c p) (processChanges o m)).sum
      = (if "proc_bytes".toList = n
        then ((Counters.word m.procBytes (c, p)).toNat : Int) else 0)
      + ((if "proc_rd".toList = n
        then ((Counters.word m.procRd (c, p)).toNat : Int) else 0)
      + ((if "proc_wr".toList = n
        then ((Counters.word m.procWr (c, p)).toNat : Int) else 0)
      + ((if "proc_lat_sum".toList = n
        then ((Counters.word m.procLatSum (c, p)).toNat : Int) else 0)
      + ((if "proc_lat_cnt".toList = n
        then ((Counters.word m.procLatCnt (c, p)).toNat : Int) else 0)
      + ((if "proc_seq".toList = n
        then ((Counters.word m.procSeq (c, p)).toNat : Int) else 0)
      + (if "proc_rand".toList = n
        then ((Counters.word m.procRand (c, p)).toNat : Int) else 0)))))) := by
  unfold processChanges
  simp only [selected_append, List.sum_append, sum_selected_counterOf,
    selected_bucket_none o (Change.counterOf n) (fun _ _ => rfl),
    selected_thread_none o (Change.counterOf n) (fun _ _ _ => rfl),
    selected_ops_none o (Change.counterOf n) (fun _ _ => rfl), List.sum_nil,
    zero_add, add_zero]

end

namespace RawProc

/-- A counter that starts at 0 is the sum of what the changes add to it. -/
theorem counter_applyAll {field : RawProc → Int} {part : Change → Option Int}
    (h : ∀ ch raw, field (ch.apply raw) =
      (part ch).elim (field raw) (field raw + ·))
    (hzero : field {} = 0) (k : Int × Int)
    (changes : List ((Int × Int) × Change)) :
    field (RawProc.applyAll {} (changesOf k changes)) =
      (selected part k changes).sum := by
  refine (field_applyAll (· + ·) h {} (changesOf k changes)).trans ?_
  rw [hzero, selected, List.sum_eq_foldl]

end RawProc

section

variable (o : PrintOrder) (m : Maps) (c p : Int64)

/-- **The changes of a tick make up the counters of the maps.** -/
theorem decodedProc_applyAll :
    DecodedProc m c p
      (RawProc.applyAll {} (changesOf (pairOf c p) (processChanges o m))) := by
  refine ⟨?_, ?_, ?_, ?_, ?_, ?_, ?_, ?_, ?_, ?_, ?_⟩
  · rw [RawProc.counter_applyAll RawProc.ops_apply rfl, selected_opsOf,
      sum_selected_ops]
  · rw [RawProc.counter_applyAll (fun ch raw =>
      (RawProc.adds_apply ch raw).bytes) rfl, sum_counterOf]
    simp +decide
  · rw [RawProc.counter_applyAll (fun ch raw =>
      (RawProc.adds_apply ch raw).read) rfl, sum_counterOf]
    simp +decide
  · rw [RawProc.counter_applyAll (fun ch raw =>
      (RawProc.adds_apply ch raw).write) rfl, sum_counterOf]
    simp +decide
  · rw [RawProc.counter_applyAll (fun ch raw =>
      (RawProc.adds_apply ch raw).latSum) rfl, sum_counterOf]
    simp +decide
  · rw [RawProc.counter_applyAll (fun ch raw =>
      (RawProc.adds_apply ch raw).latCnt) rfl, sum_counterOf]
    simp +decide
  · rw [RawProc.counter_applyAll (fun ch raw =>
      (RawProc.adds_apply ch raw).seq) rfl, sum_counterOf]
    simp +decide
  · rw [RawProc.counter_applyAll (fun ch raw =>
      (RawProc.adds_apply ch raw).rand) rfl, sum_counterOf]
    simp +decide
  · rw [RawProc.field_applyAll bump RawProc.sizes_apply]
    change ((selected Change.sizeOf _ _).foldl bump _).items.Perm _
    rw [selected_sizeOf]
    exact items_selected o c p (fun _ _ => rfl) m.procBs
  · rw [RawProc.field_applyAll bump RawProc.queues_apply]
    change ((selected Change.queueOf _ _).foldl bump _).items.Perm _
    rw [selected_queueOf]
    exact items_selected o c p (fun _ _ => rfl) m.procQ
  · intro tid
    have hperm := selected_threads_perm o c p m
    have hkeys :
        tid ∈ (selected Change.threadOf (pairOf c p)
        (threadChanges o m.tick m.thrOps)).map Prod.fst ↔
        tid ∈ (m.threadsOf c p).map Prod.fst := (hperm.map Prod.fst).mem_iff
    rw [RawProc.field_applyAll bump RawProc.opsByThread_apply]
    change ((selected Change.threadOf _ _).foldl bump _).get? tid = _
    have hempty : RawProc.opsByThread {} = .empty := rfl
    rw [selected_threadOf, get?_foldl_bump, groupSum_perm _ _ hperm, hempty]
    simp only [hkeys, OrderedDict.get?_empty, Option.getD_none, zero_add]

end

/-! ### Which processes are there -/

section

variable (o : PrintOrder) {tick : Nat} (k : Int × Int)

/-- A process is there if some name of it is. -/
theorem mem_opsChanges (d : Counters (Int64 × Int64 × Comm)) :
    k ∈ (opsChanges o tick d).map Prod.fst ↔
    ∃ c p, k = pairOf c p ∧ ∃ comm, (c, p, comm) ∈ d.keys := by
  unfold opsChanges
  rw [List.map_map]
  constructor
  · intro hk
    obtain ⟨⟨⟨c, p, comm⟩, v⟩, he, rfl⟩ := List.mem_map.mp hk
    exact ⟨c, p, rfl, comm, mem_keys_of_order o d he⟩
  · intro ⟨c, p, hk, comm, hmem⟩
    obtain ⟨e, he, hfst⟩ := List.mem_map.mp hmem
    exact List.mem_map.mpr ⟨e,
      (o.perm _ _ d.items).mem_iff.mpr he, by simp [hk, hfst]⟩

/-- A process is there if its counter is. -/
theorem mem_counterChanges (name : PyText) (d : Counters Key2) :
    k ∈ (counterChanges o tick name d).map Prod.fst ↔ ∃ c p, k = pairOf c p ∧
      (c, p) ∈ d.keys := by
  unfold counterChanges
  rw [List.map_map]
  constructor
  · intro hk
    obtain ⟨⟨⟨c, p⟩, v⟩, he, rfl⟩ := List.mem_map.mp hk
    exact ⟨c, p, rfl, mem_keys_of_order o d he⟩
  · intro ⟨c, p, hk, hmem⟩
    obtain ⟨e, he, hfst⟩ := List.mem_map.mp hmem
    exact List.mem_map.mpr ⟨e,
      (o.perm _ _ d.items).mem_iff.mpr he, by simp [hk, hfst]⟩

/-- A process is there if a row of its table is. -/
theorem mem_bucketChanges (name : PyText) (d : Counters Key3) :
    k ∈ (bucketChanges o tick name d).map Prod.fst ↔
      ∃ c p, k = pairOf c p ∧ ∃ b, (c, p, b) ∈ d.keys := by
  unfold bucketChanges
  rw [List.map_map]
  constructor
  · intro hk
    obtain ⟨⟨⟨c, p, b⟩, v⟩, he, rfl⟩ := List.mem_map.mp hk
    exact ⟨c, p, rfl, b, mem_keys_of_order o d he⟩
  · intro ⟨c, p, hk, b, hmem⟩
    obtain ⟨e, he, hfst⟩ := List.mem_map.mp hmem
    exact List.mem_map.mpr ⟨e,
      (o.perm _ _ d.items).mem_iff.mpr he, by simp [hk, hfst]⟩

/-- A process is there if some thread of it is. -/
theorem mem_threadChanges (d : Counters (Int64 × Int64 × Int64 × Comm)) :
    k ∈ (threadChanges o tick d).map Prod.fst ↔
      ∃ c p, k = pairOf c p ∧ ∃ tid comm, (c, p, tid, comm) ∈ d.keys := by
  unfold threadChanges
  rw [List.map_map]
  constructor
  · intro hk
    obtain ⟨⟨⟨c, p, tid, comm⟩, v⟩, he, rfl⟩ := List.mem_map.mp hk
    exact ⟨c, p, rfl, tid, comm, mem_keys_of_order o d he⟩
  · intro ⟨c, p, hk, tid, comm, hmem⟩
    obtain ⟨e, he, hfst⟩ := List.mem_map.mp hmem
    exact List.mem_map.mpr ⟨e,
      (o.perm _ _ d.items).mem_iff.mpr he, by simp [hk, hfst]⟩

/-- **The processes of a tick** are those of any of its maps. -/
theorem mem_processChanges (m : Maps) :
    k ∈ (processChanges o m).map Prod.fst ↔ ∃ c p, k = pairOf c p ∧
      m.HasProcess c p := by
  unfold processChanges Maps.HasProcess
  simp only [List.map_append, List.mem_append, mem_opsChanges,
    mem_counterChanges,
    mem_bucketChanges, mem_threadChanges, ← exists_or, ← and_or_left]

end

/-- **The changes of a tick make up the processes of the maps.** -/
theorem decoded_updateAll (o : PrintOrder) (m : Maps) :
    Decoded m (Procs.updateAll .empty (processChanges o m)) := by
  have hget := fun k => get?_updateAll .empty (processChanges o m) k
  constructor
  · intro k
    rw [← mem_processChanges o k m, OrderedDict.mem_keys_iff, hget]
    by_cases hk : k ∈ (processChanges o m).map Prod.fst
    · simp only [hk, if_true, iff_true]
      exact ⟨_, rfl⟩
    · simp [hk]
  · intro c p raw hraw
    rw [hget] at hraw
    by_cases hk : pairOf c p ∈ (processChanges o m).map Prod.fst
    · rw [if_pos hk] at hraw
      rw [← Option.some.inj hraw]
      exact decodedProc_applyAll o m c p
    · rw [if_neg hk] at hraw
      exact absurd hraw (by simp)

/-! ### A tick in a log -/

/-- The lines of a tick: those of the process maps, with others mixed in that
have no name of a process. -/
structure TickOf (o : PrintOrder) (m : Maps) (ls : List PrintedLine) :
    Prop where
  clean : ∀ l ∈ ls, l.Clean
  process : ls.filter (fun l => decide (IsProcLine l.text)) = processLines o m
  others : ∀ l ∈ ls, ¬ IsProcLine l.text → l.name? = none

/-- The lines about processes have harmless names if the maps have. -/
theorem harmless_processLines {o : PrintOrder} {m : Maps}
    (h : m.NamesHarmless) :
    ∀ l ∈ processLines o m, ∀ n ∈ l.name?, n.Harmless := by
  have hplain : ∀ {α : Type} (l : List α) (text : α → PyText),
      ∀ x ∈ l.map (fun a => PrintedLine.plain (text a)), ∀ n ∈ x.name?,
      n.Harmless := by
    intro α l text x hx n hn
    obtain ⟨a, _, rfl⟩ := List.mem_map.mp hx
    exact absurd hn (by simp [PrintedLine.name?])
  unfold processLines
  simp only [List.forall_mem_append]
  refine ⟨?_, hplain _ _, hplain _ _, hplain _ _, hplain _ _, hplain _ _,
    hplain _ _, hplain _ _,
    hplain _ _, hplain _ _, ?_⟩
  · intro l hl n hn
    obtain ⟨e, he, rfl⟩ := List.mem_map.mp hl
    have heq : e.1.2.2 = n := Option.some.inj hn
    exact heq ▸ h.1 _ (mem_keys_of_order o _ he)
  · intro l hl n hn
    obtain ⟨e, he, rfl⟩ := List.mem_map.mp hl
    have heq : e.1.2.2.2 = n := Option.some.inj hn
    exact heq ▸ h.2 _ (mem_keys_of_order o _ he)

/-- So has a whole tick. -/
theorem TickOf.harmless {o : PrintOrder} {m : Maps} {ls : List PrintedLine}
    (h : TickOf o m ls)
    (hm : m.NamesHarmless) : ∀ l ∈ ls, ∀ n ∈ l.name?, n.Harmless := by
  intro l hl n hn
  by_cases hproc : IsProcLine l.text
  · have hmem : l ∈ ls.filter (fun l => decide (IsProcLine l.text)) :=
      List.mem_filter.mpr ⟨hl, decide_eq_true hproc⟩
    rw [h.process] at hmem
    exact harmless_processLines hm l hmem n hn
  · rw [h.others l hl hproc] at hn
    exact absurd hn (by simp)

/-! ### The ticks of the collector -/

/-- A line that does not begin with an at sign is about no process. -/
theorem not_isProcLine_of_first {x : Char} (hx : x ≠ '@')
    (hspace : isSpace x = false) (t : PyText) :
    ¬ IsProcLine (x :: t) := by
  intro h
  have hcut := prefix_of_strip hspace t
  rcases h with h | h
  · exact hx (List.cons_prefix_cons.mp (h.trans hcut)).1.symm
  · exact hx (List.cons_prefix_cons.mp (h.trans hcut)).1.symm

/-- Nor is one of a map whose name begins otherwise. -/
theorem not_isProcLine_of_name {x : Char} (hp : x ≠ 'p') (ht : x ≠ 't')
    (t : PyText) :
    ¬ IsProcLine ('@' :: x :: t) := by
  intro h
  have hcut := prefix_of_strip (x := '@') (by decide) (x :: t)
  rcases h with h | h
  · exact hp (List.cons_prefix_cons.mp
      (List.cons_prefix_cons.mp (h.trans hcut)).2).1.symm
  · exact ht (List.cons_prefix_cons.mp
      (List.cons_prefix_cons.mp (h.trans hcut)).2).1.symm

/-- Nor is an empty line. -/
theorem not_isProcLine_nil : ¬ IsProcLine [] := by decide

/-- The name of a map that is none of the processes. -/
def QueueMap (name : PyText) : Prop := ∃ x t, name = x :: t ∧ x ≠ 'p' ∧ x ≠ 't'

/-- The maps of the queues have such names. -/
theorem queueMap_cons {x : Char} (h : x ≠ 'p' ∧ x ≠ 't') (t : PyText) :
    QueueMap (x :: t) :=
  ⟨x, t, rfl, h⟩

/-- An event is about no process. -/
theorem IsEventLine.not_isProcLine {l : PrintedLine} (h : IsEventLine l) :
    ¬ IsProcLine l.text := by
  obtain ⟨c, t, htext, hc⟩ := h.first
  rw [htext]
  rcases hc with rfl | rfl | rfl
  · exact not_isProcLine_of_first (by decide) (by decide) t
  · exact not_isProcLine_of_first (by decide) (by decide) t
  · exact not_isProcLine_of_first (by decide) (by decide) t

/-- A line that is none of the process maps, and has no name. -/
def Other (l : PrintedLine) : Prop := ¬ IsProcLine l.text ∧ l.name? = none

section

variable (o : PrintOrder) {tick : Nat} {name : PyText} (hname : QueueMap name)

include hname

/-- The line of a map of the queues is about no process. -/
theorem other_mapLine (ks : List Int64) (v : UInt64) :
    Other (.plain (mapLine name ks v)) := by
  obtain ⟨x, t, rfl, hp, ht⟩ := hname
  exact ⟨not_isProcLine_of_name hp ht _, rfl⟩

/-- The lines of the maps of the queues with two keys. -/
theorem other_print2 (d : Counters Key2) :
    ∀ l ∈ print2 o tick name d, Other l := by
  intro l hl
  obtain ⟨e, _, rfl⟩ := List.mem_map.mp hl
  exact other_mapLine hname _ _

/-- Those of the maps with three keys. -/
theorem other_print3 (d : Counters Key3) :
    ∀ l ∈ print3 o tick name d, Other l := by
  intro l hl
  obtain ⟨e, _, rfl⟩ := List.mem_map.mp hl
  exact other_mapLine hname _ _

/-- Those of the histograms. -/
theorem other_printHist (d : OrderedDict Key2 Hist) :
    ∀ l ∈ printHist o tick name d, Other l := by
  intro l hl
  obtain ⟨e, _, hl⟩ := List.mem_flatMap.mp hl
  obtain ⟨line, hline, rfl⟩ := List.mem_map.mp hl
  refine ⟨?_, rfl⟩
  change ¬ IsProcLine line
  rcases List.mem_cons.mp hline with rfl | hline
  · obtain ⟨x, t, rfl, hp, ht⟩ := hname
    exact not_isProcLine_of_name hp ht _
  · rcases List.mem_append.mp hline with hrow | hnil
    · obtain ⟨i, _, rfl⟩ := List.mem_map.mp hrow
      obtain ⟨c, t, hrange, hc⟩ := rangeText_first i
      unfold histRow padRight
      rw [hrange]
      rcases hc with rfl | rfl
      · exact not_isProcLine_of_first (by decide) (by decide) _
      · exact not_isProcLine_of_first (by decide) (by decide) _
    · rw [List.mem_singleton.mp hnil]
      exact not_isProcLine_nil

end

/-- The lines about processes are taken for what they are. -/
theorem isProcLine_processLines (o : PrintOrder) (m : Maps) :
    ∀ l ∈ processLines o m, IsProcLine l.text := by
  have hvalue : ∀ (name : PyText) (ks : List Int64) (v : UInt64),
      "@proc".toList <+: '@' :: name →
      IsProcLine (mapLine name ks v) := by
    intro name ks v hproc
    have hstrip : strip (mapLine name ks v) = mapLine name ks v :=
      strip_valueLine _ _
    refine Or.inl ?_
    rw [hstrip, mapLine, List.append_assoc, List.append_assoc]
    exact hproc.trans (List.prefix_append ('@' :: name) _)
  have htwo : ∀ (name : PyText) (d : Counters Key2),
      "@proc".toList <+: '@' :: name →
      ∀ l ∈ print2 o m.tick name d, IsProcLine l.text := by
    intro name d hproc l hl
    obtain ⟨e, _, rfl⟩ := List.mem_map.mp hl
    exact hvalue _ _ _ hproc
  have hthree : ∀ (name : PyText) (d : Counters Key3),
      "@proc".toList <+: '@' :: name →
      ∀ l ∈ print3 o m.tick name d, IsProcLine l.text := by
    intro name d hproc l hl
    obtain ⟨e, _, rfl⟩ := List.mem_map.mp hl
    exact hvalue _ _ _ hproc
  have hcomm : ∀ (name : PyText) (ks : List Int64) (comm : Comm) (v : UInt64),
      '@' :: name <+: strip (commLine name ks comm v).text := by
    intro name ks comm v
    rw [strip_commLine]
    simp [commLine, PrintedLine.text]
  unfold processLines
  simp only [List.forall_mem_append]
  refine ⟨?_, htwo _ _ (by decide), htwo _ _ (by decide), htwo _ _ (by decide),
    hthree _ _ (by decide), hthree _ _ (by decide), htwo _ _ (by decide),
    htwo _ _ (by decide),
    htwo _ _ (by decide), htwo _ _ (by decide), ?_⟩
  · intro l hl
    obtain ⟨e, _, rfl⟩ := List.mem_map.mp hl
    exact Or.inl (List.IsPrefix.trans (by decide) (hcomm _ _ _ _))
  · intro l hl
    obtain ⟨e, _, rfl⟩ := List.mem_map.mp hl
    exact Or.inr (List.IsPrefix.trans (by decide) (hcomm _ _ _ _))

/-- **What the collector prints at a tick**, with the events before it. -/
theorem tickOf_tickLines (o : PrintOrder) (m : Maps) {events : List PrintedLine}
    (hevents : ∀ l ∈ events, IsEventLine l) :
    TickOf o m (events ++ tickLines o m) := by
  have hsplit : ∃ front, tickLines o m = front ++ processLines o m ∧
      ∀ l ∈ front, Other l := by
    refine ⟨print2 o m.tick "op_count".toList m.opCount ++
      print2 o m.tick "read_count".toList m.readCount ++
      print2 o m.tick "write_count".toList m.writeCount ++
        print2 o m.tick "bytes_sum".toList m.bytesSum ++
      print2 o m.tick "lat_sum".toList m.latSum ++
        print2 o m.tick "lat_count".toList m.latCount ++
      printHist o m.tick "lat_hist".toList m.latHist ++
        print3 o m.tick "err_count".toList m.errCount, ?_, ?_⟩
    · unfold tickLines processLines
      simp only [List.append_assoc]
    · simp only [List.forall_mem_append]
      exact ⟨⟨⟨⟨⟨⟨⟨other_print2 o (queueMap_cons (by decide) _) _,
        other_print2 o (queueMap_cons (by decide) _) _⟩,
        other_print2 o (queueMap_cons (by decide) _) _⟩,
        other_print2 o (queueMap_cons (by decide) _) _⟩,
        other_print2 o (queueMap_cons (by decide) _) _⟩,
        other_print2 o (queueMap_cons (by decide) _) _⟩,
        other_printHist o (queueMap_cons (by decide) _) _⟩,
        other_print3 o (queueMap_cons (by decide) _) _⟩
  obtain ⟨front, heq, hfront⟩ := hsplit
  have hothers : ∀ l ∈ events ++ front, Other l := by
    intro l hl
    rcases List.mem_append.mp hl with hl | hl
    · exact ⟨(hevents l hl).not_isProcLine, (hevents l hl).clean.2⟩
    · exact hfront l hl
  have hlines :
      events ++ tickLines o m = (events ++ front) ++ processLines o m := by
    rw [heq, List.append_assoc]
  refine ⟨?_, ?_, ?_⟩
  · intro l hl
    rcases List.mem_append.mp hl with hl | hl
    · exact (hevents l hl).clean.1
    · exact clean_tickLines o m l hl
  · have hnone :
        (events ++ front).filter (fun l => decide (IsProcLine l.text)) = [] :=
      List.filter_eq_nil_iff.mpr fun l hl => by simpa using (hothers l hl).1
    rw [hlines, List.filter_append, hnone, List.nil_append]
    exact List.filter_eq_self.mpr fun l hl =>
      decide_eq_true (isProcLine_processLines o m l hl)
  · intro l hl hnot
    rw [hlines] at hl
    rcases List.mem_append.mp hl with hl | hl
    · exact (hothers l hl).2
    · exact absurd (isProcLine_processLines o m l hl) hnot

section

variable [UnicodeDb]

/-- The lines of a tick are read as the changes of its maps. -/
theorem TickOf.readsAs {o : PrintOrder} {m : Maps} {ls : List PrintedLine}
    (h : TickOf o m ls)
    (hm : m.NamesHarmless) :
    ReadsAs (ls.map PrintedLine.text) (processChanges o m) := by
  refine ReadsAs.of_filter ?_
  rw [List.filter_map]
  change ReadsAs
    ((ls.filter (fun l => decide (IsProcLine l.text))).map PrintedLine.text) _
  rw [h.process]
  exact readsAs_processLines o hm

/-- The text of a tick, as it stands behind the marker of the one before. -/
theorem TickOf.parseTick_eq {o : PrintOrder} {m : Maps} {ls : List PrintedLine}
    (h : TickOf o m ls)
    (hm : m.NamesHarmless) {x : PyText} (hx : x = [] ∨ x = ['\n']) :
    parseTick (x ++ linesText ls) =
      .ok (Procs.updateAll .empty (processChanges o m)) := by
  have hlines : splitlines (linesText ls) = ls.map PrintedLine.text := by
    have hall := splitlines_linesText h.clean (h.harmless hm) []
    simpa [splitlines] using hall
  unfold parseTick
  rcases hx with rfl | rfl
  · rw [List.nil_append, hlines]
    exact h.readsAs hm .empty
  · have hfirst : splitlines (['\n'] ++ linesText ls) =
      [] :: splitlines (linesText ls) := rfl
    rw [hfirst, hlines, List.foldlM_cons]
    exact h.readsAs hm .empty

/-- **Decoding a tick undoes its print.**  The names may be anything without a
line boundary and without the marker, and they may look like keys and values.
What was written before the tick and what has been written after it do not
matter. -/
theorem tick_decode_undoes_print {o : PrintOrder} {m : Maps}
    (hm : m.NamesHarmless)
    {ls : List PrintedLine} (hls : TickOf o m ls) {before after : Bytes}
    (hbefore : TickStart before)
    (hafter : ¬ tickMarker <:+: readAll (some after)) :
    ∃ procs, parseTick ((lastComplete
      (readAll (some (before ++
        (logBytes (ls.map Entry.line ++ [.mark]) ++ after))))).getD [])
        = .ok procs ∧ Decoded m procs := by
  obtain ⟨x, hx, hlast⟩ :=
    lastComplete_readAll hbefore hls.clean (hls.harmless hm) hafter
  refine ⟨_, ?_, decoded_updateAll o m⟩
  rw [hlast, Option.getD_some]
  exact hls.parseTick_eq hm hx

end

/-- The name `]: 5`. -/
def nameLikeValue : Comm := ⟨[93, 58, 32, 53], by decide, by decide⟩

/-- The name `7, 8`. -/
def nameLikeKeys : Comm := ⟨[55, 44, 32, 56], by decide, by decide⟩

/-- A process that changed its name, with one thread. -/
def renamedProcess : Maps where
  procOps := (Counters.add (Counters.add .empty (0, 7, nameLikeValue) 2)
    (0, 7, nameLikeKeys) 1)
  procBytes := Counters.add .empty (0, 7) 8192
  procRd := Counters.add .empty (0, 7) 2
  procBs := Counters.add .empty (0, 7, 4096) 2
  procQ := Counters.add .empty (0, 7, 1) 3
  thrOps := Counters.add (Counters.add .empty (0, 7, 9, nameLikeValue) 2)
    (0, 7, 9, nameLikeKeys) 1

theorem tick_decode_undoes_print_renamedProcess :
    ∃ procs, @parseTick UnicodeDb.ascii
      ((lastComplete (readAll (some (Entry.mark.bytes ++
      (logBytes ((PrintedLine.plain attachedLine ::
        tickLines .inserted renamedProcess).map Entry.line
        ++ [.mark]) ++ ascii "@proc_ops[0, 7, x".toList))))).getD []) =
          .ok procs ∧
        Decoded renamedProcess procs := by
  have hnames : renamedProcess.NamesHarmless := by
    have hkeys : (∀ k ∈ renamedProcess.procOps.keys, k.2.2 = nameLikeValue ∨
        k.2.2 = nameLikeKeys) ∧
        ∀ k ∈ renamedProcess.thrOps.keys, k.2.2.2 = nameLikeValue ∨
          k.2.2.2 = nameLikeKeys := by
      decide
    have hvalue : nameLikeValue.Harmless := by
      unfold Comm.Harmless
      decide
    have hlike : nameLikeKeys.Harmless := by
      unfold Comm.Harmless
      decide
    have hboth : ∀ n, n = nameLikeValue ∨ n = nameLikeKeys → n.Harmless := by
      intro n hn
      rcases hn with rfl | rfl
      · exact hvalue
      · exact hlike
    exact ⟨fun k hk => hboth _ (hkeys.1 k hk), fun k hk =>
      hboth _ (hkeys.2 k hk)⟩
  have hevents : ∀ l ∈ [PrintedLine.plain attachedLine], IsEventLine l := by
    intro l hl
    exact Or.inl (List.mem_singleton.mp hl)
  exact @tick_decode_undoes_print UnicodeDb.ascii _ _ hnames _
    (tickOf_tickLines .inserted renamedProcess hevents) _ _
      (Or.inr ⟨[], Or.inl rfl, rfl⟩)
    (by decide +kernel)

end Telemetryd
