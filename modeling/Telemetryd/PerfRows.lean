import Mathlib.Data.Int.Interval
import Telemetryd.PerfTick

/-!
# The rows of the performance view

A queue of a controller is a key of one of its six queue maps, and the view
should have a row for each queue and no other.  It has a row for each pair of
keys of the tick.  So it is right exactly when no process that did I/O on the
controller has a pid that is not also the number of a queue.
-/

namespace Telemetryd

open PyText Regex Utf8

/-! ### Queues and processes of a tick -/

/-- The entries of a map with two keys, as integers. -/
def intItems (m : Counters Key2) : List ((Int × Int) × Int) :=
  m.items.map (fun e => ((e.1.1.toInt, e.1.2.toInt), (e.2.toNat : Int)))

/-- The map has the key `(c, q)`. -/
def HasKey (m : Counters Key2) (c q : Int) : Prop :=
  (c, q) ∈ (intItems m).map Prod.fst

/-- The value under the key `(c, q)`, 0 if it is not there. -/
def valueAt (m : Counters Key2) (c q : Int) : Int :=
  (OrderedDict.look (c, q) (intItems m)).getD 0

/-- A queue with the number `q` was used. -/
def Maps.IsQueue (m : Maps) (c q : Int) : Prop :=
  HasKey m.opCount c q ∨ HasKey m.readCount c q ∨ HasKey m.writeCount c q ∨
    HasKey m.bytesSum c q ∨ HasKey m.latSum c q ∨ HasKey m.latCount c q

/-- A process with the number `t` is counted in a map with two keys. -/
def Maps.IsProcess (m : Maps) (c t : Int) : Prop :=
  HasKey m.procBytes c t ∨ HasKey m.procRd c t ∨ HasKey m.procWr c t ∨
    HasKey m.procLatSum c t ∨
    HasKey m.procLatCnt c t ∨ HasKey m.procSeq c t ∨ HasKey m.procRand c t

instance (m : Counters Key2) (c q : Int) : Decidable (HasKey m c q) :=
  inferInstanceAs (Decidable (_ ∈ _))

instance (m : Maps) (c q : Int) : Decidable (m.IsQueue c q) :=
  inferInstanceAs (Decidable (_ ∨ _ ∨ _ ∨ _ ∨ _ ∨ _))

instance (m : Maps) (c q : Int) : Decidable (m.IsProcess c q) :=
  inferInstanceAs (Decidable (_ ∨ _ ∨ _ ∨ _ ∨ _ ∨ _ ∨ _))

/-- A row has the counters of its queue. -/
structure RowOf (m : Maps) (c : Int) (r : QueuePerf) : Prop where
  iops : r.iops = valueAt m.opCount c r.qid
  readIops : r.readIops = valueAt m.readCount c r.qid
  writeIops : r.writeIops = valueAt m.writeCount c r.qid
  bandwidth : r.bandwidthBytesPerSec = valueAt m.bytesSum c r.qid
  avgLatency : r.avgLatencyUs = if valueAt m.latCount c r.qid = 0 then 0
    else (valueAt m.latSum c r.qid : ℚ) / valueAt m.latCount c r.qid / 1000

/-- The rows are those of the queues. -/
structure RowsExact (m : Maps) (c : Int) (rows : List QueuePerf) : Prop where
  nodup : (rows.map QueuePerf.qid).Nodup
  qids : ∀ q, q ∈ rows.map QueuePerf.qid ↔ m.IsQueue c q
  counters : ∀ r ∈ rows, RowOf m c r

/-! ### Reading the maps -/

/-- Different words are different keys. -/
theorem intKey_injective :
    Function.Injective (fun k : Key2 => (k.1.toInt, k.2.toInt)) := by
  intro a b h
  obtain ⟨h1, h2⟩ := Prod.mk.inj h
  exact Prod.ext (Int64.toInt_inj.mp h1) (Int64.toInt_inj.mp h2)

/-- A map has each key once. -/
theorem nodup_intItems (m : Counters Key2) :
    ((intItems m).map Prod.fst).Nodup := by
  have hfst : (intItems m).map Prod.fst
      = (m.items.map Prod.fst).map (fun k => (k.1.toInt, k.2.toInt)) := by
    simp [intItems]
  rw [hfst]
  exact m.nodup.map intKey_injective

/-- What is read of a map are its entries. -/
theorem perm_readItems (o : PrintOrder) (tick : Nat) (name : PyText)
    (m : Counters Key2) :
    (readItems o tick name m).Perm (intItems m) :=
  (o.perm tick name m.items).map _

/-- So each key is read once. -/
theorem nodup_readItems (o : PrintOrder) (tick : Nat) (name : PyText)
    (m : Counters Key2) :
    ((readItems o tick name m).map Prod.fst).Nodup :=
  ((perm_readItems o tick name m).map Prod.fst).nodup_iff.mpr (nodup_intItems m)

/-- The order of the lines does not matter for a value. -/
theorem look_readItems (o : PrintOrder) (tick : Nat) (name : PyText)
    (m : Counters Key2) (k : Int × Int) :
    OrderedDict.look k (readItems o tick name m) =
      OrderedDict.look k (intItems m) :=
  OrderedDict.look_eq_of_perm (perm_readItems o tick name m)
    (nodup_readItems o tick name m) k

/-- Nor does it for whether a key is there. -/
theorem mem_readItems_iff (o : PrintOrder) (tick : Nat) (name : PyText)
    (m : Counters Key2) (c q : Int) :
    (c, q) ∈ (readItems o tick name m).map Prod.fst ↔ HasKey m c q :=
  ((perm_readItems o tick name m).map Prod.fst).mem_iff

/-- A key is in the range of a word. -/
theorem hasKey_range {m : Counters Key2} {c q : Int} (h : HasKey m c q) :
    -2 ^ 63 ≤ q ∧ q < 2 ^ 63 := by
  obtain ⟨e, he, heq⟩ := List.mem_map.mp h
  obtain ⟨e', -, rfl⟩ := List.mem_map.mp he
  obtain ⟨-, rfl⟩ := Prod.mk.inj heq
  exact ⟨e'.1.2.le_toInt, e'.1.2.toInt_lt⟩

/-- So is a value. -/
theorem look_intItems_range {m : Counters Key2} {k : Int × Int} {v : Int}
    (h : OrderedDict.look k (intItems m) = some v) :
    ∃ n : Nat, v = n ∧ n < 2 ^ 64 := by
  rw [OrderedDict.look_eq_some_iff (nodup_intItems m)] at h
  obtain ⟨e, -, heq⟩ := List.mem_map.mp h
  obtain ⟨-, rfl⟩ := Prod.mk.inj heq
  exact ⟨e.2.toNat, rfl, e.2.toNat_lt⟩

section

variable (o : PrintOrder) (m : Maps)

/-- The scalars of a tick are those of its maps. -/
theorem value_tickScalars (k : Int × Int) (name : PyText) :
    (tickScalars o m).value k name
      = (OrderedDict.look name (scalarMaps m)).bind (fun t =>
        OrderedDict.look k (intItems t)) := by
  have hnames :
      (((scalarMaps m).map (fun e => (e.1, readItems o m.tick e.1 e.2))).map
      Prod.fst).Nodup := by
    have hfst : ((scalarMaps m).map (fun e =>
        (e.1, readItems o m.tick e.1 e.2))).map Prod.fst
        = ["op_count".toList, "read_count".toList, "write_count".toList,
          "bytes_sum".toList,
          "lat_sum".toList, "lat_count".toList, "proc_bytes".toList,
          "proc_rd".toList,
          "proc_wr".toList, "proc_lat_sum".toList, "proc_lat_cnt".toList,
          "proc_seq".toList,
          "proc_rand".toList] := rfl
    rw [hfst]
    decide
  have hkeys :
      ∀ e ∈ (scalarMaps m).map (fun e => (e.1, readItems o m.tick e.1 e.2)),
      (e.2.map Prod.fst).Nodup := by
    intro e he
    obtain ⟨t, -, rfl⟩ := List.mem_map.mp he
    exact nodup_readItems o _ _ t.2
  have hlook : ∀ l : List (PyText × Counters Key2),
      (OrderedDict.look name (l.map (fun e =>
        (e.1, readItems o m.tick e.1 e.2)))).bind (OrderedDict.look k)
        = (OrderedDict.look name l).bind (fun t =>
          OrderedDict.look k (intItems t)) := by
    intro l
    induction l with
    | nil => rfl
    | cons e l ih =>
        rw [List.map_cons, OrderedDict.look_cons, OrderedDict.look_cons]
        by_cases he : e.1 = name
        · simp [he, look_readItems]
        · simp [he, ih]
  unfold tickScalars
  rw [Scalars.value_foldl hnames hkeys, hlook]
  simp [Scalars.value]

/-- The rows of a tick are those of its queues and its processes. -/
theorem mem_keys_tickScalars (c q : Int) :
    (c, q) ∈ (tickScalars o m).keys ↔ m.IsQueue c q ∨ m.IsProcess c q := by
  have hsome :
      (∃ e ∈ (scalarMaps m).map (fun e => (e.1, readItems o m.tick e.1 e.2)),
      (c, q) ∈ e.2.map Prod.fst) ↔ ∃ e ∈ scalarMaps m, HasKey e.2 c q := by
    constructor
    · intro ⟨e, he, hmem⟩
      obtain ⟨t, ht, rfl⟩ := List.mem_map.mp he
      exact ⟨t, ht, (mem_readItems_iff o _ _ t.2 c q).mp hmem⟩
    · intro ⟨t, ht, hkey⟩
      exact ⟨_, List.mem_map_of_mem ht,
        (mem_readItems_iff o _ _ t.2 c q).mpr hkey⟩
  unfold tickScalars
  rw [Scalars.mem_keys_foldl, hsome, OrderedDict.keys_empty]
  simp only [scalarMaps, List.mem_cons, List.not_mem_nil, or_false,
    exists_eq_or_imp,
    exists_eq_left, Maps.IsQueue, Maps.IsProcess, or_assoc]

/-- A counter of a row is that of its map, 0 if it has none. -/
theorem counter_tickScalars {k : Int × Int} {counters : OrderedDict PyText Int}
    (h : (k, counters) ∈ (tickScalars o m).items) (name : PyText) :
    counter counters name = (((OrderedDict.look name (scalarMaps m)).bind
      (fun t => OrderedDict.look k (intItems t))).getD 0) := by
  have hget : (tickScalars o m).get? k = some counters :=
    OrderedDict.get?_eq_some_iff.mpr h
  rw [← value_tickScalars o m k name, Scalars.value, hget]
  rfl

/-- The counters of a tick are machine words. -/
theorem counter_range {k : Int × Int} {counters : OrderedDict PyText Int}
    (h : (k, counters) ∈ (tickScalars o m).items) (name : PyText) :
    ∃ n : Nat, counter counters name = n ∧ n < 2 ^ 64 := by
  rw [counter_tickScalars o m h name]
  cases hlook : (OrderedDict.look name (scalarMaps m)).bind
      (fun t => OrderedDict.look k (intItems t)) with
  | none => exact ⟨0, rfl, by decide⟩
  | some v =>
      obtain ⟨t, -, ht⟩ := Option.bind_eq_some_iff.mp hlook
      exact look_intItems_range ht

end

/-! ### One row -/

section

/-- The row of `_build_queue_perf`, once nothing is raised. -/
def queueRow (qid : Int) (counters : OrderedDict PyText Int)
    (buckets : List Bucket) :
    QueuePerf where
  qid := qid
  iops := counter counters "op_count".toList
  readIops := counter counters "read_count".toList
  writeIops := counter counters "write_count".toList
  bandwidthBytesPerSec := counter counters "bytes_sum".toList
  avgLatencyUs :=
    (if counter counters "lat_count".toList = 0 then 0
      else (counter counters "lat_sum".toList : ℚ) /
        counter counters "lat_count".toList) / 1000
  p50LatencyUs := percentileNs buckets (1 / 2) / 1000
  p95LatencyUs := percentileNs buckets (95 / 100) / 1000
  p99LatencyUs := percentileNs buckets (99 / 100) / 1000
  p999LatencyUs := percentileNs buckets (999 / 1000) / 1000

/-- Counters within the range of a float give a row. -/
theorem buildQueuePerf_eq_ok {counters : OrderedDict PyText Int}
    (h : ∀ name, ∃ n : Nat, counter counters name = n ∧ n < floatLimit)
    (qid : Int)
    (buckets : List Bucket) :
    buildQueuePerf qid counters buckets =
      .ok (queueRow qid counters buckets) := by
  have hfloat : ∀ name, floatOfInt (counter counters name) =
      .ok (counter counters name : ℚ) := by
    intro name
    obtain ⟨n, hn, hlt⟩ := h name
    rw [hn]
    exact floatOfInt_natCast hlt
  have havg : avgLatency (counter counters "lat_sum".toList)
      (counter counters "lat_count".toList)
      = .ok (if counter counters "lat_count".toList = 0 then 0
        else (counter counters "lat_sum".toList : ℚ) /
          counter counters "lat_count".toList) := by
    unfold avgLatency
    obtain ⟨n, hn, -⟩ := h "lat_count".toList
    obtain ⟨k, hk, hlt⟩ := h "lat_sum".toList
    rw [hn, hk]
    by_cases hzero : n = 0
    · simp [hzero]
    · rw [if_pos (by exact_mod_cast hzero), if_neg (by exact_mod_cast hzero),
        trueDiv_natCast hlt hzero]
      rfl
  unfold buildQueuePerf
  rw [hfloat, hfloat, hfloat, hfloat, havg]
  rfl

/-- A row of the tick has the counters of its queue. -/
theorem rowOf_queueRow (o : PrintOrder) (m : Maps) {c q : Int}
    {counters : OrderedDict PyText Int}
    (h : ((c, q), counters) ∈ (tickScalars o m).items) (buckets : List Bucket) :
    RowOf m c (queueRow q counters buckets) := by
  have hc := counter_tickScalars o m h
  refine ⟨?_, ?_, ?_, ?_, ?_⟩
  · show (counter counters "op_count".toList : ℚ) = valueAt m.opCount c q
    rw [hc]
    rfl
  · show (counter counters "read_count".toList : ℚ) = valueAt m.readCount c q
    rw [hc]
    rfl
  · show (counter counters "write_count".toList : ℚ) = valueAt m.writeCount c q
    rw [hc]
    rfl
  · show (counter counters "bytes_sum".toList : ℚ) = valueAt m.bytesSum c q
    rw [hc]
    rfl
  · have hsum : counter counters "lat_sum".toList = valueAt m.latSum c q := by
      rw [hc]
      rfl
    have hcount : counter counters "lat_count".toList =
        valueAt m.latCount c q := by
      rw [hc]
      rfl
    simp only [queueRow, hsum, hcount]
    split
    · rw [zero_div]
    · rfl

/-! ### The sums -/

/-- A name that occurs once adds its value. -/
theorem sum_filter_look {name : PyText} {l : List (PyText × Int)}
    (h : (l.map Prod.fst).Nodup) :
    ((l.filter (fun e => decide (e.1 = name))).map Prod.snd).sum
      = (OrderedDict.look name l).getD 0 := by
  induction l with
  | nil => rfl
  | cons e l ih =>
      simp only [List.map_cons, List.nodup_cons] at h
      rw [OrderedDict.look_cons]
      by_cases he : e.1 = name
      · have hnone : OrderedDict.look name l = none := by
          rw [← he]
          exact OrderedDict.look_eq_none_iff.mpr h.1
        rw [List.filter_cons_of_pos (by simpa using he), List.map_cons,
          List.sum_cons, ih h.2,
          hnone, if_pos he]
        simp
      · rw [List.filter_cons_of_neg (by simpa using he), if_neg he, ih h.2]

/-- A counter after some more entries. -/
theorem counter_foldl (name : PyText) (items : List (PyText × Int))
    (sums : OrderedDict PyText Int) :
    counter (items.foldl (fun (sums : OrderedDict PyText Int) e =>
      sums.insert e.1 (counter sums e.1 + e.2)) sums) name
      = counter sums name +
        ((items.filter (fun e => decide (e.1 = name))).map Prod.snd).sum := by
  induction items generalizing sums with
  | nil => simp
  | cons e items ih =>
      rw [List.foldl_cons, ih]
      by_cases he : e.1 = name
      · rw [List.filter_cons_of_pos (by simpa using he), List.map_cons,
          List.sum_cons, ← he]
        simp only [counter, OrderedDict.get?_insert_self, Option.getD_some]
        omega
      · rw [List.filter_cons_of_neg (by simpa using he)]
        simp only [counter, OrderedDict.get?_insert_of_ne (Ne.symm he)]

/-- **Each counter is summed over the queues.** -/
theorem counter_sumCounters (cs : List (OrderedDict PyText Int))
    (name : PyText) :
    counter (sumCounters cs) name = (cs.map (fun c => counter c name)).sum := by
  have hzero : counter (OrderedDict.empty : OrderedDict PyText Int) name = 0 :=
    rfl
  unfold sumCounters
  rw [counter_foldl, hzero, zero_add]
  induction cs with
  | nil => rfl
  | cons c cs ih =>
      rw [List.flatMap_cons, List.filter_append, List.map_append,
        List.sum_append, ih,
        sum_filter_look c.nodup, List.map_cons, List.sum_cons]
      rfl

/-- The sum of some words. -/
theorem sum_range {l : List Int} {b : Nat}
    (h : ∀ v ∈ l, ∃ n : Nat, v = n ∧ n < b) :
    ∃ n : Nat, l.sum = n ∧ n ≤ l.length * b := by
  induction l with
  | nil => exact ⟨0, rfl, Nat.zero_le _⟩
  | cons v l ih =>
      obtain ⟨k, hk, hlt⟩ := h v List.mem_cons_self
      obtain ⟨n, hn, hle⟩ := ih (fun x hx => h x (List.mem_cons_of_mem _ hx))
      refine ⟨k + n, by rw [List.sum_cons, hk, hn, Nat.cast_add], ?_⟩
      rw [List.length_cons, Nat.add_mul, Nat.one_mul]
      omega

/-- There are 2^64 words. -/
theorem length_le_of_words {l : List Int} (hnodup : l.Nodup)
    (hwords : ∀ q ∈ l, -2 ^ 63 ≤ q ∧ q < 2 ^ 63) :
    l.length ≤ 2 ^ 64 := by
  have hsub : l.toFinset ⊆ Finset.Ico (-2 ^ 63 : Int) (2 ^ 63) := by
    intro q hq
    rw [Finset.mem_Ico]
    exact hwords q (List.mem_toFinset.mp hq)
  have hcard := Finset.card_le_card hsub
  rwa [List.toFinset_card_of_nodup hnodup, Int.card_Ico] at hcard

/-! ### All rows -/

section

variable (o : PrintOrder) (m : Maps) (c : Int)

/-- The counters of the rows of a controller. -/
def tickEntries : List ((Int × Int) × OrderedDict PyText Int) :=
  deviceCounters ⟨tickScalars o m, .empty⟩ c

/-- The entries of a controller are those with its number. -/
theorem mem_tickEntries {e : (Int × Int) × OrderedDict PyText Int} :
    e ∈ tickEntries o m c ↔ e ∈ (tickScalars o m).items ∧ e.1.1 = c := by
  unfold tickEntries deviceCounters
  rw [List.mem_filter, List.mem_insertionSort, decide_eq_true_iff]

/-- The rows of a controller are those of its queues and its processes. -/
theorem mem_qids_tickEntries (q : Int) :
    q ∈ (tickEntries o m c).map (fun e => e.1.2) ↔ m.IsQueue c q ∨
      m.IsProcess c q := by
  rw [← mem_keys_tickScalars o m c q, OrderedDict.keys, List.mem_map,
    List.mem_map]
  constructor
  · rintro ⟨e, he, hq⟩
    obtain ⟨hmem, hc⟩ := (mem_tickEntries o m c).mp he
    exact ⟨e, hmem, Prod.ext hc hq⟩
  · rintro ⟨e, he, heq⟩
    refine ⟨e, (mem_tickEntries o m c).mpr ⟨he, ?_⟩, ?_⟩
    · rw [heq]
    · rw [heq]

/-- Each has one row. -/
theorem nodup_qids_tickEntries :
    ((tickEntries o m c).map (fun e => e.1.2)).Nodup := by
  have hkeys : ((tickEntries o m c).map Prod.fst).Nodup := by
    have hsorted :
        (((tickScalars o m).items.insertionSort keyLE).map Prod.fst).Nodup :=
      ((List.perm_insertionSort keyLE _).map Prod.fst).nodup_iff.mpr
        (tickScalars o m).nodup
    exact hsorted.sublist (List.filter_sublist.map _)
  have hmap : (tickEntries o m c).map (fun e => e.1.2)
      = ((tickEntries o m c).map Prod.fst).map Prod.snd := by simp
  rw [hmap]
  refine hkeys.map_on ?_
  intro a ha b hb hab
  obtain ⟨ea, hea, rfl⟩ := List.mem_map.mp ha
  obtain ⟨eb, heb, rfl⟩ := List.mem_map.mp hb
  have h1 := ((mem_tickEntries o m c).mp hea).2
  have h2 := ((mem_tickEntries o m c).mp heb).2
  exact Prod.ext (h1.trans h2.symm) hab

/-- A row is that of its entry. -/
theorem qids_rows (buckets : Int × Int → List Bucket) :
    ((tickEntries o m c).map (fun e => queueRow e.1.2 e.2 (buckets e.1))).map
      QueuePerf.qid
      = (tickEntries o m c).map (fun e => e.1.2) := by
  rw [List.map_map]
  rfl

/-- There are not more rows than words. -/
theorem length_tickEntries_le : (tickEntries o m c).length ≤ 2 ^ 64 := by
  have hle := length_le_of_words (nodup_qids_tickEntries o m c) fun q hq => by
    have hq := (mem_qids_tickEntries o m c q).mp hq
    unfold Maps.IsQueue Maps.IsProcess at hq
    rcases hq with (h | h | h | h | h | h) | (h | h | h | h | h | h | h) <;>
      exact hasKey_range h
  rwa [List.length_map] at hle

/-- The sums of a controller fit into a float. -/
theorem sums_range (name : PyText) :
    ∃ n : Nat, counter (sumCounters ((tickEntries o m c).map Prod.snd)) name =
      n ∧
      n < floatLimit := by
  have hwords :
      ∀ v ∈ ((tickEntries o m c).map Prod.snd).map (fun cs => counter cs name),
      ∃ n : Nat, v = n ∧ n < 2 ^ 64 := by
    intro v hv
    obtain ⟨cs, hcs, rfl⟩ := List.mem_map.mp hv
    obtain ⟨e, he, rfl⟩ := List.mem_map.mp hcs
    exact counter_range o m ((mem_tickEntries o m c).mp he).1 name
  obtain ⟨n, hn, hle⟩ := sum_range hwords
  rw [counter_sumCounters]
  refine ⟨n, hn, lt_floatLimit_of_lt_two_pow (k := 129) ?_ (by decide)⟩
  rw [List.length_map, List.length_map] at hle
  have hlen := length_tickEntries_le o m c
  have hmul : (tickEntries o m c).length * 2 ^ 64 ≤ 2 ^ 64 * 2 ^ 64 :=
    Nat.mul_le_mul_right _ hlen
  omega

end

/-! ### The view -/

section

variable [UnicodeDb] (o : PrintOrder) (m : Maps)

/-- The line of an event is ignored. -/
theorem ignored_event {l : PrintedLine} (h : IsEventLine l) :
    Ignored l.text := by
  obtain ⟨c, t, ht, hc⟩ := h.first
  rw [ht]
  refine ignored_of_first ?_ ?_ t
  · rcases hc with rfl | rfl | rfl <;> decide
  · rcases hc with rfl | rfl | rfl <;> decide

/-- The names of the processes in a tick are no part of its format. -/
def HarmlessNames : Prop := ∀ l ∈ tickLines o m, ∀ c ∈ l.name?, c.Harmless

/-- A log whose last complete tick is printed from the maps `m`: something that
ends with the marker of another tick, lines of events, the tick, and what has
been written since. -/
structure LastTickOf (log : Bytes) : Prop where
  split : ∃ before events after, TickStart before ∧
    (∀ l ∈ events, IsEventLine l) ∧
    ¬ tickMarker <:+: readAll (some after) ∧
    log = before ++
      (logBytes ((events ++ tickLines o m).map Entry.line ++ [.mark]) ++ after)

/-- The rows of a controller. -/
def queueRows (c : Int) (buckets : Int × Int → List Bucket) : List QueuePerf :=
  (tickEntries o m c).map (fun e => queueRow e.1.2 e.2 (buckets e.1))

/-- The row of the whole controller, if it has a row at all. -/
def aggregateRow (c : Int) (buckets : Int × Int → List Bucket) :
    Option QueuePerf :=
  if queueRows o m c buckets = [] then none
  else some (queueRow (-1) (sumCounters ((tickEntries o m c).map Prod.snd))
    (mergeBuckets ((tickEntries o m c).map (fun e => buckets e.1))))

/-- **What the view shows** of the counters of a tick. -/
theorem readLatestPerformance_of_parsed {log : Bytes}
    {hists : OrderedDict (Int × Int) (List Bucket)}
    (hparse : parseLastCompleteTick (readAll (some log)) =
      .ok ⟨tickScalars o m, hists⟩) (c : Int) :
    readLatestPerformance (some log) c =
      .ok (queueRows o m c (fun k => (hists.get? k).getD []),
      aggregateRow o m c (fun k => (hists.get? k).getD [])) := by
  have hentries : deviceCounters ⟨tickScalars o m, hists⟩ c =
    tickEntries o m c := rfl
  have hrows : (tickEntries o m c).mapM (fun e => buildQueuePerf e.1.2 e.2
      ((hists.get? e.1).getD [])) =
        .ok (queueRows o m c (fun k => (hists.get? k).getD [])) := by
    refine Fallible.mapM_eq_ok_of_forall fun e he => ?_
    refine buildQueuePerf_eq_ok (fun name => ?_) _ _
    obtain ⟨n, hn, hlt⟩ :=
      counter_range o m ((mem_tickEntries o m c).mp he).1 name
    exact ⟨n, hn, lt_floatLimit_of_lt hlt⟩
  have haggregate := buildQueuePerf_eq_ok (sums_range o m c) (-1)
    (mergeBuckets ((tickEntries o m c).map (fun e => (hists.get? e.1).getD [])))
  unfold readLatestPerformance
  rw [if_neg (by simp), hparse]
  simp only [bind, Except.bind, hentries, hrows, haggregate, pure, Except.pure]
  unfold aggregateRow
  split
  case isTrue hnil => rw [hnil]
  case isFalse => rfl

omit [UnicodeDb] in
/-- The lines of events are clean and name no process, like those of the
tick. -/
theorem clean_eventLines (hnames : HarmlessNames o m)
    {events : List PrintedLine}
    (hevents : ∀ l ∈ events, IsEventLine l) :
    (∀ l ∈ events ++ tickLines o m, l.Clean) ∧ ∀ l ∈ events ++ tickLines o m,
      ∀ n ∈ l.name?, n.Harmless := by
  constructor
  · intro l hl
    rcases List.mem_append.mp hl with hl | hl
    · exact (hevents l hl).clean.1
    · exact clean_tickLines o m l hl
  · intro l hl n hn
    rcases List.mem_append.mp hl with hl | hl
    · rw [(hevents l hl).clean.2] at hn
      exact absurd hn (by simp)
    · exact hnames l hl n hn

/-- The text of a tick, with the events before it. -/
theorem parseSegment_tickLines (hnames : HarmlessNames o m)
    {events : List PrintedLine}
    (hevents : ∀ l ∈ events, IsEventLine l) :
    ∃ hists, parseSegment (linesText (events ++ tickLines o m)) =
      .ok ⟨tickScalars o m, hists⟩ := by
  obtain ⟨hclean, hharmless⟩ := clean_eventLines o m hnames hevents
  obtain ⟨hists, htick⟩ := parseFrom_tickLines o m
  refine ⟨hists, ?_⟩
  have hignored : ∀ l ∈ events.map PrintedLine.text, Ignored l := by
    intro l hl
    obtain ⟨e, he, rfl⟩ := List.mem_map.mp hl
    exact ignored_event (hevents e he)
  have hlines : splitlines (linesText (events ++ tickLines o m))
      = events.map PrintedLine.text ++
        (tickLines o m).map PrintedLine.text := by
    have := splitlines_linesText hclean hharmless []
    rw [List.append_nil] at this
    rw [this, List.map_append]
    exact List.append_nil _
  unfold parseSegment
  rw [hlines, parseFrom_ignoredAll hignored, htick]

/-- What the reader makes of a log with that tick at its end. -/
theorem parse_lastTickOf (hnames : HarmlessNames o m) {log : Bytes}
    (hlog : LastTickOf o m log) :
    ∃ hists, parseLastCompleteTick (readAll (some log)) =
      .ok ⟨tickScalars o m, hists⟩ := by
  obtain ⟨before, events, after, hbefore, hevents, hafter, rfl⟩ := hlog.split
  obtain ⟨hclean, hharmless⟩ := clean_eventLines o m hnames hevents
  obtain ⟨x, hx, hlast⟩ := lastComplete_readAll hbefore hclean hharmless hafter
  obtain ⟨hists, htick⟩ := parseSegment_tickLines o m hnames hevents
  have hparse : parseSegment (x ++ linesText (events ++ tickLines o m)) =
      .ok ⟨tickScalars o m, hists⟩ := by
    rcases hx with rfl | rfl
    · exact htick
    · have hfirst : splitlines (['\n'] ++ linesText (events ++ tickLines o m))
          = [] :: splitlines (linesText (events ++ tickLines o m)) := rfl
      rw [← htick]
      unfold parseSegment
      rw [hfirst, parseFrom_ignored ignored_nil]
  exact ⟨hists, by rw [parseLastCompleteTick, hlast]; exact hparse⟩

/-- The view has a row for each pair of keys of the tick. -/
theorem readLatestPerformance_eq (hnames : HarmlessNames o m) {log : Bytes}
    (hlog : LastTickOf o m log) (c : Int) :
    ∃ (buckets : Int × Int → List Bucket) (aggregate : Option QueuePerf),
      readLatestPerformance (some log) c
        = .ok ((tickEntries o m c).map (fun e =>
          queueRow e.1.2 e.2 (buckets e.1)), aggregate) := by
  obtain ⟨hists, hparse⟩ := parse_lastTickOf o m hnames hlog
  refine ⟨fun k => (hists.get? k).getD [], ?_⟩
  rw [readLatestPerformance_of_parsed o m hparse]
  exact ⟨_, rfl⟩

/-- Every process has a row, so it must be a queue. -/
theorem queue_of_process (hnames : HarmlessNames o m) {log : Bytes}
    (hlog : LastTickOf o m log)
    {c : Int} (hexact : ∃ rows aggregate, readLatestPerformance (some log) c =
      .ok (rows, aggregate) ∧
      RowsExact m c rows) {t : Int} (ht : m.IsProcess c t) : m.IsQueue c t := by
  obtain ⟨buckets, aggregate, hread⟩ :=
    readLatestPerformance_eq o m hnames hlog c
  obtain ⟨rows, agg, hok, hexact⟩ := hexact
  rw [hread] at hok
  obtain ⟨rfl, -⟩ := Prod.mk.inj (Except.ok.inj hok)
  refine (hexact.qids t).mp ?_
  rw [qids_rows]
  exact (mem_qids_tickEntries o m c t).mpr (Or.inr ht)

/-- **When the view lists exactly the queues**: every process counted on the
controller has a number that is also the number of a queue used on it. -/
theorem queue_rows_exact_iff (hnames : HarmlessNames o m) {log : Bytes}
    (hlog : LastTickOf o m log)
    (c : Int) :
    (∃ rows aggregate, readLatestPerformance (some log) c =
      .ok (rows, aggregate) ∧
      RowsExact m c rows) ↔ ∀ t, m.IsProcess c t → m.IsQueue c t := by
  constructor
  · exact fun hexact t ht => queue_of_process o m hnames hlog hexact ht
  · intro hall
    obtain ⟨buckets, aggregate, hread⟩ :=
      readLatestPerformance_eq o m hnames hlog c
    refine ⟨_, aggregate, hread, ?_, ?_, ?_⟩
    · rw [qids_rows]
      exact nodup_qids_tickEntries o m c
    · intro q
      rw [qids_rows, mem_qids_tickEntries]
      constructor
      · intro h
        rcases h with h | h
        · exact h
        · exact hall q h
      · exact Or.inl
    · intro r hr
      obtain ⟨⟨⟨c', q⟩, counters⟩, he, rfl⟩ := List.mem_map.mp hr
      obtain ⟨hmem, rfl⟩ := (mem_tickEntries o m c).mp he
      exact rowOf_queueRow o m hmem _

end

/-! ### Two ticks -/

/-- A log that holds one tick and nothing else. -/
theorem lastTickOf_single (o : PrintOrder) (m : Maps) :
    LastTickOf o m (logBytes ((tickLines o m).map Entry.line ++ [.mark])) := by
  refine ⟨[], [], [], Or.inl rfl, fun l hl => absurd hl List.not_mem_nil, ?_,
    ?_⟩
  · exact fun h => absurd (List.infix_nil.mp h) tickMarker_ne_nil
  · rw [List.nil_append, List.append_nil, List.nil_append]

/-- One command on queue 1 of controller 0. -/
def oneQueue : Maps := { opCount := OrderedDict.empty.insert (0, 1) 1 }

/-- The view of it is right. -/
theorem oneQueue_rows_exact :
    ∃ rows aggregate, @readLatestPerformance UnicodeDb.ascii
        (some (logBytes ((tickLines .inserted oneQueue).map Entry.line ++
          [.mark]))) 0
      = .ok (rows, aggregate) ∧ RowsExact oneQueue 0 rows := by
  have hnames : HarmlessNames .inserted oneQueue := by
    have hnone : ∀ l ∈ tickLines .inserted oneQueue, l.name? = none := by decide
    intro l hl c hc
    rw [hnone l hl] at hc
    exact absurd hc (by simp)
  have hprocess : ∀ t, oneQueue.IsProcess 0 t → oneQueue.IsQueue 0 t := by
    intro t ht
    simp [Maps.IsProcess, HasKey, intItems, oneQueue] at ht
  exact (@queue_rows_exact_iff UnicodeDb.ascii .inserted oneQueue hnames _
    (lastTickOf_single .inserted oneQueue) 0).mpr hprocess

/-- The same, and the process 4242 that issued the command. -/
def oneProcess : Maps :=
  { opCount := OrderedDict.empty.insert (0, 1) 1
    procBytes := OrderedDict.empty.insert (0, 4242) 4096 }

/-- The view of it has a queue 4242. -/
theorem oneProcess_listed_as_queue :
    ¬ ∃ rows aggregate, @readLatestPerformance UnicodeDb.ascii
        (some (logBytes ((tickLines .inserted oneProcess).map Entry.line ++
          [.mark]))) 0
      = .ok (rows, aggregate) ∧ RowsExact oneProcess 0 rows := by
  have hnames : HarmlessNames .inserted oneProcess := by
    have hnone : ∀ l ∈ tickLines .inserted oneProcess, l.name? = none := by
      decide
    intro l hl c hc
    rw [hnone l hl] at hc
    exact absurd hc (by simp)
  intro hexact
  have hqueue := @queue_of_process UnicodeDb.ascii .inserted oneProcess hnames _
    (lastTickOf_single .inserted oneProcess) 0 hexact 4242 (by decide)
  exact absurd hqueue (by decide)

end

end Telemetryd
