import Telemetryd.PerfDecode
import Telemetryd.PerfPercentile
import Telemetryd.TickConservation

/-!
# The histograms of a tick in the performance view

Only the rows of `lat_hist` give buckets.  The buckets of a queue are the rows
of its histogram up to the first that is not recognised, so they count the
latencies below 2^39 ns if the lowest row is recognised, and else none at all.
-/

namespace Telemetryd

open PyText Regex Utf8 Quantile

/-! ### Lines without buckets -/

section

variable [UnicodeDb]

/-- A line that is ignored, or a counter with two keys. -/
def NoBuckets (line : PyText) : Prop :=
  Ignored line ∨ ∃ name a b v, IsMapName name ∧ line = mapLine name [a, b] v

/-- Lines without buckets leave the histograms alone. -/
theorem parseFrom_noBuckets {lines : List PyText} (h : ∀ l ∈ lines, NoBuckets l)
    (s : Parsed)
    (rest : List PyText) :
    ∃ scalars, parseFrom s 0 (lines ++ rest) =
      parseFrom { s with scalars := scalars } 0 rest := by
  induction lines generalizing s with
  | nil => exact ⟨s.scalars, rfl⟩
  | cons l lines ih =>
      obtain ⟨hl, hlines⟩ := List.forall_mem_cons.mp h
      rw [List.cons_append]
      rcases hl with hl | ⟨name, a, b, v, hname, rfl⟩
      · rw [parseFrom_ignored hl]
        exact ih hlines s
      · rw [parseFrom_mapLine hname]
        exact ih hlines _

/-- The lines of a map with two keys are such lines. -/
theorem noBuckets_print2 (o : PrintOrder) {tick : Nat} {name : PyText}
    (hname : IsMapName name) (m : Counters Key2) :
    ∀ l ∈ (print2 o tick name m).map PrintedLine.text, NoBuckets l := by
  intro l hl
  obtain ⟨p, hp, rfl⟩ := List.mem_map.mp hl
  obtain ⟨e, -, rfl⟩ := List.mem_map.mp hp
  exact .inr ⟨name, _, _, _, hname, rfl⟩

end

/-! ### The rows of a histogram -/

/-- The buckets that are read of a histogram. -/
def histBuckets (h : Hist) : List Bucket :=
  ((occupiedRange fun i => (h i).toNat).takeWhile readableRow).map
    (rowBucket fun i => (h i).toNat)

/-- The buckets of a histogram are its rows that are not dropped. -/
theorem decodeCounts_hist (h : Hist) :
    decodeCounts (fun i => (h i).toNat) = .ok (histBuckets h) :=
  decodeCounts_eq_ok_iff.mpr ⟨fun i _ =>
    PyText.lt_maxStrDigits_of_lt (h i).toNat_lt, rfl⟩

/-- An empty histogram has no buckets. -/
theorem histBuckets_zero : histBuckets (fun _ => 0) = [] := by
  have hnone : occupiedRange (fun _ => (0 : UInt64).toNat) = [] := by
    refine List.eq_nil_iff_forall_not_mem.mpr fun i hi => ?_
    obtain ⟨low, -, hlow, -⟩ := exists_of_mem_occupiedRange hi
    exact hlow rfl
  unfold histBuckets
  rw [hnone]
  rfl

/-- The buckets of some queues. -/
abbrev Hists := OrderedDict (Int × Int) (List Bucket)

/-- The histograms of a map, added one after the other. -/
def Hists.putAll (d : Hists) (es : List (Key2 × Hist)) : Hists :=
  es.foldl (fun d e => d.insert (pairOf e.1.1 e.1.2)
    (((d.get? (pairOf e.1.1 e.1.2)).getD []) ++ histBuckets e.2)) d

/-- The buckets of a tick. -/
def tickHists (o : PrintOrder) (m : Maps) : Hists := 
  Hists.putAll .empty (o.order m.tick "lat_hist".toList m.latHist.items)

/-- **What is added for a queue.** -/
theorem Hists.getD_putAll {es : List (Key2 × Hist)}
    (hes : (es.map Prod.fst).Nodup) (d : Hists)
    (c q : Int64) :
    ((d.putAll es).get? (pairOf c q)).getD [] = (d.get? (pairOf c q)).getD [] ++
      histBuckets ((OrderedDict.look (c, q) es).getD (fun _ => 0)) := by
  induction es generalizing d with
  | nil =>
      show (d.get? (pairOf c q)).getD [] = _ ++ histBuckets (fun _ => 0)
      rw [histBuckets_zero, List.append_nil]
  | cons e es ih =>
      obtain ⟨hnot, hes⟩ := List.nodup_cons.mp hes
      have hstep :
        d.putAll (e :: es) = Hists.putAll (d.insert (pairOf e.1.1 e.1.2)
        (((d.get? (pairOf e.1.1 e.1.2)).getD []) ++ histBuckets e.2)) es := rfl
      rw [hstep, ih hes, OrderedDict.look_cons]
      by_cases hk : e.1 = (c, q)
      · have hnone : OrderedDict.look (c, q) es = none :=
          OrderedDict.look_eq_none_iff.mpr (hk ▸ hnot)
        rw [if_pos hk, hnone, hk, OrderedDict.get?_insert_self,
          Option.getD_none, histBuckets_zero,
          List.append_nil]
        rfl
      · have hne : pairOf c q ≠ pairOf e.1.1 e.1.2 := by
          intro heq
          obtain ⟨rfl, rfl⟩ := Prod.mk.inj (pairOf_eq_iff.mp heq)
          exact hk rfl
        rw [if_neg hk, OrderedDict.get?_insert_of_ne hne]

/-- **The buckets of a queue** are those of its histogram. -/
theorem getD_tickHists (o : PrintOrder) (m : Maps) (c q : Int64) :
    ((tickHists o m).get? (pairOf c q)).getD [] =
      histBuckets ((m.latHist.get? (c, q)).getD (fun _ => 0)) := by
  have hperm := o.perm m.tick "lat_hist".toList m.latHist.items
  have hnodup := (hperm.map Prod.fst).nodup_iff.mpr m.latHist.nodup
  rw [tickHists, Hists.getD_putAll hnodup,
    OrderedDict.look_eq_of_perm hperm hnodup]
  rfl

/-! ### What the buckets count -/

/-- Where a property ends in an ordered list, it ends for good. -/
theorem takeWhile_eq_filter {α : Type} {p : α → Bool} {l : List α}
    (h : l.Pairwise fun a b => p b = true → p a = true) :
    l.takeWhile p = l.filter p := by
  induction l with
  | nil => rfl
  | cons a l ih =>
      obtain ⟨hfirst, hrest⟩ := List.pairwise_cons.mp h
      by_cases ha : p a = true
      · rw [List.takeWhile_cons_of_pos ha, List.filter_cons_of_pos ha, ih hrest]
      · rw [List.takeWhile_cons_of_neg ha, List.filter_cons_of_neg ha]
        exact (List.filter_eq_nil_iff.mpr fun b hb hp =>
          ha (hfirst b hb hp)).symm

/-- The rows are printed in their order. -/
theorem pairwise_occupiedRange (counts : Fin 65 → Nat) :
    (occupiedRange counts).Pairwise (· < ·) := by
  have hdown : (List.finRange 65).reverse.Pairwise (· > ·) :=
    List.pairwise_reverse.mpr (List.pairwise_lt_finRange 65)
  unfold occupiedRange
  rw [List.pairwise_reverse]
  refine List.Pairwise.sublist (List.dropWhile_suffix _).sublist ?_
  rw [List.pairwise_reverse]
  exact (List.pairwise_lt_finRange 65).sublist (List.dropWhile_suffix _).sublist

/-- A histogram of some latencies, as the collector counts them. -/
def Hist.Records (h : Hist) (latencies : List UInt64) : Prop :=
  ∀ i, (h i).toNat = latencies.countP fun y => decide (histIndex y.toInt64 = i)

/-- No latency is in a row below those that are recognised: that of 0, that of 1
and that of the negative numbers. -/
def NoneLow (latencies : List UInt64) : Prop :=
  ∀ y ∈ latencies, 2 ≤ y.toNat ∧ y.toNat < 2 ^ 63

instance (latencies : List UInt64) : Decidable (NoneLow latencies) :=
  List.decidableBAll _ latencies

/-- The latencies that are seen in the view. -/
def seenLatencies (latencies : List UInt64) : List UInt64 :=
  latencies.filter fun y => decide (NoneLow latencies ∧ y.toNat < 2 ^ 39)

/-- Some latencies, in nanoseconds. -/
def inNanoseconds (latencies : List UInt64) : Multiset Int :=
  latencies.map fun y => (y.toNat : Int)

/-- A latency below 2^63 is not negative. -/
theorem toInt_toInt64 {y : UInt64} (h : y.toNat < 2 ^ 63) :
    y.toInt64.toInt = y.toNat := by
  rw [Failed.toInt_toInt64, if_pos h]

/-- Its row is that of its value. -/
theorem histIndex_toInt64 {y : UInt64} (h : y.toNat < 2 ^ 63) :
    histIndex y.toInt64 = latencyRow y.toNat := by
  have hint := toInt_toInt64 h
  rw [histIndex_eq_latencyRow (by omega), hint, Int.toNat_natCast]

/-- A latency from 2 ns on is in a row of its own power. -/
theorem three_le_latencyRow {n : Nat} (h : 2 ≤ n) (hlt : n < 2 ^ 63) :
    3 ≤ (latencyRow n).val := by
  have hne : n ≠ 0 := by omega
  have hlog : Nat.log2 n < 63 := (Nat.log2_lt hne).mpr hlt
  have hone : 1 ≤ Nat.log2 n := (Nat.le_log2 hne).mpr h
  have hval : (Fin.ofNat 65 (2 + Nat.log2 n)).val = 2 + Nat.log2 n :=
    Nat.mod_eq_of_lt (by omega)
  rw [latencyRow, if_neg hne, hval]
  omega

/-- A latency that is low is in one of the first three rows. -/
theorem histIndex_low {y : UInt64} (h : ¬ (2 ≤ y.toNat ∧ y.toNat < 2 ^ 63)) :
    (histIndex y.toInt64).val ≤ 2 := by
  by_cases hneg : y.toNat < 2 ^ 63
  · have hint := toInt_toInt64 hneg
    have hle : y.toNat = 0 ∨ y.toNat = 1 := by omega
    unfold histIndex
    rw [hint]
    rcases hle with h0 | h1
    · rw [h0]
      decide
    · rw [h1]
      decide
  · have hint : y.toInt64.toInt < 0 := by
      rw [Failed.toInt_toInt64, if_neg hneg]
      have := y.toNat_lt
      omega
    unfold histIndex
    rw [if_pos hint]
    decide

section

variable {h : Hist} {latencies : List UInt64}

/-- A recorded latency has a row that is not 0. -/
theorem Hist.Records.ne_zero (hr : h.Records latencies) {y : UInt64}
    (hy : y ∈ latencies) :
    (h (histIndex y.toInt64)).toNat ≠ 0 := by
  rw [hr]
  exact (List.countP_pos_iff.mpr ⟨y, hy, decide_eq_true rfl⟩).ne'

/-- With a low latency no bucket is read. -/
theorem Hist.Records.buckets_eq_nil (hr : h.Records latencies)
    (hlow : ¬ NoneLow latencies) :
    histBuckets h = [] := by
  obtain ⟨y, hy, hbad⟩ : ∃ y ∈ latencies,
      ¬ (2 ≤ y.toNat ∧ y.toNat < 2 ^ 63) := by
    unfold NoneLow at hlow
    push Not at hlow ⊢
    exact hlow
  have hfirst := histIndex_low hbad
  have hmem : histIndex y.toInt64 ∈ occupiedRange fun i => (h i).toNat :=
    mem_occupiedRange (hr.ne_zero hy)
  have hsorted := pairwise_occupiedRange fun i => (h i).toNat
  unfold histBuckets
  cases hrange : occupiedRange fun i => (h i).toNat with
  | nil => rfl
  | cons i rows =>
      rw [hrange] at hmem hsorted
      have hle : i.val ≤ 2 := by
        rcases List.mem_cons.mp hmem with heq | hlater
        · rw [← heq]
          exact hfirst
        · have : i < histIndex y.toInt64 :=
            (List.pairwise_cons.mp hsorted).1 _ hlater
          omega
      have hnot : ¬ readableRow i = true :=
        fun hread => absurd (of_decide_eq_true hread).1 (by omega)
      rw [List.takeWhile_cons_of_neg hnot]
      rfl

/-- Without a low latency the rows are those of the latencies. -/
theorem Hist.Records.counts_eq (hr : h.Records latencies)
    (hlow : NoneLow latencies) :
    (fun i => (h i).toNat) =
      latencyCounts (latencies.map UInt64.toNat : List Nat) := by
  funext i
  rw [hr, latencyCounts, Multiset.coe_countP, List.countP_map]
  refine List.countP_congr fun y hy => ?_
  simp [histIndex_toInt64 (hlow y hy).2]

/-- Without a low latency the rows that are read are those that are
recognised. -/
theorem Hist.Records.takeWhile_eq (hr : h.Records latencies)
    (hlow : NoneLow latencies) :
    (occupiedRange fun i => (h i).toNat).takeWhile readableRow =
      (occupiedRange fun i => (h i).toNat).filter readableRow := by
  have hthree : ∀ i ∈ occupiedRange fun i => (h i).toNat, 3 ≤ i.val := by
    intro i hi
    obtain ⟨low, -, hoccupied, -, hle, -⟩ := exists_of_mem_occupiedRange hi
    have hle' : low.val ≤ i.val := hle
    rw [hr] at hoccupied
    obtain ⟨y, hy, hrow⟩ :=
      List.countP_pos_iff.mp (Nat.pos_of_ne_zero hoccupied)
    obtain ⟨htwo, hlt⟩ := hlow y hy
    have hthree := three_le_latencyRow htwo hlt
    rw [← histIndex_toInt64 hlt, of_decide_eq_true hrow] at hthree
    omega
  refine takeWhile_eq_filter ?_
  refine (pairwise_occupiedRange _).imp_of_mem fun {a b} ha _ hlt hread => ?_
  have hlt' : a.val < b.val := hlt
  have hb : _ ∧ b.val ≤ 40 := of_decide_eq_true hread
  exact decide_eq_true ⟨hthree a ha, by omega⟩

/-- **The buckets are a histogram** of the latencies that are seen. -/
theorem Hist.Records.isHistogram (hr : h.Records latencies) :
    IsHistogram (histBuckets h) (inNanoseconds (seenLatencies latencies)) := by
  have hlog2 : ∀ b ∈ histBuckets h, IsLog2 b := by
    intro b hb
    obtain ⟨i, hi, rfl⟩ := List.mem_map.mp hb
    have hread : readableRow i = true := List.mem_takeWhile_imp hi
    have hthree : 3 ≤ i.val := (of_decide_eq_true hread).1
    refine ⟨i.val - 2, ?_, ?_⟩
    · simp [rowBucket, powersOfTwo]
    · rw [show i.val - 2 + 1 = i.val - 1 by omega]
      simp [rowBucket, powersOfTwo]
  refine ⟨hlog2, ?_⟩
  by_cases hlow : NoneLow latencies
  · set xs : Multiset Nat :=
      Multiset.ofList (latencies.map UInt64.toNat) with hxs
    set rows := (occupiedRange fun i => (h i).toNat).filter readableRow
      with hrows
    have hword : ∀ x ∈ xs, x < 2 ^ 63 := by
      intro x hx
      obtain ⟨y, hy, rfl⟩ := List.mem_map.mp (Multiset.mem_coe.mp hx)
      exact (hlow y hy).2
    have hcounted :=
      counted_rowBuckets hword (hrows ▸
      (nodup_occupiedRange _).filter readableRow)
      fun i hi => (List.mem_filter.mp hi).2
    have hseen : inNanoseconds (seenLatencies latencies) =
        (xs.filter fun x =>
          latencyRow x ∈ rows).map (fun x : Nat => (x : Int)) := by
      rw [hxs, Multiset.filter_coe, Multiset.map_coe, List.filter_map,
        List.map_map]
      refine congrArg inNanoseconds (List.filter_congr fun y hy => ?_)
      have hread := readableRow_latencyRow (hlow y hy).2
      have hmem : latencyRow y.toNat ∈ occupiedRange fun i => (h i).toNat := by
        rw [← histIndex_toInt64 (hlow y hy).2]
        exact mem_occupiedRange (hr.ne_zero hy)
      have hiff : (NoneLow latencies ∧ y.toNat < 2 ^ 39) ↔
          latencyRow y.toNat ∈ rows := by
        rw [hrows, List.mem_filter, hread]
        exact ⟨fun hs => ⟨hmem, (hlow y hy).1, hs.2⟩, fun hs => ⟨hlow, hs.2.2⟩⟩
      exact decide_eq_decide.mpr hiff
    unfold histBuckets
    rw [hr.takeWhile_eq hlow, ← hrows, hr.counts_eq hlow, hseen]
    exact hcounted
  · have hnone : seenLatencies latencies = [] :=
      List.filter_eq_nil_iff.mpr fun y _ hy => hlow (of_decide_eq_true hy).1
    rw [hr.buckets_eq_nil hlow, hnone]
    exact Counted.nil

end

/-! ### A tick -/

section

variable [UnicodeDb]

/-- The lines of a histogram are read as its buckets. -/
theorem parseFrom_histLines_eq {name : PyText} (hname : IsMapName name)
    (a b : Int64) (h : Hist)
    (s : Parsed) (rest : List PyText) :
    parseFrom s 0 (histLines name [a, b] h ++ rest) =
      parseFrom (s.putBuckets (pairOf a b) (histBuckets h)) 0 rest := by
  have hlines :
      histLines name [a, b] h =
      countedLines name a b (fun i => (h i).toNat) := by
    rw [histLines, countedLines, histRows_eq_countedRows]
  rw [hlines, parseFrom_countedLines hname, decodeCounts_hist]
  rfl

variable (o : PrintOrder) {tick : Nat}

/-- So are those of all histograms. -/
theorem parseFrom_printHist_eq {name : PyText} (hname : IsMapName name)
    (m : OrderedDict Key2 Hist)
    (s : Parsed) (rest : List PyText) :
    parseFrom s 0 ((printHist o tick name m).map PrintedLine.text ++ rest) =
      parseFrom { s with hists := Hists.putAll s.hists (o.order tick name m.items) } 0 rest := by
  unfold printHist
  induction o.order tick name m.items generalizing s with
  | nil => rfl
  | cons e es ih =>
      have htext :
          ((histLines name [e.1.1, e.1.2] e.2).map PrintedLine.plain).map
          PrintedLine.text =
          histLines name [e.1.1, e.1.2] e.2 := by
        rw [List.map_map]
        exact List.map_id _
      rw [List.flatMap_cons, List.map_append, htext, List.append_assoc,
        parseFrom_histLines_eq hname]
      exact ih _

/-- The lines of a tick before its histograms. -/
def beforeHists (m : Maps) : List PrintedLine :=
  print2 o m.tick "op_count".toList m.opCount ++
    print2 o m.tick "read_count".toList m.readCount ++
    print2 o m.tick "write_count".toList m.writeCount ++
      print2 o m.tick "bytes_sum".toList m.bytesSum ++
    print2 o m.tick "lat_sum".toList m.latSum ++
      print2 o m.tick "lat_count".toList m.latCount

/-- The lines of a tick after its histograms. -/
def afterHists (m : Maps) : List PrintedLine :=
  print3 o m.tick "err_count".toList m.errCount ++
    printProcOps o m.tick m.procOps ++
    print2 o m.tick "proc_bytes".toList m.procBytes ++
      print2 o m.tick "proc_rd".toList m.procRd ++
    print2 o m.tick "proc_wr".toList m.procWr ++
      print3 o m.tick "proc_bs".toList m.procBs ++
    print3 o m.tick "proc_q".toList m.procQ ++
      print2 o m.tick "proc_lat_sum".toList m.procLatSum ++
    print2 o m.tick "proc_lat_cnt".toList m.procLatCnt ++
      print2 o m.tick "proc_seq".toList m.procSeq ++
    print2 o m.tick "proc_rand".toList m.procRand ++
      printThrOps o m.tick m.thrOps

omit [UnicodeDb] in
/-- A tick in three parts: the histograms are the second. -/
theorem tickLines_eq_hists (m : Maps) : tickLines o m =
    beforeHists o m ++
      (printHist o m.tick "lat_hist".toList m.latHist ++ afterHists o m) := by
  unfold tickLines beforeHists afterHists
  simp only [List.append_assoc]

/-- The first part has no buckets. -/
theorem noBuckets_beforeHists (m : Maps) :
    ∀ l ∈ (beforeHists o m).map PrintedLine.text, NoBuckets l := by
  have h2 := @noBuckets_print2 _ o m.tick
  unfold beforeHists
  simp only [List.map_append, List.forall_mem_append]
  exact ⟨⟨⟨⟨⟨h2 (by decide) _, h2 (by decide) _⟩, h2 (by decide) _⟩,
    h2 (by decide) _⟩,
    h2 (by decide) _⟩, h2 (by decide) _⟩

/-- Nor has the third. -/
theorem noBuckets_afterHists (m : Maps) :
    ∀ l ∈ (afterHists o m).map PrintedLine.text, NoBuckets l := by
  have h2 := @noBuckets_print2 _ o m.tick
  have hignored : ∀ {ls : List PrintedLine},
      (∀ l ∈ ls.map PrintedLine.text, Ignored l) →
      ∀ l ∈ ls.map PrintedLine.text, NoBuckets l := fun h l hl => .inl (h l hl)
  unfold afterHists
  simp only [List.map_append, List.forall_mem_append]
  refine ⟨⟨⟨⟨⟨⟨⟨⟨⟨⟨⟨?_, ?_⟩, ?_⟩, ?_⟩, ?_⟩, ?_⟩, ?_⟩, ?_⟩, ?_⟩, ?_⟩, ?_⟩, ?_⟩
  · exact hignored (ignored_print3 o (by decide) _)
  · exact hignored (ignored_printProcOps o _)
  · exact h2 (by decide) _
  · exact h2 (by decide) _
  · exact h2 (by decide) _
  · exact hignored (ignored_print3 o (by decide) _)
  · exact hignored (ignored_print3 o (by decide) _)
  · exact h2 (by decide) _
  · exact h2 (by decide) _
  · exact h2 (by decide) _
  · exact h2 (by decide) _
  · exact hignored (ignored_printThrOps o _)

/-- **What a tick is parsed into**, the histograms included. -/
theorem parseFrom_tickHists (m : Maps) :
    parseFrom {} 0 ((tickLines o m).map PrintedLine.text) =
      .ok ⟨tickScalars o m, tickHists o m⟩ := by
  obtain ⟨hists, htick⟩ := parseFrom_tickLines o m
  obtain ⟨scalars, hbefore⟩ :=
    parseFrom_noBuckets (noBuckets_beforeHists o m) {}
    ((printHist o m.tick "lat_hist".toList m.latHist).map PrintedLine.text ++
      (afterHists o m).map PrintedLine.text)
  obtain ⟨scalars', hafter⟩ := parseFrom_noBuckets (noBuckets_afterHists o m)
    { scalars := scalars, hists := tickHists o m } []
  have hparse : parseFrom {} 0 ((tickLines o m).map PrintedLine.text) =
      .ok ⟨scalars', tickHists o m⟩ := by
    rw [tickLines_eq_hists, List.map_append, List.map_append, hbefore,
      parseFrom_printHist_eq o (by decide)]
    rw [List.append_nil] at hafter
    exact hafter
  rw [hparse] at htick ⊢
  obtain ⟨rfl, -⟩ := Parsed.mk.inj (Except.ok.inj htick)
  rfl

/-- **What the last tick of a run is parsed into.** -/
theorem KilledRun.LastTick.parse_hists {r : KilledRun} (hr : r.Harmless)
    {before : List Probe} {rest : Bytes}
    (hlast : r.LastTick o before rest) :
    parseLastCompleteTick (readAll (some (r.bytes o))) =
      .ok ⟨tickScalars o (Collector.run o {} before).maps,
        tickHists o (Collector.run o {} before).maps⟩ := by
  obtain ⟨after, hprobes⟩ := hlast.probes
  have hm := namesHarmless_before o hr hprobes
  obtain ⟨p, hp, htick⟩ := lastComplete_drop o hm hlast.rest (Nat.zero_le _)
  rw [← hlast.bytes, List.drop_zero] at htick
  have hlines :=
    splitlines_linesText (clean_tickLines o (Collector.run o {} before).maps)
    (harmless_tickLines o hm) []
  rw [List.append_nil] at hlines
  unfold parseLastCompleteTick
  rw [KilledRun.readAll_bytes o hr, htick]
  refine (hp.parse_eq _).1.trans ?_
  unfold parseSegment
  rw [hlines]
  exact (congrArg (parseFrom {} 0) (List.append_nil _)).trans
    (parseFrom_tickHists o _)

end

end Telemetryd
