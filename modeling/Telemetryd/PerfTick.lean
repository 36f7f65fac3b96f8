import Telemetryd.PerfHist

/-!
# A tick in the eyes of the performance parser

The scalars that come out of a tick are those of its thirteen maps with two
integer keys, the six of the queues and the seven of the processes alike.
-/

namespace Telemetryd

open PyText Regex Utf8

/-! ### Scalars -/

/-- The counters of each pair of keys. -/
abbrev Scalars := OrderedDict (Int × Int) (OrderedDict PyText Int)

namespace Scalars

/-- One counter is set. -/
def put (d : Scalars) (name : PyText) (e : (Int × Int) × Int) : Scalars :=
  d.insert e.1 (((d.get? e.1).getD .empty).insert name e.2)

/-- The counters of a map are set. -/
def putAll (d : Scalars) (m : PyText × List ((Int × Int) × Int)) : Scalars :=
  m.2.foldl (fun d e => d.put m.1 e) d

/-- A counter. -/
def value (d : Scalars) (k : Int × Int) (name : PyText) : Option Int :=
  (d.get? k).bind (fun counters => counters.get? name)

/-- Putting a value changes it and no other. -/
theorem value_put (d : Scalars) (name n : PyText) (e : (Int × Int) × Int)
    (k : Int × Int) :
    (d.put name e).value k n = if k = e.1 ∧ n = name then some e.2
      else d.value k n := by
  unfold value put
  rw [OrderedDict.get?_insert]
  by_cases hk : k = e.1
  · subst hk
    rw [if_pos rfl, Option.bind_some, OrderedDict.get?_insert]
    by_cases hn : n = name
    · rw [if_pos hn, if_pos ⟨rfl, hn⟩]
    · rw [if_neg hn, if_neg (fun h => hn h.2)]
      cases d.get? e.1 with
      | none => rfl
      | some counters => rfl
  · rw [if_neg hk, if_neg (fun h => hk h.1)]

/-- Putting a value adds its key. -/
theorem mem_keys_put (d : Scalars) (name : PyText) (e : (Int × Int) × Int)
    (k : Int × Int) :
    k ∈ (d.put name e).keys ↔ k = e.1 ∨ k ∈ d.keys :=
  OrderedDict.mem_keys_insert

/-- **What a map sets.** -/
theorem value_putAll {es : List ((Int × Int) × Int)}
    (h : (es.map Prod.fst).Nodup) (d : Scalars)
    (name n : PyText) (k : Int × Int) :
    (d.putAll (name, es)).value k n
      = if n = name then (OrderedDict.look k es).or (d.value k n)
        else d.value k n := by
  induction es generalizing d with
  | nil =>
      unfold putAll
      simp [OrderedDict.look]
  | cons e es ih =>
      simp only [List.map_cons, List.nodup_cons] at h
      have hstep :
        d.putAll (name, e :: es) = (d.put name e).putAll (name, es) := rfl
      rw [hstep, ih h.2, value_put]
      by_cases hn : n = name
      · subst hn
        simp only [if_true, OrderedDict.look, and_true]
        by_cases hk : e.1 = k
        · subst hk
          have hno : OrderedDict.look e.1 es = none :=
            OrderedDict.look_eq_none_iff.mpr h.1
          simp [hno]
        · rw [if_neg hk, if_neg (fun heq => hk heq.symm)]
      · rw [if_neg hn, if_neg hn, if_neg (fun heq => hn heq.2)]

/-- The lines of a map add its keys. -/
theorem mem_keys_putAll (d : Scalars) (m : PyText × List ((Int × Int) × Int))
    (k : Int × Int) :
    k ∈ (d.putAll m).keys ↔ k ∈ m.2.map Prod.fst ∨ k ∈ d.keys := by
  obtain ⟨name, es⟩ := m
  induction es generalizing d with
  | nil => simp [putAll]
  | cons e es ih =>
      have hstep :
        d.putAll (name, e :: es) = (d.put name e).putAll (name, es) := rfl
      rw [hstep, ih, mem_keys_put]
      simp only [List.map_cons, List.mem_cons]
      tauto

/-- What several maps with different names set. -/
theorem value_foldl {ms : List (PyText × List ((Int × Int) × Int))}
    (hnames : (ms.map Prod.fst).Nodup)
    (hkeys : ∀ m ∈ ms, (m.2.map Prod.fst).Nodup) (d : Scalars)
    (n : PyText) (k : Int × Int) :
    (ms.foldl putAll d).value k n
      = ((OrderedDict.look n ms).bind (OrderedDict.look k)).or
        (d.value k n) := by
  induction ms generalizing d with
  | nil => simp [OrderedDict.look]
  | cons m ms ih =>
      simp only [List.map_cons, List.nodup_cons] at hnames
      rw [List.foldl_cons,
        ih hnames.2 (fun x hx => hkeys x (List.mem_cons_of_mem _ hx)),
        value_putAll (hkeys m List.mem_cons_self), OrderedDict.look_cons]
      by_cases hn : m.1 = n
      · subst hn
        have hno : OrderedDict.look m.1 ms = none :=
          OrderedDict.look_eq_none_iff.mpr hnames.1
        simp [hno]
      · rw [if_neg hn, if_neg (fun heq => hn heq.symm)]

/-- The lines of some maps add their keys. -/
theorem mem_keys_foldl (ms : List (PyText × List ((Int × Int) × Int)))
    (d : Scalars)
    (k : Int × Int) :
    k ∈ (ms.foldl putAll d).keys ↔ (∃ m ∈ ms, k ∈ m.2.map Prod.fst) ∨
      k ∈ d.keys := by
  induction ms generalizing d with
  | nil => simp
  | cons m ms ih =>
      rw [List.foldl_cons, ih, mem_keys_putAll]
      simp only [List.mem_cons, exists_eq_or_imp]
      rw [or_left_comm, or_assoc]

end Scalars

/-! ### The loop -/

/-- A run ends where the condition first fails. -/
theorem takeWhile_append_neg {α : Type*} {p : α → Bool} {a : α}
    (ha : p a = false) (l r : List α) :
    (l ++ a :: r).takeWhile p = l.takeWhile p := by
  induction l with
  | nil => simp [ha]
  | cons x l ih =>
      by_cases hx : p x = true
      · simp [hx, ih]
      · simp [hx]

section

variable [UnicodeDb]

/-- An ignored line changes nothing. -/
theorem parseFrom_ignored {line : PyText} (h : Ignored line) (s : Parsed)
    (rest : List PyText) :
    parseFrom s 0 (line :: rest) = parseFrom s 0 rest := by
  rw [parseFrom, h.1, h.2]

/-- Nor do ignored lines. -/
theorem parseFrom_ignoredAll {lines : List PyText} (h : ∀ l ∈ lines, Ignored l)
    (s : Parsed)
    (rest : List PyText) :
    parseFrom s 0 (lines ++ rest) = parseFrom s 0 rest := by
  induction lines with
  | nil => rfl
  | cons l lines ih =>
      rw [List.cons_append, parseFrom_ignored (h l List.mem_cons_self)]
      exact ih (fun x hx => h x (List.mem_cons_of_mem _ hx))

/-- Lines that are skipped change nothing. -/
theorem parseFrom_skip (s : Parsed) (lines rest : List PyText) :
    parseFrom s lines.length (lines ++ rest) = parseFrom s 0 rest := by
  induction lines with
  | nil => rfl
  | cons l lines ih => exact ih

/-- **A counter with two keys is set**, whatever its name. -/
theorem parseFrom_mapLine {name : PyText} (hname : IsMapName name) (a b : Int64)
    (v : UInt64)
    (s : Parsed) (rest : List PyText) :
    parseFrom s 0 (mapLine name [a, b] v :: rest)
      = parseFrom { s with scalars := Scalars.put s.scalars name ((a.toInt, b.toInt), v.toNat) } 0
        rest := by
  rw [parseFrom, match_mapLine hname]
  simp only [Parsed.addScalar, pyInt_key, pyInt_word]
  rfl

/-- The row of a histogram is no line of a counter. -/
theorem ignored_histRow (h : Hist) (most : Nat) (i : Fin 65) :
    Ignored (histRow h most i) := by
  obtain ⟨m, w, hrow⟩ := histRow_eq h most i
  obtain ⟨c, t, hrange, hc⟩ := rangeText_first i
  rw [hrow, hrange]
  refine ignored_of_first ?_ ?_ _
  · rcases hc with rfl | rfl <;> decide
  · rcases hc with rfl | rfl <;> decide

/-- An empty line is no row. -/
theorem isBucketRow_nil : isBucketRow [] = false := by
  have hrun : run histBucketRe (strip []) = [] := run_text_nil_text [] _
  rw [isBucketRow, match?, hrun]
  rfl

/-- **A histogram sets no counter.** -/
theorem parseFrom_histLines {name : PyText} (hname : IsMapName name)
    (a b : Int64) (h : Hist)
    (s : Parsed) (rest : List PyText) :
    ∃ hists, parseFrom s 0 (histLines name [a, b] h ++ rest)
      = parseFrom { s with hists := hists } 0 rest := by
  obtain ⟨hnone, hsome⟩ := match_histKey hname a b
  have hrows : ∀ row ∈ histRows h, ∃ most i, row = histRow h most i := by
    intro row hrow
    obtain ⟨i, -, rfl⟩ := List.mem_map.mp hrow
    exact ⟨_, i, rfl⟩
  have htake : (histRows h ++ [] :: rest).takeWhile isBucketRow
      = (histRows h).takeWhile isBucketRow :=
        takeWhile_append_neg isBucketRow_nil _ _
  obtain ⟨buckets, hbuckets⟩ :
      PyError.Succeeds
        (((histRows h).takeWhile isBucketRow).mapM parseBucket) := by
    refine PyError.succeeds_mapM fun row hrow => ?_
    obtain ⟨most, i, rfl⟩ := hrows row (List.takeWhile_prefix _ |>.subset hrow)
    exact succeeds_parseBucket h most i
  have hsplit : histRows h ++ [] :: rest = (histRows h).takeWhile isBucketRow ++
      ((histRows h).dropWhile isBucketRow ++ [] :: rest) := by
    rw [← List.append_assoc, List.takeWhile_append_dropWhile]
  have hignored : ∀ l ∈ (histRows h).dropWhile isBucketRow, Ignored l := by
    intro l hl
    obtain ⟨most, i, rfl⟩ := hrows l (List.dropWhile_suffix _ |>.subset hl)
    exact ignored_histRow h most i
  refine ⟨s.hists.insert (a.toInt, b.toInt)
    (((s.hists.get? (a.toInt, b.toInt)).getD []) ++ buckets), ?_⟩
  have hlines : histLines name [a, b] h ++ rest
      = ('@' :: name ++ '[' :: keyText [a, b] ++ "]: ".toList) ::
        (histRows h ++ [] :: rest) := by
    simp [histLines]
  rw [hlines, parseFrom, hnone, hsome]
  simp only [htake, Parsed.addHist, pyInt_key, hbuckets, bind, Except.bind,
    pure, Except.pure]
  rw [hsplit, parseFrom_skip, parseFrom_ignoredAll hignored,
    parseFrom_ignored ignored_nil]

end

/-! ### A whole tick -/

/-- The entries of a map with two keys, as integers, in the order in which they
are printed. -/
def readItems (o : PrintOrder) (tick : Nat) (name : PyText)
    (m : Counters Key2) :
    List ((Int × Int) × Int) :=
  (o.order tick name m.items).map (fun e =>
    ((e.1.1.toInt, e.1.2.toInt), (e.2.toNat : Int)))

/-- The maps with two keys, under their names. -/
def scalarMaps (m : Maps) : List (PyText × Counters Key2) :=
  [("op_count".toList, m.opCount), ("read_count".toList, m.readCount),
    ("write_count".toList, m.writeCount), ("bytes_sum".toList, m.bytesSum),
    ("lat_sum".toList, m.latSum), ("lat_count".toList, m.latCount),
    ("proc_bytes".toList, m.procBytes), ("proc_rd".toList, m.procRd),
    ("proc_wr".toList, m.procWr), ("proc_lat_sum".toList, m.procLatSum),
    ("proc_lat_cnt".toList, m.procLatCnt), ("proc_seq".toList, m.procSeq),
    ("proc_rand".toList, m.procRand)]

/-- The scalars of a tick. -/
def tickScalars (o : PrintOrder) (m : Maps) : Scalars :=
  ((scalarMaps m).map (fun e => (e.1, readItems o m.tick e.1 e.2))).foldl
    Scalars.putAll .empty

section

variable [UnicodeDb] (o : PrintOrder) {tick : Nat}

/-- The lines of a map with two keys are read as its counters. -/
theorem parseFrom_print2 {name : PyText} (hname : IsMapName name)
    (m : Counters Key2) (s : Parsed)
    (rest : List PyText) :
    parseFrom s 0 ((print2 o tick name m).map PrintedLine.text ++ rest)
      = parseFrom { s with scalars := Scalars.putAll s.scalars (name,
        readItems o tick name m) } 0 rest := by
  unfold print2 readItems
  induction o.order tick name m.items generalizing s with
  | nil => rfl
  | cons e es ih =>
      rw [List.map_cons, List.map_cons, List.cons_append]
      exact (parseFrom_mapLine hname e.1.1 e.1.2 e.2 s _).trans (ih _)

/-- The lines of a histogram change the histograms only. -/
theorem parseFrom_printHist {name : PyText} (hname : IsMapName name)
    (m : OrderedDict Key2 Hist)
    (s : Parsed) (rest : List PyText) :
    ∃ hists, parseFrom s 0 ((printHist o tick name m).map PrintedLine.text ++
      rest)
      = parseFrom { s with hists := hists } 0 rest := by
  unfold printHist
  induction o.order tick name m.items generalizing s with
  | nil => exact ⟨s.hists, rfl⟩
  | cons e es ih =>
      obtain ⟨hists, hhead⟩ := parseFrom_histLines hname e.1.1 e.1.2 e.2 s
        ((es.flatMap (fun e =>
          (histLines name [e.1.1, e.1.2] e.2).map PrintedLine.plain)).map
          PrintedLine.text ++ rest)
      obtain ⟨hists', htail⟩ := ih { s with hists := hists }
      refine ⟨hists', ?_⟩
      have htext :
          ((histLines name [e.1.1, e.1.2] e.2).map PrintedLine.plain).map
          PrintedLine.text
          = histLines name [e.1.1, e.1.2] e.2 := by
        rw [List.map_map]
        exact List.map_id _
      rw [List.flatMap_cons, List.map_append, htext, List.append_assoc, hhead]
      exact htail

/-- The lines of a map with three keys are ignored. -/
theorem ignored_print3 {name : PyText} (hname : IsMapName name)
    (m : Counters Key3) :
    ∀ l ∈ (print3 o tick name m).map PrintedLine.text, Ignored l := by
  intro l hl
  obtain ⟨p, hp, rfl⟩ := List.mem_map.mp hl
  obtain ⟨e, -, rfl⟩ := List.mem_map.mp hp
  exact ignored_mapLine hname _ _ _ _

/-- So are the commands by process, whatever the process is called. -/
theorem ignored_printProcOps (m : Counters (Int64 × Int64 × Comm)) :
    ∀ l ∈ (printProcOps o tick m).map PrintedLine.text, Ignored l := by
  intro l hl
  obtain ⟨p, hp, rfl⟩ := List.mem_map.mp hl
  obtain ⟨e, -, rfl⟩ := List.mem_map.mp hp
  exact ignored_commLine (by decide) _ _ [] _ _

/-- So are the commands by thread. -/
theorem ignored_printThrOps (m : Counters (Int64 × Int64 × Int64 × Comm)) :
    ∀ l ∈ (printThrOps o tick m).map PrintedLine.text, Ignored l := by
  intro l hl
  obtain ⟨p, hp, rfl⟩ := List.mem_map.mp hl
  obtain ⟨e, -, rfl⟩ := List.mem_map.mp hp
  exact ignored_commLine (by decide) _ _ [_] _ _

/-- **What a tick is parsed into.** -/
theorem parseFrom_tickLines (m : Maps) :
    ∃ hists, parseFrom {} 0 ((tickLines o m).map PrintedLine.text)
      = .ok { scalars := tickScalars o m, hists := hists } := by
  have h2 := @parseFrom_print2 _ o m.tick
  obtain ⟨hists, hhist⟩ :=
    parseFrom_printHist o (show IsMapName "lat_hist".toList by decide)
    m.latHist _ _
  refine ⟨hists, ?_⟩
  unfold tickLines
  simp only [List.map_append, List.append_assoc]
  rw [← List.append_nil ((printThrOps o m.tick m.thrOps).map PrintedLine.text),
    h2 (show IsMapName "op_count".toList by decide),
    h2 (show IsMapName "read_count".toList by decide),
    h2 (show IsMapName "write_count".toList by decide),
    h2 (show IsMapName "bytes_sum".toList by decide),
    h2 (show IsMapName "lat_sum".toList by decide),
    h2 (show IsMapName "lat_count".toList by decide), hhist,
    parseFrom_ignoredAll
      (ignored_print3 o (show IsMapName "err_count".toList by decide) _),
    parseFrom_ignoredAll (ignored_printProcOps o _),
    h2 (show IsMapName "proc_bytes".toList by decide),
    h2 (show IsMapName "proc_rd".toList by decide),
    h2 (show IsMapName "proc_wr".toList by decide),
    parseFrom_ignoredAll
      (ignored_print3 o (show IsMapName "proc_bs".toList by decide) _),
    parseFrom_ignoredAll
      (ignored_print3 o (show IsMapName "proc_q".toList by decide) _),
    h2 (show IsMapName "proc_lat_sum".toList by decide),
    h2 (show IsMapName "proc_lat_cnt".toList by decide),
    h2 (show IsMapName "proc_seq".toList by decide),
    h2 (show IsMapName "proc_rand".toList by decide),
    parseFrom_ignoredAll (ignored_printThrOps o _)]
  rfl

end

end Telemetryd
