import Telemetryd.ErrorStats
import Telemetryd.PerfLines

/-!
# Lines with error counters

What a text says about errors is the entries of its `@err_count` lines, and a
later entry of a key counts more than an earlier one.  A tick says what its map
says.  In particular no other line of the collector can be taken for such a
line, whatever the names of the processes are: a name has fifteen bytes at
most, and the part of a counter in front of its closing bracket has at least
sixteen characters.
-/

namespace Telemetryd

open PyText Regex Utf8

section

variable [UnicodeDb]

/-! ### The entries of a text -/

/-- The entry of a line. -/
def errItem (line : PyText) : Option (ErrKey × Int) :=
  match match? errCountRe (strip line) with
  | some [ctrl, sct, sc, n] =>
      some ((intValue ctrl, intValue sct, intValue sc), intValue n)
  | _ => none

/-- The entries of a text, line by line. -/
def errEntries (t : PyText) : List (ErrKey × Int) :=
  (splitlines t).filterMap errItem

/-- What the entries of a text leave. -/
def errCounts (t : PyText) : OrderedDict ErrKey Int :=
  OrderedDict.empty.insertAll (errEntries t)

/-- The error entries of a text are those of its lines. -/
theorem errEntries_append (x y : PyText) :
    errEntries (x ++ '\n' :: y) = errEntries (x ++ ['\n']) ++ errEntries y := by
  unfold errEntries
  rw [splitlines_append_newline, List.filterMap_append]

/-- The numerals of the line are short enough for `int()`. -/
def Readable (line : PyText) : Prop :=
  ∀ groups, match? errCountRe (strip line) = some groups →
    ∀ g ∈ groups, g.length ≤ maxStrDigits

/-- A numeral that is short enough is read. -/
theorem pyInt_of_length_le {s : PyText} (h : s.length ≤ maxStrDigits) :
    pyInt s = .ok (intValue s) := by
  have hlen : (unsign s).length ≤ s.length := by
    unfold unsign
    split
    · simp
    · rfl
  unfold pyInt
  exact if_neg (by omega)

/-- A readable line puts its entry, if it has one, into the dictionary. -/
theorem addErrCount_eq {line : PyText} (h : Readable line)
    (counts : OrderedDict ErrKey Int) :
    addErrCount counts line = .ok (counts.insertAll (errItem line).toList) := by
  unfold addErrCount errItem
  cases hm : match? errCountRe (strip line) with
  | none => rfl
  | some groups =>
      have hlen := h groups hm
      rcases groups with _ | ⟨ctrl, _ | ⟨sct, _ | ⟨sc, _ | ⟨n, _ | ⟨x, rest⟩⟩⟩⟩⟩
      case cons.cons.cons.cons.nil =>
        simp only [pyInt_of_length_le (hlen n (by simp)),
          pyInt_of_length_le (hlen ctrl (by simp)),
          pyInt_of_length_le (hlen sct (by simp)),
          pyInt_of_length_le (hlen sc (by simp))]
        rfl
      all_goals rfl

/-- The parser reads the entries. -/
theorem parseErrCounts_eq {t : PyText} (h : ∀ l ∈ splitlines t, Readable l) :
    parseErrCounts t = .ok (errCounts t) := by
  have hfold : ∀ (ls : List PyText) (counts : OrderedDict ErrKey Int),
      (∀ l ∈ ls, Readable l) →
      ls.foldlM addErrCount counts =
        .ok (counts.insertAll (ls.filterMap errItem)) := by
    intro ls
    induction ls with
    | nil => exact fun counts _ => rfl
    | cons l ls ih =>
        intro counts hls
        rw [List.foldlM_cons, addErrCount_eq (hls l List.mem_cons_self)]
        have hrest := ih (counts.insertAll (errItem l).toList)
          (fun x hx => hls x (List.mem_cons_of_mem _ hx))
        rw [← OrderedDict.insertAll_append] at hrest
        have hcons : (errItem l).toList ++ ls.filterMap errItem =
            (l :: ls).filterMap errItem := by
          cases he : errItem l with
          | none => simp [he]
          | some e => simp [he]
        rw [hcons] at hrest
        exact hrest
  exact hfold (splitlines t) .empty h

/-! ### Lines without an entry -/

/-- What stands in front of the first closing bracket of a counter. -/
def ErrHead (z : PyText) : Prop :=
  "@err_count[".toList <+: z ∧ ']' ∉ z ∧ 16 ≤ z.length

/-- The text holds no counter. -/
def NoErr (t : PyText) : Prop := ∀ z, ErrHead z → ¬ z <:+: t

/-- A bracket ends a numeral. -/
theorem isDecimal_bracket : isDecimal ']' = false := by
  rw [isDecimal_ascii (by decide)]
  rfl

/-- **The shape of a counter.** -/
theorem errHead_of_match {s : PyText} {groups : List PyText}
    (h : match? errCountRe s = some groups) : ∃ z, ErrHead z ∧ z <:+: s := by
  have hmem : groups ∈ run errCountRe s := List.mem_of_mem_head? h
  have hnum : ∀ {x : PyText}, (∀ c ∈ x, c = '-' ∨ isDecimal c = true) →
      ']' ∉ x := by
    intro x hx hc
    rcases hx _ hc with h | h
    · exact absurd h (by decide)
    · rw [isDecimal_bracket] at h
      exact absurd h (by decide)
  have hblank : ∀ {x : PyText}, (∀ c ∈ x, isSpace c = true) → ']' ∉ x :=
    fun hx hc => absurd (hx _ hc) (by decide)
  obtain ⟨r, rfl, h0⟩ := mem_run_text hmem
  obtain ⟨k1, r1, _, rfl, hk1, hd1, h1⟩ := mem_run_signed h0
  obtain ⟨r2, rfl, h2⟩ := mem_run_text h1
  obtain ⟨b1, r3, _, rfl, hb1, h3⟩ := mem_run_many h2
  obtain ⟨k2, r4, _, rfl, hk2, hd2, h4⟩ := mem_run_signed h3
  obtain ⟨r5, rfl, h5⟩ := mem_run_text h4
  obtain ⟨b2, r6, _, rfl, hb2, h6⟩ := mem_run_many h5
  obtain ⟨k3, r7, _, rfl, hk3, hd3, -⟩ := mem_run_signed h6
  refine ⟨"@err_count[".toList ++
    (k1 ++ ([','] ++ (b1 ++ (k2 ++ ([','] ++ (b2 ++ k3)))))),
    ⟨List.prefix_append _ _, ?_, ?_⟩, ?_⟩
  · simp only [List.mem_append, not_or]
    exact ⟨by decide, hnum hd1, by decide, hblank hb1, hnum hd2, by decide,
      hblank hb2, hnum hd3⟩
  · have h1 := List.length_pos_iff.mpr hk1
    have h2 := List.length_pos_iff.mpr hk2
    have h3 := List.length_pos_iff.mpr hk3
    have hlit : "@err_count[".toList.length = 11 := rfl
    simp only [List.length_append, List.length_cons, List.length_nil, hlit]
    omega
  · refine List.IsPrefix.isInfix ⟨r7, ?_⟩
    simp only [List.append_assoc]

/-- A text without the head of an entry has no line that matches. -/
theorem match_of_noErr {t l : PyText} (h : NoErr t) (hl : l ∈ splitlines t) :
    match? errCountRe (strip l) = none := by
  cases hm : match? errCountRe (strip l) with
  | none => rfl
  | some groups =>
      obtain ⟨z, hz, hi⟩ := errHead_of_match hm
      exact absurd
        ((hi.trans (infix_of_strip l)).trans (infix_of_mem_splitlines hl))
        (h z hz)

/-- Nor has it entries. -/
theorem errEntries_of_noErr {t : PyText} (h : NoErr t) : errEntries t = [] := by
  unfold errEntries
  rw [List.filterMap_eq_nil_iff]
  intro l hl
  unfold errItem
  rw [match_of_noErr h hl]

end

/-- Neither has a part of it. -/
theorem NoErr.of_infix {s t : PyText} (h : NoErr t) (hi : s <:+: t) : NoErr s :=
  fun z hz hzs => h z hz (hzs.trans hi)

/-- The head has an at sign and an `e` in it. -/
theorem ErrHead.at_mem {z : PyText} (h : ErrHead z) : '@' ∈ z ∧ 'e' ∈ z :=
  ⟨h.1.subset (by decide), h.1.subset (by decide)⟩

/-- A text without an at sign has no head in it. -/
theorem noErr_of_no_at {t : PyText} (h : '@' ∉ t) : NoErr t :=
  fun _ hz hi => h (hi.subset hz.at_mem.1)

/-- Nor has a text without an `e`. -/
theorem noErr_of_no_e {t : PyText} (h : 'e' ∉ t) : NoErr t :=
  fun _ hz hi => h (hi.subset hz.at_mem.2)

/-- A counter does not start where there is no `@`. -/
theorem errHead_infix_right {z x t : PyText} (hz : ErrHead z) (hx : '@' ∉ x)
    (h : z <:+: x ++ t) :
    z <:+: t := by
  obtain ⟨r, rfl⟩ := hz.1
  induction x with
  | nil => exact h
  | cons c x ih =>
      simp only [List.mem_cons, not_or] at hx
      rcases List.infix_cons_iff.mp h with hp | hi
      · exact absurd (List.cons_prefix_cons.mp hp).1 hx.1
      · exact ih hx.2 hi

/-- The line of another map, up to where names may stand. -/
theorem errHead_infix_map {z x t : PyText} {c : Char} (hz : ErrHead z)
    (hc : c ≠ 'e')
    (hx : '@' ∉ c :: x) (h : z <:+: '@' :: c :: (x ++ t)) : z <:+: t := by
  rcases List.infix_cons_iff.mp h with hp | hi
  · obtain ⟨r, rfl⟩ := hz.1
    exact absurd
      (List.cons_prefix_cons.mp (List.cons_prefix_cons.mp hp).2).1.symm hc
  · exact errHead_infix_right hz hx hi

/-- Nor has the entry of a map whose name begins otherwise. -/
theorem noErr_map {x : PyText} {c : Char} (hc : c ≠ 'e') (hx : '@' ∉ c :: x) :
    NoErr ('@' :: c :: x) := by
  intro z hz hi
  have hi : z <:+: '@' :: c :: (x ++ []) := by
    rwa [List.append_nil]
  have hnil := errHead_infix_map hz hc hx hi
  exact absurd (hnil.subset hz.at_mem.1) List.not_mem_nil

/-! ### The lines of the collector -/

/-- Numerals have no at sign. -/
theorem at_notMem_ofInt (i : Int) : '@' ∉ ofInt i := by
  intro h
  rcases mem_ofInt h with h | h
  · exact absurd h (by decide)
  · exact absurd h (by decide)

/-- Numerals have no at sign. -/
theorem at_notMem_ofNat (n : Nat) : '@' ∉ ofNat n := at_notMem_ofInt (n : Int)

/-- Nor have the keys of an entry. -/
theorem at_notMem_keyText (ks : List Int64) : '@' ∉ keyText ks := by
  induction ks with
  | nil => exact List.not_mem_nil
  | cons k ks ih =>
      cases ks with
      | nil => exact at_notMem_ofInt _
      | cons k' ks =>
          simp only [keyText, List.mem_append, not_or]
          exact ⟨⟨at_notMem_ofInt _, by decide⟩, ih⟩

/-- The name of a map other than `@err_count`. -/
def OtherMap (name : PyText) : Prop :=
  ∃ c x, name = c :: x ∧ c ≠ 'e' ∧ '@' ∉ c :: x

/-- The line of another map has no error entry in it. -/
theorem noErr_mapLine {name : PyText} (h : OtherMap name) (ks : List Int64)
    (v : UInt64) :
    NoErr (mapLine name ks v ++ ['\n']) := by
  obtain ⟨c, x, rfl, hc, hx⟩ := h
  have hline : mapLine (c :: x) ks v ++ ['\n']
      = '@' :: c ::
        (x ++ ('[' ::
        (keyText ks ++ ("]: ".toList ++ (ofNat v.toNat ++ ['\n']))))) := by
    simp [mapLine]
  rw [hline]
  refine noErr_map hc ?_
  simp only [List.mem_cons, List.mem_append, not_or] at hx ⊢
  exact ⟨hx.1, hx.2, by decide, at_notMem_keyText ks, by decide,
    at_notMem_ofNat _, by decide,
    List.not_mem_nil⟩

/-- Numerals have no `e`. -/
theorem e_notMem_ofNat (n : Nat) : 'e' ∉ ofNat n :=
  fun h => absurd (isDigit_of_mem_ofNat h) (by decide)

/-- Nor have the bounds of a histogram. -/
theorem e_notMem_boundText (k : Nat) : 'e' ∉ boundText k := by
  simp only [boundText, List.mem_append, not_or]
  refine ⟨e_notMem_ofNat _, ?_⟩
  unfold unitText
  split <;> decide

/-- Nor have its ranges. -/
theorem e_notMem_rangeText (i : Fin 65) : 'e' ∉ rangeText i := by
  unfold rangeText
  split
  · decide
  · split
    · decide
    · split
      · decide
      · simp only [List.cons_append, List.mem_cons, List.mem_append, not_or]
        exact ⟨by decide,
          ⟨⟨e_notMem_boundText _, by decide⟩, e_notMem_boundText _⟩, by decide,
          List.not_mem_nil⟩

/-- The row of a histogram has a bar of `@`, but no `e`. -/
theorem e_notMem_histRow (h : Hist) (most : Nat) (i : Fin 65) :
    'e' ∉ histRow h most i ++ ['\n'] := by
  have hblank : ∀ {n : Nat} {c : Char}, c ≠ 'e' → 'e' ∉ List.replicate n c :=
    fun hc hmem => hc (List.eq_of_mem_replicate hmem).symm
  simp only [histRow, padRight, padLeft, List.mem_append, not_or]
  exact ⟨⟨⟨⟨⟨⟨e_notMem_rangeText i, hblank (by decide)⟩, hblank (by decide),
    e_notMem_ofNat _⟩,
    by decide⟩, hblank (by decide), hblank (by decide)⟩, by decide⟩, by decide⟩

/-- The lines of a histogram have no error entry in them. -/
theorem noErr_histLines {name : PyText} (h : OtherMap name) (ks : List Int64)
    (hist : Hist) :
    ∀ t ∈ histLines name ks hist, NoErr (t ++ ['\n']) := by
  intro t ht
  simp only [histLines, List.cons_append, List.mem_cons, List.mem_append,
    List.not_mem_nil,
    or_false] at ht
  rcases ht with rfl | ht | rfl
  · obtain ⟨c, x, rfl, hc, hx⟩ := h
    have hline : '@' :: (c :: x ++ '[' :: keyText ks ++ "]: ".toList) ++ ['\n']
        = '@' :: c ::
          (x ++ ('[' :: (keyText ks ++ ("]: ".toList ++ ['\n'])))) := by
      simp
    rw [hline]
    refine noErr_map hc ?_
    simp only [List.mem_cons, List.mem_append, not_or] at hx ⊢
    exact ⟨hx.1, hx.2, by decide, at_notMem_keyText ks, by decide, by decide,
      List.not_mem_nil⟩
  · obtain ⟨i, -, rfl⟩ := List.mem_map.mp ht
    exact noErr_of_no_e (e_notMem_histRow hist _ i)
  · exact noErr_of_no_at (by decide)

/-- **A name is no counter.** -/
theorem noErr_commLine {name : PyText} (h : OtherMap name) (ks : List Int64)
    (comm : Comm)
    (v : UInt64) : NoErr ((commLine name ks comm v).text ++ ['\n']) := by
  obtain ⟨c, x, rfl, hc, hx⟩ := h
  intro z hz hi
  have hline : (commLine (c :: x) ks comm v).text ++ ['\n']
      = '@' :: c :: ((x ++ '[' :: keyText ks ++ [',', ' ']) ++
        (decode comm.bytes ++ ']' ::
          (": ".toList ++ ofNat v.toNat ++ ['\n']))) := by
    simp [commLine, PrintedLine.text]
  rw [hline] at hi
  have hfront : '@' ∉ c :: (x ++ '[' :: keyText ks ++ [',', ' ']) := by
    simp only [List.mem_cons, List.mem_append, not_or] at hx ⊢
    exact ⟨hx.1, ⟨hx.2, by decide, at_notMem_keyText ks⟩, by decide, by decide,
      List.not_mem_nil⟩
  have hrest := errHead_infix_map hz hc hfront hi
  rcases infix_append_cons hz.2.1 hrest with hname | hback
  · have hlen := hname.length_le
    have hdecode := length_decode_le comm.bytes
    have hcomm := comm.length_le
    have hhead := hz.2.2
    omega
  · refine absurd (hback.subset hz.at_mem.1) ?_
    simp only [List.mem_append, not_or]
    exact ⟨⟨by decide, at_notMem_ofNat _⟩, by decide⟩

section

variable [UnicodeDb]

/-- **A counter is read back.** -/
theorem match_errCount (a b c : Int64) (v : UInt64) :
    match? errCountRe (strip (mapLine "err_count".toList [a, b, c] v))
      = some [ofInt a.toInt, ofInt b.toInt, ofInt c.toInt, ofNat v.toNat] := by
  have hline : mapLine "err_count".toList [a, b, c] v = "@err_count[".toList ++
      (ofInt a.toInt ++
      (", ".toList ++ ofInt b.toInt ++ (", ".toList ++ ofInt c.toInt ++
        ([']', ':'] ++ (' ' :: ofNat v.toNat))))) := by
    simp [mapLine, keyText]
  have hstrip : strip (mapLine "err_count".toList [a, b, c] v)
      = mapLine "err_count".toList [a, b, c] v := strip_valueLine _ _
  have hcomma : ∀ t, NotStarting isDecimal (", ".toList ++ t) :=
    fun t => notStarting_decimal (by decide) (by decide) _
  have hbracket :
      NotStarting isDecimal ([']', ':'] ++ (' ' :: ofNat v.toNat)) :=
    notStarting_decimal (by decide) (by decide) _
  rw [hstrip, hline, match?, errCountRe, run_text_append,
    run_intGroup a.toInt (by rw [List.append_assoc]; exact hcomma _)
      (blocks_text (by decide) [] _),
    run_nextKey b.toInt (by rw [List.append_assoc]; exact hcomma _)
      (blocks_text (by decide) [] _),
    run_nextKey c.toInt hbracket (blocks_text (by decide) [':'] _),
    run_text_append,
    run_lineValue blocks_endOfLine run_endOfLine_nil]
  rfl

/-- The line of an error counter is one entry, with its keys and its value. -/
theorem errEntries_errCount (a b c : Int64) (v : UInt64) :
    errEntries (mapLine "err_count".toList [a, b, c] v ++ ['\n'])
      = [((a.toInt, b.toInt, c.toInt), (v.toNat : Int))] := by
  have hclean : CleanText (mapLine "err_count".toList [a, b, c] v) :=
    cleanText_mapLine (by decide) _ _
  have hvalue : intValue (ofNat v.toNat) = v.toNat :=
    intValue_ofInt (v.toNat : Int)
  unfold errEntries
  rw [splitlines_line hclean.not_isLineBoundary]
  show List.filterMap errItem [mapLine "err_count".toList [a, b, c] v] = _
  simp only [List.filterMap_cons, List.filterMap_nil, errItem, match_errCount,
    intValue_ofInt, hvalue]

/-- The entries of some output. -/
theorem errEntries_linesText (ls : List PrintedLine) (rest : PyText) :
    errEntries (linesText ls ++ rest)
      = ls.flatMap (fun l => errEntries (l.text ++ ['\n'])) ++
        errEntries rest := by
  induction ls with
  | nil => rfl
  | cons l ls ih =>
      have hcons :
          linesText (l :: ls) ++ rest =
          l.text ++ '\n' :: (linesText ls ++ rest) := by
        simp [linesText]
      rw [hcons, errEntries_append, ih, List.flatMap_cons, List.append_assoc]

/-- The error counters of a tick, as they are printed. -/
def errItems (o : PrintOrder) (m : Maps) : List (ErrKey × Int) :=
  (o.order m.tick "err_count".toList m.errCount.items).map
    (fun e => ((e.1.1.toInt, e.1.2.1.toInt, e.1.2.2.toInt), (e.2.toNat : Int)))

/-- Lines without entries add nothing. -/
theorem flatMap_of_noErr {ls : List PrintedLine}
    (h : ∀ l ∈ ls, NoErr (l.text ++ ['\n'])) :
    ls.flatMap (fun l => errEntries (l.text ++ ['\n'])) = [] :=
  flatMap_nil_of_forall fun l hl => errEntries_of_noErr (h l hl)

/-- The lines of the error counters are the error entries. -/
theorem flatMap_print3_errCount (o : PrintOrder) (m : Maps) :
    (print3 o m.tick "err_count".toList m.errCount).flatMap (fun l =>
      errEntries (l.text ++ ['\n']))
      = errItems o m := by
  have hline : ∀ e : Key3 × UInt64, errEntries ((PrintedLine.plain
      (mapLine "err_count".toList [e.1.1, e.1.2.1, e.1.2.2] e.2)).text ++
        ['\n'])
      = [((e.1.1.toInt, e.1.2.1.toInt, e.1.2.2.toInt), (e.2.toNat : Int))] :=
    fun e => errEntries_errCount e.1.1 e.1.2.1 e.1.2.2 e.2
  unfold print3 errItems
  rw [List.flatMap_map]
  simp only [hline]
  rw [← List.map_eq_flatMap]

end

section Tick

variable (o : PrintOrder) {tick : Nat}

/-- A map with two keys prints no error entry. -/
theorem noErr_print2 {name : PyText} (h : OtherMap name) (m : Counters Key2) :
    ∀ l ∈ print2 o tick name m, NoErr (l.text ++ ['\n']) := by
  intro l hl
  obtain ⟨e, -, rfl⟩ := List.mem_map.mp hl
  exact noErr_mapLine h _ _

/-- Nor does another map with three. -/
theorem noErr_print3 {name : PyText} (h : OtherMap name) (m : Counters Key3) :
    ∀ l ∈ print3 o tick name m, NoErr (l.text ++ ['\n']) := by
  intro l hl
  obtain ⟨e, -, rfl⟩ := List.mem_map.mp hl
  exact noErr_mapLine h _ _

/-- Nor do the histograms. -/
theorem noErr_printHist {name : PyText} (h : OtherMap name)
    (m : OrderedDict Key2 Hist) :
    ∀ l ∈ printHist o tick name m, NoErr (l.text ++ ['\n']) := by
  intro l hl
  obtain ⟨e, -, hl⟩ := List.mem_flatMap.mp hl
  obtain ⟨t, ht, rfl⟩ := List.mem_map.mp hl
  exact noErr_histLines h _ _ t ht

/-- Nor do the commands by process, whatever the process is called. -/
theorem noErr_printProcOps (m : Counters (Int64 × Int64 × Comm)) :
    ∀ l ∈ printProcOps o tick m, NoErr (l.text ++ ['\n']) := by
  intro l hl
  obtain ⟨e, -, rfl⟩ := List.mem_map.mp hl
  exact noErr_commLine ⟨_, _, rfl, by decide, by decide⟩ _ _ _

/-- Nor do the commands by thread. -/
theorem noErr_printThrOps (m : Counters (Int64 × Int64 × Int64 × Comm)) :
    ∀ l ∈ printThrOps o tick m, NoErr (l.text ++ ['\n']) := by
  intro l hl
  obtain ⟨e, -, rfl⟩ := List.mem_map.mp hl
  exact noErr_commLine ⟨_, _, rfl, by decide, by decide⟩ _ _ _

/-- The lines of a tick, around its error counters. -/
theorem tickLines_eq (m : Maps) :
    ∃ front back,
      tickLines o m =
      front ++ (print3 o m.tick "err_count".toList m.errCount ++ back) ∧
      (∀ l ∈ front, NoErr (l.text ++ ['\n'])) ∧
        ∀ l ∈ back, NoErr (l.text ++ ['\n']) := by
  refine ⟨print2 o m.tick "op_count".toList m.opCount ++
    print2 o m.tick "read_count".toList m.readCount ++
    print2 o m.tick "write_count".toList m.writeCount ++
      print2 o m.tick "bytes_sum".toList m.bytesSum ++
    print2 o m.tick "lat_sum".toList m.latSum ++
      print2 o m.tick "lat_count".toList m.latCount ++
    printHist o m.tick "lat_hist".toList m.latHist,
      printProcOps o m.tick m.procOps ++
    print2 o m.tick "proc_bytes".toList m.procBytes ++
    print2 o m.tick "proc_rd".toList m.procRd ++
      print2 o m.tick "proc_wr".toList m.procWr ++
    print3 o m.tick "proc_bs".toList m.procBs ++
      print3 o m.tick "proc_q".toList m.procQ ++
    print2 o m.tick "proc_lat_sum".toList m.procLatSum ++
      print2 o m.tick "proc_lat_cnt".toList m.procLatCnt ++
    print2 o m.tick "proc_seq".toList m.procSeq ++
      print2 o m.tick "proc_rand".toList m.procRand ++
    printThrOps o m.tick m.thrOps, ?_, ?_, ?_⟩
  · unfold tickLines
    simp only [List.append_assoc]
  · simp only [List.forall_mem_append]
    refine ⟨⟨⟨⟨⟨⟨?_, ?_⟩, ?_⟩, ?_⟩, ?_⟩, ?_⟩,
      noErr_printHist o ⟨_, _, rfl, by decide, by decide⟩ _⟩
    all_goals exact noErr_print2 o ⟨_, _, rfl, by decide, by decide⟩ _
  · simp only [List.forall_mem_append]
    refine ⟨⟨⟨⟨⟨⟨⟨⟨⟨⟨noErr_printProcOps o _, ?_⟩, ?_⟩, ?_⟩, ?_⟩, ?_⟩, ?_⟩, ?_⟩,
      ?_⟩, ?_⟩,
      noErr_printThrOps o _⟩
    all_goals first
      | exact noErr_print2 o ⟨_, _, rfl, by decide, by decide⟩ _
      | exact noErr_print3 o ⟨_, _, rfl, by decide, by decide⟩ _

/-- **The entries of a tick** are its error counters. -/
theorem errEntries_tick [UnicodeDb] (m : Maps) (rest : PyText) :
    errEntries (linesText (tickLines o m) ++ rest) =
      errItems o m ++ errEntries rest := by
  obtain ⟨front, back, heq, hfront, hback⟩ := tickLines_eq o m
  rw [errEntries_linesText, heq, List.flatMap_append, List.flatMap_append,
    flatMap_of_noErr hfront,
    flatMap_of_noErr hback, flatMap_print3_errCount]
  simp

end Tick

end Telemetryd
