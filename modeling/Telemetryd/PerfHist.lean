import Telemetryd.PerfLines

/-!
# Histograms in the eyes of the performance parser

A row of a printed histogram is read back as its bucket when both bounds are
below 1T; a row with larger bounds, and the rows of 0 and 1, end the block.
Either way nothing is raised, and no counter comes out of a histogram.
-/

namespace Telemetryd

open PyText Regex Utf8

/-! ### Bounds -/

/-- A digit may stand in a bound. -/
theorem isBound_of_isDigit {c : Char} (h : c.isDigit = true) :
    isBound c = true := by
  simp [isBound, h]

/-- A class of characters no bound is followed by. -/
def isBoundPart (c : Char) : Bool := c.isDigit || isUnit c

/-- The ways to read the start of a bound that leave something of it. -/
theorem runPieces_bound {ds r : PyText} (hds : ∀ c ∈ ds, c.isDigit = true)
    (hne : ds ≠ [])
    (hr : NotStarting isBound r) :
    ∃ others, runPieces boundGroup.pieces (ds ++ r)
        = (Piece.run (.maybe isUnit) r).map (fun ab => (ds ++ ab.1, ab.2)) ++
          others ∧
      ∀ ab ∈ others, ∃ d s, ab.2 = d :: s ∧ d.isDigit = true := by
  obtain ⟨more, hsplits, hmore⟩ :=
    splits_append (p := isBound) (fun c hc => isBound_of_isDigit (hds c hc)) hr
  have hlen : 1 ≤ ds.length := List.length_pos_iff.mpr hne
  have hmany : Piece.run (.many 1 isBound) (ds ++ r)
      = (ds, r) :: more.filter (fun ab => decide (1 ≤ ab.1.length)) := by
    rw [Piece.run, hsplits]
    exact List.filter_cons_of_pos (decide_eq_true hlen)
  have hpieces : ∀ t, runPieces boundGroup.pieces t =
      (Piece.run (.many 1 isBound) t).flatMap
      (fun xy => (Piece.run (.maybe isUnit) xy.2).map (fun ab =>
        (xy.1 ++ ab.1, ab.2))) := by
    intro t
    simp [boundGroup, group, runPieces]
  refine ⟨(more.filter (fun ab => decide (1 ≤ ab.1.length))).flatMap
    (fun xy => (Piece.run (.maybe isUnit) xy.2).map (fun ab =>
      (xy.1 ++ ab.1, ab.2))), ?_, ?_⟩
  · rw [hpieces, hmany, List.flatMap_cons]
  · intro ab hab
    obtain ⟨xy, hxy, hab⟩ := List.mem_flatMap.mp hab
    obtain ⟨d, s, hxy2, hd⟩ := hmore xy (List.mem_filter.mp hxy).1
    have hdigit := hds d hd
    have hunit : isUnit d = false := by
      unfold isUnit
      rw [Bool.or_eq_false_iff, Bool.or_eq_false_iff]
      refine ⟨⟨?_, ?_⟩, ?_⟩ <;>
      · rw [beq_eq_false_iff_ne]
        intro heq
        subst heq
        exact absurd hdigit (by decide)
    rw [hxy2, Piece.run] at hab
    simp only [hunit, Bool.false_eq_true, if_false, List.map_singleton,
      List.append_nil,
      List.mem_singleton] at hab
    exact ⟨d, s, by rw [hab], hdigit⟩

/-- A bound with a unit. -/
theorem run_bound_unit {ds t : PyText} {x : Char} {segs : Pattern}
    (hds : ∀ c ∈ ds, c.isDigit = true) (hne : ds ≠ []) (hx : isUnit x = true)
    (hbound : isBound x = false) (hsegs : Blocks isBoundPart segs) :
    run (boundGroup :: segs) (ds ++ x :: t)
      = (run segs t).map (fun caps => (ds ++ [x]) :: caps) := by
  obtain ⟨others, hruns, hothers⟩ :=
    runPieces_bound hds hne (notStarting_cons hbound t)
  refine run_of_first (([] : List (PyText × PyText)) ++ (ds, x :: t) ::
    others) ?_ ?_
  · rw [hruns, Piece.run]
    simp [hx]
  · intro ab hab
    rcases List.mem_cons.mp hab with rfl | hab
    · exact hsegs x t (by simp [isBoundPart, hx])
    · obtain ⟨d, s, hab2, hd⟩ := hothers ab hab
      rw [hab2]
      exact hsegs d s (by simp [isBoundPart, hd])

/-- A bound without a unit. -/
theorem run_bound_plain {ds r : PyText} {segs : Pattern}
    (hds : ∀ c ∈ ds, c.isDigit = true)
    (hne : ds ≠ []) (hbound : NotStarting isBound r)
    (hunit : NotStarting isUnit r)
    (hsegs : Blocks isBoundPart segs) :
    run (boundGroup :: segs) (ds ++ r) =
      (run segs r).map (fun caps => ds :: caps) := by
  obtain ⟨others, hruns, hothers⟩ := runPieces_bound hds hne hbound
  have hmaybe : Piece.run (.maybe isUnit) r = [([], r)] := by
    cases r with
    | nil => rfl
    | cons c s => simp [Piece.run, hunit c s rfl]
  refine run_of_first others ?_ ?_
  · rw [hruns, hmaybe]
    simp
  · intro ab hab
    obtain ⟨d, s, hab2, hd⟩ := hothers ab hab
    rw [hab2]
    exact hsegs d s (by simp [isBoundPart, hd])

/-- **A printed bound** is read if there is a unit for it, below `2^40`. -/
theorem run_boundText (k : Nat) {c : Char} {w t : PyText} {segs : Pattern}
    (hc : c = ',' ∨ c = ')') :
    run (boundGroup :: text (c :: w) :: segs) (boundText k ++ c :: t)
      = if k / 10 ≤ 3
        then (run (text (c :: w) :: segs) (c :: t)).map (fun caps =>
        boundText k :: caps)
        else [] := by
  have hblocks : Blocks isBoundPart (text (c :: w) :: segs) := by
    rcases hc with rfl | rfl <;> exact blocks_text (by decide) w segs
  have hstart : NotStarting isBound (c :: t) ∧ NotStarting isUnit (c :: t) := by
    rcases hc with rfl | rfl <;>
      exact ⟨notStarting_cons (by decide) t, notStarting_cons (by decide) t⟩
  have hds : ∀ d ∈ ofNat (2 ^ (k % 10)), d.isDigit = true :=
    fun d hd => isDigit_of_mem_ofNat hd
  have hne := ofNat_ne_nil (2 ^ (k % 10))
  have hlarge : ∀ x : Char, isBound x = false → isUnit x = false → x ≠ ',' →
      x ≠ ')' →
      run (boundGroup :: text (c :: w) :: segs) (ofNat (2 ^ (k % 10)) ++ [x] ++
        c :: t) = [] := by
    intro x hx1 hx2 hx3 hx4
    have hcx : c ≠ x := by
      rcases hc with rfl | rfl
      · exact hx3.symm
      · exact hx4.symm
    rw [List.append_assoc, List.singleton_append,
      run_bound_plain hds hne (notStarting_cons hx1 _)
      (notStarting_cons hx2 _) hblocks, run_text_of_ne hcx]
    rfl
  unfold boundText
  rcases Nat.lt_or_ge 3 (k / 10) with hk | hk
  · rw [if_neg (by omega)]
    unfold unitText
    split <;> first
      | omega
      | exact hlarge _ (by decide) (by decide) (by decide) (by decide)
  · rw [if_pos hk]
    obtain h | h | h | h : k / 10 = 0 ∨ k / 10 = 1 ∨ k / 10 = 2 ∨
      k / 10 = 3 := by omega
    · rw [h, unitText, List.append_nil]
      exact run_bound_plain hds hne hstart.1 hstart.2 hblocks
    all_goals
      rw [h, unitText, List.append_assoc, List.singleton_append]
      exact run_bound_unit hds hne (by decide) (by decide) hblocks

/-- A row, its range apart. -/
theorem histRow_eq (h : Hist) (most : Nat) (i : Fin 65) :
    ∃ m w, histRow h most i = rangeText i ++ (List.replicate m ' ' ++
      (ofNat (h i).toNat ++ ' ' :: '|' :: (w ++ ['|']))) := by
  refine ⟨16 - (rangeText i).length + (8 - (ofNat (h i).toNat).length),
    padRight 52 (List.replicate (52 * (h i).toNat / most) '@'), ?_⟩
  rw [List.replicate_add]
  simp only [histRow, padRight, padLeft, List.append_assoc]
  rfl

/-- A range begins with a bracket. -/
theorem rangeText_first (i : Fin 65) :
    ∃ c t, rangeText i = c :: t ∧ (c = '(' ∨ c = '[') := by
  unfold rangeText
  split
  · exact ⟨_, _, rfl, Or.inl rfl⟩
  · split
    · exact ⟨_, _, rfl, Or.inr rfl⟩
    · split
      · exact ⟨_, _, rfl, Or.inr rfl⟩
      · exact ⟨_, _, rfl, Or.inr rfl⟩

/-- A row of a histogram has no blanks at its ends. -/
theorem strip_histRow (h : Hist) (most : Nat) (i : Fin 65) :
    strip (histRow h most i) = histRow h most i := by
  obtain ⟨m, w, hrow⟩ := histRow_eq h most i
  obtain ⟨c, t, hrange, hc⟩ := rangeText_first i
  rw [hrow, hrange]
  refine strip_of_ends (y := '|') rfl ?_ ?_ (by decide)
  · simp [List.getLast?_append, List.getLast?_cons]
  · rcases hc with rfl | rfl <;> decide

/-- An integer that a float can hold is read back from it. -/
theorem intOfFloat_natCast {n : Nat} (h : n < floatLimit) :
    intOfFloat (n : ℚ) = .ok (n : Int) := by
  unfold intOfFloat
  rw [if_neg (by rw [not_le]; exact_mod_cast h)]
  exact congrArg Except.ok (Rat.floor_intCast (n : Int))

/-- A numeral begins with a digit. -/
theorem ofNat_eq_cons (n : Nat) :
    ∃ d ds, ofNat n = d :: ds ∧ isSpace d = false := by
  obtain ⟨d, ds, hd⟩ := List.exists_cons_of_ne_nil (ofNat_ne_nil n)
  refine ⟨d, ds, hd, isSpace_of_isDigit (isDigit_of_mem_ofNat (n := n) ?_)⟩
  rw [hd]
  exact List.mem_cons_self

section

variable [UnicodeDb]

/-- A numeral is read as a float. -/
theorem floatOfText_ofNat (n : Nat) : floatOfText (ofNat n) = .ok (n : ℚ) := by
  have hdot : ¬ ['.'] <:+: ofNat n := by
    intro hi
    have hmem : '.' ∈ ofNat n := hi.subset List.mem_cons_self
    exact absurd (isDigit_of_mem_ofNat hmem) (by decide)
  unfold floatOfText
  rw [splitOn_eq_singleton hdot]
  simp [ofNat_ne_nil, digitsValue_ofNat]

/-- A bound without a unit is read as its number. -/
theorem parseBucketBound_plain {n : Nat} (h : n < floatLimit) :
    parseBucketBound (ofNat n) = .ok (n : Int) := by
  obtain ⟨d, ds, hfirst, hspace⟩ := ofNat_eq_cons n
  obtain ⟨e, hlast, hdigit⟩ := getLast?_ofNat n
  have hstrip : strip (ofNat n) = ofNat n :=
    strip_of_ends hfirst hlast hspace (isSpace_of_isDigit hdigit)
  have hmult : sizeMult e = none := by
    have hne : ∀ c : Char, c.isDigit = false → e ≠ c := by
      intro c hc heq
      rw [heq, hc] at hdigit
      exact absurd hdigit (by decide)
    simp [sizeMult, hne 'K' (by decide), hne 'M' (by decide),
      hne 'G' (by decide)]
  simp only [parseBucketBound, hstrip, hlast, Option.bind_some, hmult,
    floatOfText_ofNat]
  exact intOfFloat_natCast h

/-- A bound with a unit is read as so many of it. -/
theorem parseBucketBound_unit {n mult : Nat} {x : Char}
    (hx : sizeMult x = some mult)
    (hspace : isSpace x = false) (h : n * mult < floatLimit) :
    parseBucketBound (ofNat n ++ [x]) = .ok ((n * mult : Nat) : Int) := by
  obtain ⟨d, ds, hfirst, hd⟩ := ofNat_eq_cons n
  have hlast : (ofNat n ++ [x]).getLast? = some x := by simp
  have hstrip : strip (ofNat n ++ [x]) = ofNat n ++ [x] := by
    refine strip_of_ends (x := d) (t := ds ++ [x]) ?_ hlast hd hspace
    rw [hfirst]
    rfl
  simp only [parseBucketBound, hstrip, hlast, Option.bind_some, hx,
    List.dropLast_concat,
    floatOfText_ofNat]
  have := intOfFloat_natCast h
  rw [Nat.cast_mul] at this
  exact this

/-- **A bound is read back.** -/
theorem parseBucketBound_boundText {k : Nat} (hk : k / 10 ≤ 3) :
    parseBucketBound (boundText k) = .ok ((2 ^ k : Nat) : Int) := by
  have hpow : 2 ^ k = 2 ^ (k % 10) * 1024 ^ (k / 10) := by
    rw [show (1024 : Nat) = 2 ^ 10 by rfl, ← Nat.pow_mul, ← Nat.pow_add]
    congr 1
    omega
  have hlt : 2 ^ k < floatLimit := by
    refine lt_floatLimit_of_lt ?_
    exact Nat.pow_lt_pow_right (by decide) (by omega)
  rw [hpow] at hlt ⊢
  unfold boundText
  obtain h | h | h | h : k / 10 = 0 ∨ k / 10 = 1 ∨ k / 10 = 2 ∨ k / 10 = 3 := by
    omega
  · rw [h, pow_zero, mul_one] at hlt ⊢
    rw [unitText, List.append_nil]
    exact parseBucketBound_plain hlt
  all_goals
    rw [h] at hlt ⊢
    exact parseBucketBound_unit rfl (by decide) hlt

/-! ### Rows -/

/-- What the pattern of a row expects behind the bounds. -/
def rowTail : Pattern :=
  [skip (.many 1 isSpace), numGroup, skip (.many 1 isSpace), text ['|']]

/-- The count of a row does not begin with a blank. -/
theorem blocks_blank_numGroup (segs : Pattern) :
    Blocks (fun c => c == ' ') (numGroup :: segs) := by
  intro d r hd
  obtain rfl : d = ' ' := by simpa using hd
  exact run_many_of_notStarting true (by decide)
    (notStarting_decimal (by decide) (by decide) r)

/-- The count of a row, between blanks. -/
theorem run_rowTail (m n : Nat) (w : PyText) :
    run rowTail (List.replicate m ' ' ++ (ofNat n ++ ' ' :: '|' :: w))
      = if m = 0 then [] else [[ofNat n]] := by
  have hspace : NotStarting isSpace (ofNat n ++ ' ' :: '|' :: w) :=
    notStarting_space_ofInt (n : Int) _
  have hdecimal : NotStarting isDecimal (' ' :: '|' :: w) :=
    notStarting_decimal (by decide) (by decide) _
  have hblocks : Blocks Char.isDigit [skip (.many 1 isSpace), text ['|']] := by
    intro d r hd
    exact run_many_of_notStarting false (by decide)
      (notStarting_cons (isSpace_of_isDigit hd) r)
  have hbar : run [skip (.many 1 isSpace), text ['|']] (' ' :: '|' :: w) =
      [[]] := by
    have hsplit : ' ' :: '|' :: w = [' '] ++ (['|'] ++ w) := rfl
    have hstart : NotStarting isSpace (['|'] ++ w) :=
      notStarting_cons (by decide) w
    rw [hsplit, skip,
      run_many (q := isSpace) false (by decide) (by decide) (by decide) hstart
      (blocks_text (by decide) [] _), run_text_append]
    rfl
  have hblank : ∀ c ∈ List.replicate m ' ', c = ' ' :=
    fun c hc => List.eq_of_mem_replicate hc
  by_cases hm : m = 0
  · subst hm
    rw [if_pos rfl, List.replicate_zero, List.nil_append]
    exact run_many_of_notStarting false (by decide) hspace
  · have hlen : 1 ≤ (List.replicate m ' ').length := by
      rw [List.length_replicate]
      omega
    have hfirst := run_many (q := fun c => c == ' ') false
      (fun c hc => by rw [hblank c hc]; decide)
        (fun c hc => by rw [hblank c hc]; decide) hlen hspace
      (blocks_blank_numGroup [skip (.many 1 isSpace), text ['|']])
    rw [if_neg hm]
    refine hfirst.trans ?_
    rw [run_numGroup n hdecimal hblocks, hbar]
    rfl

/-- The pattern of a row, in its parts. -/
theorem histBucketRe_eq :
    histBucketRe = text ['['] :: boundGroup :: text [',', ' '] ::
    boundGroup :: text [')'] :: rowTail := rfl

/-- A range that is no interval. -/
theorem run_histBucketRe_point (n : Nat) (t : PyText) :
    run histBucketRe ('[' :: ofNat n ++ ']' :: t) = [] := by
  have hline : '[' :: ofNat n ++ ']' :: t = ['['] ++ (ofNat n ++ ']' :: t) :=
    rfl
  rw [hline, histBucketRe_eq, run_text_append,
    run_bound_plain (fun c hc => isDigit_of_mem_ofNat hc) (ofNat_ne_nil n)
      (notStarting_cons (by decide) t) (notStarting_cons (by decide) t)
      (blocks_text (by decide) _ _), run_text_of_ne (by decide)]
  rfl

/-- An interval. -/
theorem run_histBucketRe_interval (j k m n : Nat) (w : PyText) :
    run histBucketRe ('[' :: boundText j ++ ", ".toList ++
      boundText k ++ [')'] ++
        (List.replicate m ' ' ++ (ofNat n ++ ' ' :: '|' :: w)))
      = if j / 10 ≤ 3 ∧ k / 10 ≤ 3 ∧
        m ≠ 0 then [[boundText j, boundText k, ofNat n]] else [] := by
  have hline : '[' :: boundText j ++ ", ".toList ++ boundText k ++ [')'] ++
      (List.replicate m ' ' ++ (ofNat n ++ ' ' :: '|' :: w))
      = ['['] ++ (boundText j ++ ',' :: ' ' :: (boundText k ++ ')' ::
        (List.replicate m ' ' ++ (ofNat n ++ ' ' :: '|' :: w)))) := by simp
  have hcomma :
      ∀ r, run (text [',', ' '] :: boundGroup :: text [')'] ::
      rowTail) (',' :: ' ' :: r)
      = run (boundGroup :: text [')'] :: rowTail) r :=
        fun r => run_text_append [',', ' '] r _
  have hclose : ∀ r, run (text [')'] :: rowTail) (')' :: r) = run rowTail r :=
    fun r => run_text_append [')'] r _
  rw [hline, histBucketRe_eq, run_text_append, run_boundText j (Or.inl rfl),
    hcomma,
    run_boundText k (Or.inr rfl), hclose, run_rowTail]
  by_cases hj : j / 10 ≤ 3
  · by_cases hk : k / 10 ≤ 3
    · by_cases hm : m = 0
      · simp [hm]
      · simp [hj, hk, hm]
    · simp [hk]
  · simp [hj]

/-- **A row of a histogram is read without an exception.** -/
theorem succeeds_parseBucket (h : Hist) (most : Nat) (i : Fin 65) :
    PyError.Succeeds (parseBucket (histRow h most i)) := by
  obtain ⟨m, w, hrow⟩ := histRow_eq h most i
  have hnone : run histBucketRe (histRow h most i) = [] →
      PyError.Succeeds (parseBucket (histRow h most i)) := by
    intro hrun
    rw [parseBucket, strip_histRow, match?, hrun]
    exact PyError.succeeds_ok _
  by_cases h0 : i = 0
  · refine hnone ?_
    rw [hrow, h0]
    exact run_text_of_ne (by decide) [] _ _
  · by_cases h1 : i = 1
    · refine hnone ?_
      rw [hrow, h1]
      exact run_histBucketRe_point 0 _
    · by_cases h2 : i = 2
      · refine hnone ?_
        rw [hrow, h2]
        exact run_histBucketRe_point 1 _
      · have hrange : rangeText i
            = '[' :: boundText (i - 2) ++ ", ".toList ++ boundText (i - 1) ++
              [')'] := by
          simp only [rangeText, if_neg h0, if_neg h1, if_neg h2]
        have hrun :=
          run_histBucketRe_interval (i - 2) (i - 1) m (h i).toNat (w ++ ['|'])
        rw [← hrange, ← hrow] at hrun
        split at hrun
        case isTrue hunits =>
          rw [parseBucket, strip_histRow, match?, hrun]
          simp only [List.head?_cons, parseBucketBound_boundText hunits.1,
            parseBucketBound_boundText hunits.2.1, pyInt_word]
          exact PyError.succeeds_ok _
        case isFalse => exact hnone hrun

end

end Telemetryd
