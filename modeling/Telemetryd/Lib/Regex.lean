import Telemetryd.Lib.PyText

/-!
# Regular expressions with groups

The part of Python's `re` that line formats are written in: literal text,
greedy repetition and option of a character class, a choice of literals and
`$`, arranged in a row of groups.  A pattern is run by backtracking: `run`
lists the texts of the captured groups for every way to match, in the order in
which the engine tries them, so that `re.match` returns the first.

The laws below compute `run` on a text that was rendered in the format.  A
repetition has one way to match when what follows it in the pattern cannot
start inside its class (`run_many`); where it can, the longest way that leads
to a match counts (`head?_run_longest`).
-/

namespace Regex

/-- One element of a pattern. -/
inductive Piece where
  /-- Literal text. -/
  | lit (s : PyText)
  /-- `p{least,}`, greedy. -/
  | many (least : Nat) (p : Char → Bool)
  /-- `p?`, greedy. -/
  | maybe (p : Char → Bool)
  /-- `s₁|s₂|…`. -/
  | oneOf (ss : List PyText)
  /-- `$`: the end, or a final line feed. -/
  | eos

/-- Some pieces in a row, captured as a group or not. -/
structure Segment where
  captured : Bool
  pieces : List Piece

/-- A pattern is a list of segments. -/
abbrev Pattern := List Segment

/-- The ways to take characters of a class from the front, most first. -/
def splits (p : Char → Bool) : PyText → List (PyText × PyText)
  | [] => [([], [])]
  | c :: s =>
      if p c then (splits p s).map (fun ab => (c :: ab.1, ab.2)) ++
        [([], c :: s)]
      else [([], c :: s)]

/-- The ways a piece matches at the front: what it takes and what it leaves. -/
def Piece.run : Piece → PyText → List (PyText × PyText)
  | .lit s, t => if s.isPrefixOf t then [(s, t.drop s.length)] else []
  | .many least p, t =>
      (splits p t).filter (fun ab => decide (least ≤ ab.1.length))
  | .maybe p, t => match t with
      | [] => [([], [])]
      | c :: s => if p c then [([c], s), ([], c :: s)] else [([], c :: s)]
  | .oneOf ss, t =>
      (ss.filter (fun s => s.isPrefixOf t)).map (fun s => (s, t.drop s.length))
  | .eos, t => if t = [] ∨ t = ['\n'] then [([], t)] else []

/-- The ways a row of pieces matches at the front. -/
def runPieces : List Piece → PyText → List (PyText × PyText)
  | [], t => [([], t)]
  | p :: ps, t =>
      (p.run t).flatMap (fun xy =>
        (runPieces ps xy.2).map (fun zw => (xy.1 ++ zw.1, zw.2)))

/-- The captured groups of every way to match. -/
def run : Pattern → PyText → List (List PyText)
  | [], _ => [[]]
  | seg :: segs, t =>
      (runPieces seg.pieces t).flatMap (fun xy =>
        (run segs xy.2).map (fun caps =>
        if seg.captured then xy.1 :: caps else caps))

/-- `re.match(pattern, t)`: the groups of the first way to match. -/
def match? (pattern : Pattern) (t : PyText) : Option (List PyText) :=
  (run pattern t).head?

/-- Literal text outside a group. -/
def text (s : PyText) : Segment := ⟨false, [.lit s]⟩

/-- A piece outside a group. -/
def skip (p : Piece) : Segment := ⟨false, [p]⟩

/-- A group. -/
def group (ps : List Piece) : Segment := ⟨true, ps⟩

/-! ### Literals -/

/-- A text matches itself. -/
@[simp] theorem run_text_append (s t : PyText) (segs : Pattern) :
    run (text s :: segs) (s ++ t) = run segs t := by
  have hp : s.isPrefixOf (s ++ t) = true := by
    rw [List.isPrefixOf_iff_prefix]
    exact List.prefix_append s t
  simp [run, text, runPieces, Piece.run, hp]

/-- A text matches nothing else. -/
theorem run_text_of_not_isPrefix {s t : PyText} (h : ¬ s <+: t)
    (segs : Pattern) :
    run (text s :: segs) t = [] := by
  have hp : ¬ s.isPrefixOf t = true := by
    rw [List.isPrefixOf_iff_prefix]
    exact h
  simp [run, text, runPieces, Piece.run, hp]

/-- A literal does not match where another character stands first. -/
theorem run_text_of_ne {c d : Char} (h : c ≠ d) (s t : PyText)
    (segs : Pattern) :
    run (text (c :: s) :: segs) (d :: t) = [] := by
  refine run_text_of_not_isPrefix ?_ segs
  intro hp
  exact h (List.cons_prefix_cons.mp hp).1

/-- Nor does it match the end. -/
@[simp] theorem run_text_nil_text {c : Char} (s : PyText) (segs : Pattern) :
    run (text (c :: s) :: segs) [] = [] := by
  refine run_text_of_not_isPrefix ?_ segs
  intro hp
  exact absurd (List.prefix_nil.mp hp) (by simp)

/-- One alternative fits. -/
theorem run_oneOf {ss : List PyText} {s t : PyText} {segs : Pattern}
    (h : ss.filter (fun x => x.isPrefixOf (s ++ t)) = [s]) :
    run (group [.oneOf ss] :: segs) (s ++ t) =
      (run segs t).map (fun caps => s :: caps) := by
  simp [run, group, runPieces, Piece.run, h]

/-! ### Repetition -/

/-- The text does not start with a character of the class. -/
def NotStarting (p : Char → Bool) (t : PyText) : Prop :=
  ∀ c s, t = c :: s → p c = false

/-- The end does not start with a character. -/
theorem notStarting_nil (p : Char → Bool) : NotStarting p [] := by
  intro c s h
  exact absurd h (by simp)

/-- Nor does a text with another one first. -/
theorem notStarting_cons {p : Char → Bool} {c : Char} (h : p c = false)
    (t : PyText) :
    NotStarting p (c :: t) := by
  intro d s heq
  obtain ⟨rfl, -⟩ := List.cons.inj heq
  exact h

/-- Then there is nothing to take. -/
theorem splits_of_notStarting {p : Char → Bool} {t : PyText}
    (ht : NotStarting p t) :
    splits p t = [([], t)] := by
  cases t with
  | nil => rfl
  | cons c s => simp [splits, ht c s rfl]

/-- The first way takes all characters of the class; each other way leaves one
of them. -/
theorem splits_append {p : Char → Bool} {x t : PyText}
    (hx : ∀ c ∈ x, p c = true)
    (ht : NotStarting p t) :
    ∃ others, splits p (x ++ t) = (x, t) :: others ∧
      ∀ ab ∈ others, ∃ d r, ab.2 = d :: r ∧ d ∈ x := by
  induction x with
  | nil =>
      exact ⟨[], splits_of_notStarting ht, fun ab h =>
        absurd h List.not_mem_nil⟩
  | cons c x ih =>
      have hc : p c = true := hx c List.mem_cons_self
      obtain ⟨others, hsplits, hothers⟩ :=
        ih (fun d hd => hx d (List.mem_cons_of_mem _ hd))
      refine ⟨others.map (fun ab => (c :: ab.1, ab.2)) ++ [([], c :: (x ++ t))],
        ?_, ?_⟩
      · simp [splits, hc, hsplits]
      · intro ab hab
        rcases List.mem_append.mp hab with hab | hab
        · obtain ⟨ab', hab', rfl⟩ := List.mem_map.mp hab
          obtain ⟨d, r, hr, hd⟩ := hothers ab' hab'
          exact ⟨d, r, hr, List.mem_cons_of_mem _ hd⟩
        · obtain rfl := List.mem_singleton.mp hab
          exact ⟨c, x ++ t, rfl, List.mem_cons_self⟩

/-- The rest of the pattern cannot start with a character of the class. -/
def Blocks (p : Char → Bool) (segs : Pattern) : Prop :=
  ∀ d r, p d = true → run segs (d :: r) = []

/-- A text with another character first blocks a run. -/
theorem blocks_text {p : Char → Bool} {c : Char} (h : p c = false) (s : PyText)
    (segs : Pattern) :
    Blocks p (text (c :: s) :: segs) := by
  intro d r hd
  refine run_text_of_ne ?_ s r segs
  intro heq
  rw [heq, hd] at h
  exact absurd h (by decide)

/-- Where each gives nothing, all give nothing. -/
theorem flatMap_nil_of_forall {α β : Type*} {f : α → List β} {l : List α}
    (h : ∀ a ∈ l, f a = []) : l.flatMap f = [] := by
  rw [List.flatMap_eq_nil_iff]
  exact h

/-- What a row of pieces consumes when its first way is the only one the rest
of the pattern can follow. -/
theorem run_of_first {seg : Segment} {segs : Pattern} {x s t : PyText}
    (others : List (PyText × PyText))
    (h : runPieces seg.pieces s = (x, t) :: others)
    (hothers : ∀ ab ∈ others, run segs ab.2 = []) :
    run (seg :: segs) s =
      (run segs t).map (fun caps => if seg.captured then x :: caps
        else caps) := by
  rw [run, h, List.flatMap_cons]
  have hnil : others.flatMap (fun xy => (run segs xy.2).map (fun caps =>
      if seg.captured then xy.1 :: caps else caps)) = [] := by
    refine flatMap_nil_of_forall fun ab hab => ?_
    rw [hothers ab hab]
    rfl
  rw [hnil, List.append_nil]

/-- A single piece. -/
theorem runPieces_singleton (p : Piece) (t : PyText) :
    runPieces [p] t = p.run t := by
  simp [runPieces]

/-- **One way to repeat.**  A repetition takes all it can when the rest of the
pattern cannot start with any of it. -/
theorem run_many {p q : Char → Bool} {least : Nat} {x t : PyText}
    {segs : Pattern} (b : Bool)
    (hx : ∀ c ∈ x, p c = true) (hq : ∀ c ∈ x, q c = true)
    (hleast : least ≤ x.length)
    (ht : NotStarting p t) (hsegs : Blocks q segs) :
    run (⟨b, [.many least p]⟩ :: segs) (x ++ t) =
      (run segs t).map (fun caps => if b then x :: caps else caps) := by
  obtain ⟨others, hsplits, hothers⟩ := splits_append hx ht
  refine run_of_first (others.filter (fun ab =>
    decide (least ≤ ab.1.length))) ?_ ?_
  · rw [runPieces_singleton, Piece.run, hsplits]
    exact List.filter_cons_of_pos (decide_eq_true hleast)
  · intro ab hab
    obtain ⟨d, r, hab2, hd⟩ := hothers ab (List.mem_filter.mp hab).1
    rw [hab2]
    exact hsegs d r (hq d hd)

/-- A repetition fails where fewer characters of its class stand. -/
theorem run_many_of_notStarting {p : Char → Bool} {least : Nat} {t : PyText}
    {segs : Pattern}
    (b : Bool) (hleast : 0 < least) (ht : NotStarting p t) :
    run (⟨b, [.many least p]⟩ :: segs) t = [] := by
  simp [run, runPieces_singleton, Piece.run, splits_of_notStarting ht,
    hleast.ne']

/-- A repetition that may be empty takes nothing where its class does not
stand. -/
theorem run_many_zero {p : Char → Bool} {t : PyText} (b : Bool)
    (ht : NotStarting p t)
    (segs : Pattern) : run (⟨b, [.many 0 p]⟩ :: segs) t =
      (run segs t).map (fun caps => if b then [] :: caps else caps) := by
  simp [run, runPieces_singleton, Piece.run, splits_of_notStarting ht]

/-- A repetition that may be empty blocks what the rest blocks, outside its own
class. -/
theorem blocks_many_zero {p q : Char → Bool} {segs : Pattern} (b : Bool)
    (hpq : ∀ d, p d = true → q d = false) (h : Blocks p segs) :
    Blocks p (⟨b, [.many 0 q]⟩ :: segs) := by
  intro d r hd
  rw [run_many_zero b (notStarting_cons (hpq d hd) r), h d r hd]
  rfl

/-- Every way to repeat takes characters of the class and leaves the rest. -/
theorem sound_of_mem_splits {p : Char → Bool} {s : PyText} {e : PyText × PyText}
    (h : e ∈ splits p s) : s = e.1 ++ e.2 ∧ ∀ c ∈ e.1, p c = true := by
  induction s generalizing e with
  | nil =>
      obtain rfl := List.mem_singleton.mp h
      exact ⟨rfl, fun c hc => absurd hc List.not_mem_nil⟩
  | cons d s ih =>
      unfold splits at h
      split at h
      case isTrue hd =>
        rcases List.mem_append.mp h with h | h
        · obtain ⟨e', he', rfl⟩ := List.mem_map.mp h
          obtain ⟨hs, hall⟩ := ih he'
          refine ⟨by rw [List.cons_append, ← hs], ?_⟩
          intro c hc
          rcases List.mem_cons.mp hc with rfl | hc
          · exact hd
          · exact hall c hc
        · obtain rfl := List.mem_singleton.mp h
          exact ⟨rfl, fun c hc => absurd hc List.not_mem_nil⟩
      case isFalse hd =>
        obtain rfl := List.mem_singleton.mp h
        exact ⟨rfl, fun c hc => absurd hc List.not_mem_nil⟩

/-- Every way to repeat, with the ways that take more than `x` in front. -/
theorem splits_longer {p : Char → Bool} {x : PyText} (hx : ∀ c ∈ x, p c = true)
    (t : PyText) :
    ∃ longer shorter, splits p (x ++ t) = longer ++ (x, t) :: shorter ∧
      ∀ ab ∈ longer, ∃ z, z ≠ [] ∧ t = z ++ ab.2 ∧ ∀ c ∈ z, p c = true := by
  induction x with
  | nil =>
      rw [List.nil_append]
      cases t with
      | nil => exact ⟨[], [], rfl, fun ab h => absurd h List.not_mem_nil⟩
      | cons c t =>
          by_cases hc : p c = true
          · refine ⟨(splits p t).map (fun ab => (c :: ab.1, ab.2)),
              [], by simp [splits, hc], ?_⟩
            intro ab hab
            obtain ⟨ab', hab', rfl⟩ := List.mem_map.mp hab
            obtain ⟨hs, hall⟩ := sound_of_mem_splits hab'
            refine ⟨c :: ab'.1, by simp, by rw [List.cons_append, ← hs], ?_⟩
            intro d hd
            rcases List.mem_cons.mp hd with rfl | hd
            · exact hc
            · exact hall d hd
          · exact ⟨[], [], by simp [splits, hc], fun ab h =>
              absurd h List.not_mem_nil⟩
  | cons c x ih =>
      have hc : p c = true := hx c List.mem_cons_self
      obtain ⟨longer, shorter, hsplits, hlonger⟩ :=
        ih (fun d hd => hx d (List.mem_cons_of_mem _ hd))
      refine ⟨longer.map (fun ab => (c :: ab.1, ab.2)),
        shorter.map (fun ab => (c :: ab.1, ab.2)) ++ [([], c :: (x ++ t))], ?_,
        ?_⟩
      · simp [splits, hc, hsplits]
      · intro ab hab
        obtain ⟨ab', hab', rfl⟩ := List.mem_map.mp hab
        exact hlonger ab' hab'

/-- **The longest way counts.**  Where a greedy repetition can take `x` and the
rest of the pattern then matches, and no way to take more leads to a match, the
groups are those of this way. -/
theorem head?_run_longest {p : Char → Bool} {x t : PyText} {segs : Pattern}
    (b : Bool)
    (hx : ∀ c ∈ x, p c = true) {caps : List PyText}
    (hmatch : (run segs t).head? = some caps)
    (hlonger : ∀ z w, z ≠ [] → t = z ++ w → (∀ c ∈ z, p c = true) →
      run segs w = []) :
    (run (⟨b, [.many 0 p]⟩ :: segs) (x ++ t)).head?
      = some (if b then x :: caps else caps) := by
  obtain ⟨longer, shorter, hsplits, hfail⟩ := splits_longer hx t
  obtain ⟨rest, hrest⟩ : ∃ rest, run segs t = caps :: rest := by
    cases hr : run segs t with
    | nil => rw [hr] at hmatch; exact absurd hmatch (by simp)
    | cons first rest =>
        rw [hr] at hmatch
        exact ⟨rest, by rw [Option.some.inj hmatch]⟩
  have hnil : longer.flatMap (fun xy => (run segs xy.2).map (fun caps =>
      if b then xy.1 :: caps else caps)) = [] := by
    refine flatMap_nil_of_forall fun ab hab => ?_
    obtain ⟨z, hz, ht, hall⟩ := hfail ab hab
    rw [hlonger z ab.2 hz ht hall]
    rfl
  have hfilter : (splits p (x ++ t)).filter (fun ab => decide (0 ≤ ab.1.length))
      = splits p (x ++ t) := by
    simp
  rw [run, runPieces_singleton, Piece.run, hfilter, hsplits,
    List.flatMap_append, hnil,
    List.nil_append, List.flatMap_cons, hrest]
  rfl

/-! ### Signed numerals -/

/-- `-?p+` -/
def signed (p : Char → Bool) : List Piece :=
  [.maybe (fun c => c == '-'), .many 1 p]

/-- Without a sign the digits follow at once. -/
theorem runPieces_signed_of_ne {p : Char → Bool} {c : Char} (hc : c ≠ '-')
    (t : PyText) :
    runPieces (signed p) (c :: t) = Piece.run (.many 1 p) (c :: t) := by
  have hbeq : (c == '-') = false := by simpa using hc
  simp [signed, runPieces, Piece.run, hbeq]

/-- With a sign they follow it. -/
theorem runPieces_signed_minus {p : Char → Bool} (hp : p '-' = false)
    (t : PyText) :
    runPieces (signed p) ('-' :: t) =
      (Piece.run (.many 1 p) t).map (fun ab => ('-' :: ab.1, ab.2)) := by
  have hsplits := splits_of_notStarting (notStarting_cons hp t)
  simp [signed, runPieces, Piece.run, hsplits]

/-- **One way to read a numeral**, with or without a sign. -/
theorem run_signed {p q : Char → Bool} {sign ds t : PyText} {segs : Pattern}
    (b : Bool)
    (hp : p '-' = false) (hsign : sign = [] ∨ sign = ['-'])
    (hds : ∀ c ∈ ds, p c = true)
    (hq : ∀ c ∈ ds, q c = true) (hne : ds ≠ []) (ht : NotStarting p t)
    (hsegs : Blocks q segs) :
    run (⟨b, signed p⟩ :: segs) (sign ++ ds ++ t) =
      (run segs t).map (fun caps => if b then (sign ++ ds) :: caps
        else caps) := by
  obtain ⟨others, hsplits, hothers⟩ := splits_append hds ht
  have hlen : 1 ≤ ds.length := List.length_pos_iff.mpr hne
  have hmany : Piece.run (.many 1 p) (ds ++ t)
      = (ds, t) :: others.filter (fun ab => decide (1 ≤ ab.1.length)) := by
    rw [Piece.run, hsplits]
    exact List.filter_cons_of_pos (decide_eq_true hlen)
  have hblock : ∀ ab ∈ others.filter (fun ab => decide (1 ≤ ab.1.length)),
      run segs ab.2 = [] := by
    intro ab hab
    obtain ⟨d, r, hab2, hd⟩ := hothers ab (List.mem_filter.mp hab).1
    rw [hab2]
    exact hsegs d r (hq d hd)
  rcases hsign with rfl | rfl
  · refine run_of_first _ ?_ hblock
    obtain ⟨d, ds', rfl⟩ := List.exists_cons_of_ne_nil hne
    have hd : d ≠ '-' := by
      intro heq
      have := hds d List.mem_cons_self
      rw [heq, hp] at this
      exact absurd this (by decide)
    exact (runPieces_signed_of_ne hd (ds' ++ t)).trans hmany
  · refine run_of_first ((others.filter
      (fun ab => decide (1 ≤ ab.1.length))).map (fun ab =>
        ('-' :: ab.1, ab.2))) ?_ ?_
    · show runPieces (signed p) ('-' :: (ds ++ t)) = _
      rw [runPieces_signed_minus hp, hmany]
      rfl
    · intro ab hab
      obtain ⟨ab', hab', rfl⟩ := List.mem_map.mp hab
      exact hblock ab' hab'

/-- A numeral does not start with a character that is no digit and no sign. -/
theorem run_signed_of_ne {p : Char → Bool} {c : Char} (hc : c ≠ '-')
    (hp : p c = false)
    (b : Bool) (t : PyText) (segs : Pattern) :
    run (⟨b, signed p⟩ :: segs) (c :: t) = [] := by
  have hsplits := splits_of_notStarting (notStarting_cons hp t)
  simp [run, runPieces_signed_of_ne hc, Piece.run, hsplits]

/-- A signed number blocks a run of other characters. -/
theorem blocks_signed {p q : Char → Bool} (b : Bool) (segs : Pattern)
    (h : ∀ d, p d = true → d ≠ '-' ∧ q d = false) :
    Blocks p (⟨b, signed q⟩ :: segs) :=
  fun d r hd => run_signed_of_ne (h d hd).1 (h d hd).2 b r segs

/-! ### The end -/

/-- The end matches at the end. -/
@[simp] theorem run_eos_nil (segs : Pattern) :
    run (skip .eos :: segs) [] = run segs [] := by
  simp [run, skip, runPieces, Piece.run]

/-- The end blocks a run. -/
theorem blocks_eos {p : Char → Bool} (h : p '\n' = false) (segs : Pattern) :
    Blocks p (skip .eos :: segs) := by
  intro d r hd
  have hne : d ≠ '\n' := by
    intro heq
    rw [heq, h] at hd
    exact absurd hd (by decide)
  simp [run, skip, runPieces, Piece.run, hne]

/-! ### Soundness -/

/-- What a piece takes and what it leaves are the text. -/
theorem append_of_mem_run {q : Piece} {t x r : PyText} (h : (x, r) ∈ q.run t) :
    t = x ++ r := by
  cases q with
  | lit s =>
      simp only [Piece.run] at h
      split at h
      case isTrue hp =>
        obtain ⟨rfl, rfl⟩ := Prod.mk.inj (List.mem_singleton.mp h)
        exact (List.prefix_append_drop (List.isPrefixOf_iff_prefix.mp hp))
      case isFalse => exact absurd h List.not_mem_nil
  | many least p => exact (sound_of_mem_splits (List.mem_filter.mp h).1).1
  | maybe p =>
      cases t with
      | nil =>
          obtain ⟨rfl, rfl⟩ := Prod.mk.inj (List.mem_singleton.mp h)
          rfl
      | cons c s =>
          simp only [Piece.run] at h
          split at h
          · simp only [List.mem_cons, Prod.mk.injEq, List.not_mem_nil,
              or_false] at h
            rcases h with ⟨rfl, rfl⟩ | ⟨rfl, rfl⟩
            · rfl
            · rfl
          · obtain ⟨rfl, rfl⟩ := Prod.mk.inj (List.mem_singleton.mp h)
            rfl
  | oneOf ss =>
      obtain ⟨s, hs, heq⟩ := List.mem_map.mp h
      obtain ⟨rfl, rfl⟩ := Prod.mk.inj heq
      exact List.prefix_append_drop
        (List.isPrefixOf_iff_prefix.mp (List.mem_filter.mp hs).2)
  | eos =>
      simp only [Piece.run] at h
      split at h
      · obtain ⟨rfl, rfl⟩ := Prod.mk.inj (List.mem_singleton.mp h)
        rfl
      · exact absurd h List.not_mem_nil

/-- What is taken and what is left are the text. -/
theorem append_of_mem_runPieces {ps : List Piece} {t x r : PyText}
    (h : (x, r) ∈ runPieces ps t) :
    t = x ++ r := by
  induction ps generalizing t x r with
  | nil =>
      obtain ⟨rfl, rfl⟩ := Prod.mk.inj (List.mem_singleton.mp h)
      rfl
  | cons q ps ih =>
      obtain ⟨⟨y, u⟩, hy, h⟩ := List.mem_flatMap.mp h
      obtain ⟨⟨z, w⟩, hz, heq⟩ := List.mem_map.mp h
      obtain ⟨rfl, rfl⟩ := Prod.mk.inj heq
      rw [append_of_mem_run hy, ih (show (z, w) ∈ runPieces ps u from hz),
        List.append_assoc]

/-- A match is one of the first segment and then of the others. -/
theorem mem_run_cons {seg : Segment} {segs : Pattern} {t : PyText}
    {caps : List PyText}
    (h : caps ∈ run (seg :: segs) t) :
    ∃ x r caps', (x, r) ∈ runPieces seg.pieces t ∧ caps' ∈ run segs r ∧
      caps = if seg.captured then x :: caps' else caps' := by
  obtain ⟨⟨x, r⟩, hx, h⟩ := List.mem_flatMap.mp h
  obtain ⟨caps', hcaps, rfl⟩ := List.mem_map.mp h
  exact ⟨x, r, caps', hx, hcaps, rfl⟩

/-- A group is no longer than the text. -/
theorem length_le_of_mem_run {segs : Pattern} {t : PyText} {caps : List PyText}
    (h : caps ∈ run segs t) : ∀ g ∈ caps, g.length ≤ t.length := by
  induction segs generalizing t caps with
  | nil =>
      rw [List.mem_singleton.mp h]
      exact fun g hg => absurd hg List.not_mem_nil
  | cons seg segs ih =>
      obtain ⟨x, r, caps', hx, hcaps, rfl⟩ := mem_run_cons h
      have hlen : t.length = x.length + r.length := by
        rw [append_of_mem_runPieces hx, List.length_append]
      have hrest : ∀ g ∈ caps', g.length ≤ t.length := by
        intro g hg
        have := ih hcaps g hg
        omega
      intro g hg
      split at hg
      · rcases List.mem_cons.mp hg with rfl | hg
        · omega
        · exact hrest g hg
      · exact hrest g hg

/-- What the end of a pattern matches stands at the end of the text. -/
theorem suffix_of_mem_run {segs rest : Pattern} {t : PyText}
    {caps : List PyText}
    (h : caps ∈ run (segs ++ rest) t) :
    ∃ x r caps', t = x ++ r ∧ caps' ∈ run rest r := by
  induction segs generalizing t caps with
  | nil => exact ⟨[], t, caps, rfl, h⟩
  | cons seg segs ih =>
      obtain ⟨x, r, caps', hx, hcaps, -⟩ := mem_run_cons h
      obtain ⟨y, r', caps'', hr, hrest⟩ := ih hcaps
      exact ⟨x ++ y, r',
        caps'', by
          rw [append_of_mem_runPieces hx, hr, List.append_assoc], hrest⟩

/-- A match of a text begins with it. -/
theorem mem_run_text {s t : PyText} {segs : Pattern} {caps : List PyText}
    (h : caps ∈ run (text s :: segs) t) :
    ∃ r, t = s ++ r ∧ caps ∈ run segs r := by
  by_cases hp : s <+: t
  · obtain ⟨r, rfl⟩ := hp
    rw [run_text_append] at h
    exact ⟨r, rfl, h⟩
  · rw [run_text_of_not_isPrefix hp] at h
    exact absurd h List.not_mem_nil

/-- A match of a run begins with characters of it. -/
theorem mem_run_many {b : Bool} {least : Nat} {p : Char → Bool} {t : PyText}
    {segs : Pattern}
    {caps : List PyText} (h : caps ∈ run (⟨b, [.many least p]⟩ :: segs) t) :
    ∃ x r caps', t = x ++ r ∧ (∀ c ∈ x, p c = true) ∧ caps' ∈ run segs r := by
  obtain ⟨x, r, caps', hx, hcaps, -⟩ := mem_run_cons h
  rw [runPieces_singleton] at hx
  obtain ⟨ht, hall⟩ := sound_of_mem_splits (List.mem_filter.mp hx).1
  exact ⟨x, r, caps', ht, hall, hcaps⟩

/-- What an option takes is of its class. -/
theorem forall_of_mem_maybe {p : Char → Bool} {t x r : PyText}
    (h : (x, r) ∈ Piece.run (.maybe p) t) : ∀ c ∈ x, p c = true := by
  intro c hc
  cases t with
  | nil =>
      obtain ⟨rfl, -⟩ := Prod.mk.inj (List.mem_singleton.mp h)
      exact absurd hc List.not_mem_nil
  | cons d s =>
      simp only [Piece.run] at h
      split at h
      case isTrue hd =>
        simp only [List.mem_cons, Prod.mk.injEq, List.not_mem_nil,
          or_false] at h
        rcases h with ⟨rfl, -⟩ | ⟨rfl, -⟩
        · rw [List.mem_singleton.mp hc]
          exact hd
        · exact absurd hc List.not_mem_nil
      case isFalse =>
        obtain ⟨rfl, -⟩ := Prod.mk.inj (List.mem_singleton.mp h)
        exact absurd hc List.not_mem_nil

/-- A match of a signed number begins with one. -/
theorem mem_run_signed {b : Bool} {p : Char → Bool} {t : PyText}
    {segs : Pattern}
    {caps : List PyText} (h : caps ∈ run (⟨b, signed p⟩ :: segs) t) :
    ∃ x r caps', t = x ++ r ∧ x ≠ [] ∧ (∀ c ∈ x, c = '-' ∨ p c = true) ∧
      caps' ∈ run segs r := by
  obtain ⟨x, r, caps', hx, hcaps, -⟩ := mem_run_cons h
  have ht := append_of_mem_runPieces hx
  refine ⟨x, r, caps', ht, ?_, ?_, hcaps⟩
  all_goals
    obtain ⟨⟨y, u⟩, hy, hx⟩ := List.mem_flatMap.mp hx
    obtain ⟨⟨z, w⟩, hz, heq⟩ := List.mem_map.mp hx
    obtain ⟨rfl, rfl⟩ := Prod.mk.inj heq
    rw [runPieces_singleton] at hz
    obtain ⟨hsplit, hlen⟩ := List.mem_filter.mp hz
  · intro hnil
    rw [(List.append_eq_nil_iff.mp hnil).2] at hlen
    exact absurd hlen (by decide)
  · intro c hc
    rcases List.mem_append.mp hc with hc | hc
    · exact Or.inl (by simpa using forall_of_mem_maybe hy c hc)
    · exact Or.inr ((sound_of_mem_splits hsplit).2 c hc)

/-- There is one capture for each group. -/
theorem length_of_mem_run {segs : Pattern} {t : PyText} {caps : List PyText}
    (h : caps ∈ run segs t) :
    caps.length = segs.countP (fun seg => seg.captured) := by
  induction segs generalizing t caps with
  | nil =>
      rw [List.mem_singleton.mp h]
      rfl
  | cons seg segs ih =>
      obtain ⟨x, r, caps', -, hcaps, rfl⟩ := mem_run_cons h
      rw [List.countP_cons, ← ih hcaps]
      split
      · rfl
      · rfl

/-- The captures of the end of a pattern stand at the end. -/
theorem captures_of_mem_run {segs rest : Pattern} {t : PyText}
    {caps : List PyText}
    (h : caps ∈ run (segs ++ rest) t) : ∃ r front back, caps = front ++ back ∧
      front.length = segs.countP (fun seg => seg.captured) ∧
        back ∈ run rest r := by
  induction segs generalizing t caps with
  | nil => exact ⟨t, [], caps, rfl, rfl, h⟩
  | cons seg segs ih =>
      obtain ⟨x, r, caps', -, hcaps, rfl⟩ := mem_run_cons h
      obtain ⟨r', front, back, rfl, hlen, hback⟩ := ih hcaps
      rw [List.countP_cons, ← hlen]
      cases seg.captured
      · exact ⟨r', front, back, rfl, rfl, hback⟩
      · exact ⟨r', x :: front, back, rfl, rfl, hback⟩

end Regex
