import Telemetryd.Lib.PyText

/-!
# The last complete tick of a log

Both readers of the collector's ticks cut the text of the log at the markers
and take the part before the last one: what follows it may still be written.
-/

namespace Telemetryd

open PyText

/-- The line that ends a tick. -/
def tickMarker : PyText := "---TICK---".toList

/-- `parts[-2]` of the text cut at the markers, if there is a marker. -/
def lastComplete (text : PyText) : Option PyText :=
  match (splitOn tickMarker text).reverse with
  | _ :: part :: _ => some part
  | _ => none

/-- The text ends where a line ends. -/
def EndsLine (t : PyText) : Prop := t = [] ∨ ∃ s, t = s ++ ['\n']

theorem splitlines_endsLine {p : PyText} (h : EndsLine p) (t : PyText) :
    splitlines (p ++ t) = splitlines p ++ splitlines t := by
  rcases h with rfl | ⟨s, rfl⟩
  · rfl
  · rw [List.append_assoc, List.singleton_append, splitlines_append_newline]

theorem EndsLine.append {p q : PyText} (hp : EndsLine p) (hq : EndsLine q) :
    EndsLine (p ++ q) := by
  rcases hq with rfl | ⟨s, rfl⟩
  · rw [List.append_nil]
    exact hp
  · exact Or.inr ⟨p ++ s, by rw [List.append_assoc]⟩

theorem tickMarker_ne_nil : tickMarker ≠ [] := by decide

theorem newline_notMem_tickMarker : '\n' ∉ tickMarker := by decide

/-- Cut at a marker that starts a line. -/
theorem splitOn_marker {x : PyText} (hx : EndsLine x) (rest : PyText) :
    splitOn tickMarker (x ++ tickMarker ++ rest)
      = splitOn tickMarker x ++ splitOn tickMarker rest := by
  rcases hx with rfl | ⟨s, rfl⟩
  · exact splitOn_sep tickMarker_ne_nil rest
  · exact splitOn_append tickMarker_ne_nil newline_notMem_tickMarker s rest

/-- **The last marker.**  The last complete part ends at the last marker. -/
theorem lastComplete_marker {x rest : PyText} (hx : EndsLine x)
    (hrest : ¬ tickMarker <:+: rest) :
    lastComplete (x ++ tickMarker ++ rest) =
      (splitOn tickMarker x).getLast? := by
  unfold lastComplete
  rw [splitOn_marker hx, splitOn_eq_singleton hrest, List.reverse_append,
    List.reverse_singleton,
    List.singleton_append, ← List.head?_reverse]
  cases h : (splitOn tickMarker x).reverse with
  | nil => exact absurd (List.reverse_eq_nil_iff.mp h) (splitGo_ne_nil _ _ _)
  | cons part parts => rfl

/-- Without a marker no tick is complete. -/
theorem lastComplete_no_marker {text : PyText} (h : ¬ tickMarker <:+: text) :
    lastComplete text = none := by
  unfold lastComplete
  rw [splitOn_eq_singleton h]
  rfl

/-- A log that starts with the tick. -/
theorem lastComplete_first {s rest : PyText} (hs : EndsLine s)
    (hmark : ¬ tickMarker <:+: s)
    (hrest : ¬ tickMarker <:+: rest) :
    lastComplete (s ++ tickMarker ++ rest) = some s := by
  rw [lastComplete_marker hs hrest, splitOn_eq_singleton hmark]
  rfl

/-- A log with a tick before the last one. -/
theorem lastComplete_later {x s rest : PyText} (hx : EndsLine x)
    (hs : EndsLine s)
    (hmark : ¬ tickMarker <:+: s) (hrest : ¬ tickMarker <:+: rest) :
    lastComplete (x ++ tickMarker ++ '\n' :: (s ++ tickMarker ++ rest)) =
      some ('\n' :: s) := by
  have hline : EndsLine (x ++ tickMarker ++ '\n' :: s) := by
    rcases hs with rfl | ⟨a, rfl⟩
    · exact Or.inr ⟨x ++ tickMarker, rfl⟩
    · exact Or.inr ⟨x ++ tickMarker ++ '\n' :: a, by simp⟩
  have hmark' : ¬ tickMarker <:+: '\n' :: s := by
    intro hi
    rcases List.infix_cons_iff.mp hi with hp | hi
    · exact absurd
        (List.prefix_nil.mp
        (prefix_left_of_notMem (l := []) newline_notMem_tickMarker hp))
        tickMarker_ne_nil
    · exact hmark hi
  have hassoc : x ++ tickMarker ++ '\n' :: (s ++ tickMarker ++ rest)
      = (x ++ tickMarker ++ '\n' :: s) ++ tickMarker ++ rest := by simp
  rw [hassoc, lastComplete_marker hline hrest, splitOn_marker hx,
    splitOn_eq_singleton hmark',
    List.getLast?_append]
  rfl

/-- What precedes a marker plays no part if another marker follows. -/
theorem lastComplete_of_marker {x rest : PyText} (hx : EndsLine x)
    (hrest : tickMarker <:+: rest) :
    lastComplete (x ++ tickMarker ++ rest) = lastComplete rest := by
  unfold lastComplete
  rw [splitOn_marker hx, List.reverse_append]
  cases h : (splitOn tickMarker rest).reverse with
  | nil => exact absurd (List.reverse_eq_nil_iff.mp h) (splitGo_ne_nil _ _ _)
  | cons last parts =>
      cases parts with
      | nil =>
          exact absurd (List.reverse_eq_cons_iff.mp h)
            (splitOn_ne_singleton tickMarker_ne_nil hrest last)
      | cons part parts => rfl

/-- What follows the last line feed plays no part unless it has a marker. -/
theorem lastComplete_append {x rest : PyText} (hx : EndsLine x)
    (hrest : ¬ tickMarker <:+: rest) :
    lastComplete (x ++ rest) = lastComplete x := by
  rcases hx with rfl | ⟨s, rfl⟩
  · rw [List.nil_append, lastComplete_no_marker hrest,
      lastComplete_no_marker (by decide)]
  · obtain ⟨ps, p, hs, hcut⟩ :=
      splitOn_across tickMarker_ne_nil newline_notMem_tickMarker s
      (splitOn_eq_singleton hrest)
    have hnil : splitOn tickMarker [] = [[]] := rfl
    obtain ⟨ps', p', hs', hend⟩ :=
      splitOn_across tickMarker_ne_nil newline_notMem_tickMarker s hnil
    rw [hs] at hs'
    obtain ⟨rfl, -⟩ := List.append_inj' hs' rfl
    unfold lastComplete
    rw [List.append_assoc, List.singleton_append, hcut, hend,
      List.reverse_append,
      List.reverse_append]
    cases ps.reverse with
    | nil => rfl
    | cons part parts => rfl

/-- What stands behind the last marker. -/
def unfinished (text : PyText) : PyText :=
  ((splitOn tickMarker text).getLast?).getD []

/-- The last complete tick is what was unfinished before its marker. -/
theorem lastComplete_eq_unfinished {x rest : PyText} (hx : EndsLine x)
    (hrest : ¬ tickMarker <:+: rest) :
    lastComplete (x ++ tickMarker ++ rest) = some (unfinished x) := by
  rw [lastComplete_marker hx hrest]
  unfold unfinished
  cases h : (splitOn tickMarker x).getLast? with
  | none => exact absurd (List.getLast?_eq_none_iff.mp h) (splitGo_ne_nil _ _ _)
  | some part => rfl

theorem unfinished_of_no_marker {t : PyText} (h : ¬ tickMarker <:+: t) :
    unfinished t = t := by
  unfold unfinished
  rw [splitOn_eq_singleton h]
  rfl

theorem unfinished_marker {x : PyText} (hx : EndsLine x) (rest : PyText) :
    unfinished (x ++ tickMarker ++ rest) = unfinished rest := by
  unfold unfinished
  rw [splitOn_marker hx, List.getLast?_append]
  cases h : (splitOn tickMarker rest).getLast? with
  | none => exact absurd (List.getLast?_eq_none_iff.mp h) (splitGo_ne_nil _ _ _)
  | some part => rfl

/-- A text without a marker is added to what is unfinished, unless it may
complete a marker. -/
theorem unfinished_append {x y : PyText} {c : Char} (hc : c ∉ tickMarker)
    (hy : ¬ tickMarker <:+: y) :
    unfinished (x ++ c :: y) = unfinished x ++ c :: y := by
  obtain ⟨ps, p, hx, hboth⟩ :=
    splitOn_across tickMarker_ne_nil hc x (splitOn_eq_singleton hy)
  unfold unfinished
  rw [hx, hboth]
  simp

end Telemetryd
