import Telemetryd.LastTick
import Telemetryd.LogFile

/-!
# The tail of a log

The reader of the process statistics reads the last two megabytes of the log,
wherever they begin.  What it takes from them is the part between the last two
markers.  A marker is a line of its own, so it is found where it stands, also if
the bytes before it are cut in the middle of a line, a marker or a character.
-/

namespace Telemetryd

open PyText Utf8

/-- `_last_complete_tick` of `backend/proc_stats.py` -/
def lastCompleteTick (text : PyText) : PyText := (lastComplete text).getD []

/-- The bytes from the marker before the last complete tick on fit into the
tail that is read. -/
def InTail (maxBytes : Nat) (log : Bytes) : Prop :=
  log.length ≤ maxBytes ∨ ∃ before after, AtLineStart before ∧
    log = before ++ ascii tickMarker ++ after ∧ ascii tickMarker <:+: after ∧
    (ascii tickMarker ++ after).length ≤ maxBytes

theorem endsLine_decode {b : Bytes} (h : AtLineStart b) :
    EndsLine (decode b) := by
  rcases h with rfl | ⟨a, rfl⟩
  · exact Or.inl rfl
  · exact Or.inr ⟨decode a, decode_ascii_cut toNat_newline a []⟩

/-- The tail is enough. -/
theorem lastComplete_readTail {maxBytes : Nat} {log : Bytes}
    (h : InTail maxBytes log) :
    lastComplete (readTail maxBytes (some log)) =
      lastComplete (decode log) := by
  unfold readTail
  dsimp only
  split
  case isFalse => rfl
  case isTrue hlen =>
    rcases h with h | ⟨before, after, hstart, rfl, hmark, hfit⟩
    · omega
    · have hbefore : (before ++ ascii tickMarker ++ after).length - maxBytes ≤
          before.length := by
        simp only [List.length_append] at hfit ⊢
        omega
      have hdecode : ∀ b : Bytes, decode (b ++ ascii tickMarker ++ after)
          = decode b ++ tickMarker ++ decode after :=
        fun b => decode_ascii_between (by decide) (by decide) b after
      have hrest : tickMarker <:+: decode after :=
        (infix_decode_iff (by decide) (by decide)).mpr hmark
      rw [List.append_assoc,
        List.drop_append_of_le_length (by rwa [List.append_assoc] at hbefore),
        ← List.append_assoc, ← List.append_assoc, hdecode, hdecode,
        lastComplete_of_marker (endsLine_decode (hstart.drop _)) hrest,
        lastComplete_of_marker (endsLine_decode hstart) hrest]

/-! ### Windows -/

/-- A marker begins at this byte. -/
def MarkerAt (bytes : Bytes) (i : Nat) : Prop :=
  ascii tickMarker <+: bytes.drop i

/-- Every marker is a line of its own. -/
def MarkersAreLines (log : Bytes) : Prop :=
  ∀ i, MarkerAt log i → AtLineStart (log.take i) ∧
    ∀ b ∈ (log.drop (i + tickMarker.length)).head?, b = newline

theorem MarkerAt.lt {bytes : Bytes} {i : Nat} (h : MarkerAt bytes i) :
    i < bytes.length := by
  obtain ⟨rest, hrest⟩ := h
  have hlen := congrArg List.length hrest
  rw [List.length_append, List.length_drop] at hlen
  have hpos : 0 < (ascii tickMarker).length := by decide
  omega

theorem atLineStart_iff {b : Bytes} :
    AtLineStart b ↔ ∀ c ∈ b.getLast?, c = newline := by
  constructor
  · rintro (rfl | ⟨a, rfl⟩) c hc
    · cases hc
    · simpa using hc.symm
  · intro hlast
    rcases List.eq_nil_or_concat b with rfl | ⟨a, c, rfl⟩
    · exact Or.inl rfl
    · rw [List.concat_eq_append] at hlast ⊢
      have hc : c = newline := hlast c (by simp)
      exact Or.inr ⟨a, by rw [hc]⟩

/-- What a byte must be is decided on the byte, not over all bytes there are. -/
instance (priority := high) decidableForallByte (o : Option UInt8) :
    Decidable (∀ b ∈ o, b = newline) := Option.decidableForallMem o

instance (b : Bytes) : Decidable (AtLineStart b) :=
  decidable_of_iff _ atLineStart_iff.symm

instance (bytes : Bytes) (i : Nat) : Decidable (MarkerAt bytes i) :=
  inferInstanceAs (Decidable (_ <+: _))

instance (log : Bytes) : Decidable (MarkersAreLines log) :=
  decidable_of_iff (∀ i < log.length, MarkerAt log i →
      AtLineStart (log.take i) ∧
      ∀ b ∈ (log.drop (i + tickMarker.length)).head?, b = newline)
    ⟨fun h i hi => h i hi.lt hi, fun h i _ => h i⟩

/-- The last `maxBytes` bytes, all of a log that is not longer. -/
def lastBytes (maxBytes : Nat) (log : Bytes) : Bytes :=
  log.drop (log.length - maxBytes)

/-- A line that starts behind a marker starts behind all of it. -/
theorem marker_behind {log : Bytes} {i j : Nat} (hij : i < j)
    (hi : MarkerAt log i)
    (hj : MarkerAt log j) (hline : AtLineStart (log.take j)) :
    i + tickMarker.length < j := by
  by_contra hnear
  have hlong := hj.lt
  obtain ⟨rest, hrest⟩ := hi
  -- the byte before the line is a byte of the marker
  have hbyte : log[j - 1]? = (ascii tickMarker)[j - 1 - i]? := by
    have hdrop : (log.drop i)[j - 1 - i]? = log[j - 1]? := by
      rw [List.getElem?_drop, show i + (j - 1 - i) = j - 1 by omega]
    have hlen : (ascii tickMarker).length = tickMarker.length :=
      List.length_map _
    rw [← hdrop, ← hrest, List.getElem?_append_left (by omega)]
  have hnewline : log[j - 1]? = some newline := by
    rcases hline with hnil | ⟨a, ha⟩
    · have := congrArg List.length hnil
      rw [List.length_take, List.length_nil] at this
      omega
    · have hlen := congrArg List.length ha
      rw [List.length_take, List.length_append, List.length_singleton] at hlen
      have htake : (log.take j)[j - 1]? = log[j - 1]? :=
        List.getElem?_take_of_lt (by omega)
      rw [← htake, ha, List.getElem?_append_right (by omega),
        show j - 1 - a.length = 0 by omega]
      rfl
  rw [hnewline] at hbyte
  have hmem : newline ∈ ascii tickMarker := List.mem_of_getElem? hbyte.symm
  exact absurd hmem (by decide)

/-- A window with two markers has all that is needed. -/
theorem inTail_of_markers {log : Bytes} {maxBytes i j : Nat}
    (hlines : MarkersAreLines log)
    (hij : i < j) (hi : MarkerAt (lastBytes maxBytes log) i)
    (hj : MarkerAt (lastBytes maxBytes log) j) : InTail maxBytes log := by
  unfold MarkerAt lastBytes at hi hj
  rw [List.drop_drop] at hi hj
  generalize hoff : log.length - maxBytes = off at hi hj
  have hbehind :=
    marker_behind (show off + i < off + j by omega) hi hj (hlines _ hj).1
  have hlen : (ascii tickMarker).length = tickMarker.length := List.length_map _
  obtain ⟨after, hafter⟩ := hi
  have hlog : log = log.take (off + i) ++ ascii tickMarker ++ after := by
    rw [List.append_assoc, hafter, List.take_append_drop]
  refine Or.inr ⟨log.take (off + i), after, (hlines _ ⟨after, hafter⟩).1,
    hlog, ?_, ?_⟩
  · obtain ⟨k, hk⟩ : ∃ k, off + j = off + i + (tickMarker.length + k) :=
      ⟨off + j - (off + i + tickMarker.length), by omega⟩
    have hdrop : log.drop (off + j) = after.drop k := by
      rw [hk, ← List.drop_drop, ← hafter, ← List.drop_drop,
        List.drop_left' hlen]
    have hfirst : ascii tickMarker <+: after.drop k := hdrop ▸ hj
    exact hfirst.isInfix.trans (List.drop_suffix _ _).isInfix
  · rw [hafter, List.length_drop]
    omega

/-- **The tail is as good as the log.**  In the log every marker is a line of
its own; all other bytes are arbitrary.  If the last bytes that are read have
two markers, or are the whole log, the last complete tick is that of the whole
log, wherever they begin. -/
theorem tick_of_tail (log : Bytes) (maxBytes : Nat)
    (hlines : MarkersAreLines log)
    (hwindow : (∃ i j, i < j ∧ MarkerAt (lastBytes maxBytes log) i ∧
      MarkerAt (lastBytes maxBytes log) j) ∨ log.length ≤ maxBytes) :
    lastCompleteTick (readTail maxBytes (some log)) =
      lastCompleteTick (decode log) := by
  have htail : InTail maxBytes log := by
    rcases hwindow with ⟨i, j, hij, hi, hj⟩ | hshort
    · exact inTail_of_markers hlines hij hi hj
    · exact Or.inl hshort
  unfold lastCompleteTick
  rw [lastComplete_readTail htail]

/-- Three ticks; the second one has a byte that is no UTF-8. -/
def threeTicks : Bytes :=
  ascii "x\n---TICK---\n".toList ++ 0xff ::
    ascii "y\n---TICK---\nz\n---TICK---\n".toList

/-- The last thirty bytes begin inside the first marker. -/
theorem tick_of_tail_threeTicks :
    lastCompleteTick (readTail 30 (some threeTicks)) = "\nz\n".toList := by
  have h := tick_of_tail threeTicks 30 (by decide +kernel)
    (Or.inl ⟨6, 19, by decide, by decide +kernel, by decide +kernel⟩)
  exact h.trans (by decide +kernel)

end Telemetryd
