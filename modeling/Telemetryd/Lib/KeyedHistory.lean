import Mathlib.Data.List.DropRight
import Telemetryd.Lib.OrderedDict

/-!
# Histories by key

A dictionary of bounded histories.  A sample is put behind those of its key, and
a history that has become too long loses its oldest samples.  Whatever the
samples are, the history of a key is the last of that key's, as many as the
bound allows.
-/

namespace KeyedHistory

variable {K V : Type*} [DecidableEq K]

/-- Put a sample behind those of its key. -/
def push (trim : List V → List V) (h : OrderedDict K (List V))
    (sample : K × V) : OrderedDict K (List V) :=
  h.insert sample.1 (trim ((h.get? sample.1).getD [] ++ [sample.2]))

/-- The samples of a key, in order. -/
def samplesOf (key : K) (samples : List (K × V)) : List V :=
  samples.filterMap fun sample => if sample.1 = key then some sample.2 else none

/-- The history that is kept of a list of samples, none if there are no
samples. -/
def kept (bound : Nat) (samples : List V) : Option (List V) :=
  if samples = [] then none else some (samples.rtake bound)

/-- A history that is one sample too long loses its first. -/
def Trims (bound : Nat) (trim : List V → List V) : Prop :=
  ∀ l x, l.length ≤ bound → trim (l ++ [x]) = (l ++ [x]).rtake bound

/-- It is enough that the first goes when there is one too many, and nothing
before. -/
theorem Trims.of_cases {bound : Nat} {trim : List V → List V}
    (hfits : ∀ l, l.length ≤ bound → trim l = l)
    (hlong : ∀ l, l.length = bound + 1 → trim l = l.drop 1) :
    Trims bound trim := by
  intro l x hlen
  have hgrown : (l ++ [x]).length = l.length + 1 := List.length_append
  rw [List.rtake, hgrown]
  rcases Nat.lt_or_eq_of_le hlen with hlt | rfl
  · rw [hfits _ (by omega), Nat.sub_eq_zero_of_le hlt, List.drop_zero]
  · rw [hlong _ hgrown, Nat.add_sub_cancel_left]

/-- The samples of a key after one more. -/
theorem samplesOf_concat (key : K) (samples : List (K × V)) (sample : K × V) :
    samplesOf key (samples ++ [sample])
      = samplesOf key samples ++ if sample.1 = key then [sample.2] else [] := by
  unfold samplesOf
  rw [List.filterMap_append]
  congr 1
  by_cases h : sample.1 = key <;> simp [h]

/-- A sample of a key was recorded with it. -/
theorem mem_of_mem_samplesOf {key : K} {samples : List (K × V)} {v : V}
    (h : v ∈ samplesOf key samples) :
    (key, v) ∈ samples := by
  obtain ⟨sample, hmem, hsome⟩ := List.mem_filterMap.mp h
  by_cases hkey : sample.1 = key
  · rw [if_pos hkey] at hsome
    rwa [← hkey, ← Option.some.inj hsome]
  · rw [if_neg hkey] at hsome
    exact absurd hsome (by simp)

omit [DecidableEq K] in
/-- No more are taken than were asked for. -/
theorem length_rtake_le (l : List V) (bound : Nat) :
    (l.rtake bound).length ≤ bound := by
  rw [List.rtake, List.length_drop]
  omega

omit [DecidableEq K] in
/-- What was lost before does not matter. -/
theorem rtake_rtake_concat {bound : Nat} (hbound : 1 ≤ bound) (l : List V)
    (x : V) :
    (l.rtake bound ++ [x]).rtake bound = (l ++ [x]).rtake bound := by
  by_cases hlen : l.length ≤ bound
  · rw [show l.rtake bound =
      l by rw [List.rtake, Nat.sub_eq_zero_of_le hlen, List.drop_zero]]
  · have hkept : (l.drop (l.length - bound)).length = bound := by
      rw [List.length_drop]
      omega
    unfold List.rtake
    rw [List.length_append, List.length_append, hkept, List.length_singleton,
      List.drop_append_of_le_length (by omega),
      List.drop_append_of_le_length (by omega), List.drop_drop]
    congr 2
    omega

/-- What is kept, or nothing. -/
theorem getD_kept (bound : Nat) (samples : List V) :
    (kept bound samples).getD [] = samples.rtake bound := by
  unfold kept
  split
  case isTrue h => rw [h, List.rtake_nil, Option.getD_none]
  case isFalse h => rw [Option.getD_some]

variable {bound : Nat} {trim : List V → List V} (htrims : Trims bound trim)
    (hbound : 1 ≤ bound)

include htrims hbound

/-- The history of its key after a sample. -/
theorem trim_kept (samples : List V) (x : V) :
    trim ((kept bound samples).getD [] ++ [x]) =
      (samples ++ [x]).rtake bound := by
  rw [getD_kept, htrims _ _ (length_rtake_le _ _), rtake_rtake_concat hbound]

/-- **What the histories are** after any samples. -/
theorem get?_pushAll (samples : List (K × V)) (key : K) :
    (samples.foldl (push trim) .empty).get? key =
      kept bound (samplesOf key samples) := by
  induction samples using List.reverseRecOn generalizing key with
  | nil => rfl
  | append_singleton samples sample ih =>
      rw [List.foldl_append, List.foldl_cons, List.foldl_nil, push,
        OrderedDict.get?_insert, samplesOf_concat]
      by_cases hkey : key = sample.1
      · subst hkey
        rw [if_pos rfl, if_pos rfl, ih, trim_kept htrims hbound, kept,
          if_neg (by simp)]
      · rw [if_neg hkey, if_neg (Ne.symm hkey), List.append_nil, ih]

end KeyedHistory
