import Telemetryd.Lib.OrderedDict

/-!
# One list of entries, two dictionaries

The entries are assigned in order to a dictionary by key, and the keys, in the
same order, to a dictionary by a second index that the values have, or do not
have.  Later entries overwrite earlier ones in either dictionary, not always the
same ones in both.  The dictionaries lead to each other exactly when the last
entries of the keys and the last entries of the indexes are the same pairs.
-/

namespace TwoIndexes

open OrderedDict

variable {K I V : Type*} (g : V → Option I)

/-- The entries of the dictionary by index; a value without an index has
none. -/
def pairs (L : List (K × V)) : List (I × K) :=
  L.filterMap (fun e => (g e.2).map (fun i => (i, e.1)))

variable [DecidableEq K] [DecidableEq I]

/-- The index by key, in which a later entry takes the place of an earlier
one. -/
def byKey (L : List (K × V)) : OrderedDict K V := OrderedDict.empty.insertAll L

/-- The index by the second key. -/
def byIndex (L : List (K × V)) : OrderedDict I K :=
  OrderedDict.empty.insertAll (pairs g L)

/-- Each value is found by its index, and each index leads to such a value. -/
structure Inverse (d : OrderedDict K V) (o : OrderedDict I K) : Prop where
  found : ∀ k v, d.get? k = some v → ∃ i, g v = some i ∧ o.get? i = some k
  leads : ∀ i k, o.get? i = some k → ∃ v, d.get? k = some v ∧ g v = some i

/-- No later entry has the key of this one. -/
def LastByKey (L : List (K × V)) (a : K × V) : Prop :=
  L.reverse.find? (fun e => decide (e.1 = a.1)) = some a

/-- No later entry has the index of this one, which has one. -/
def LastByIndex (L : List (K × V)) (b : K × V) : Prop :=
  (g b.2).isSome ∧ L.reverse.find? (fun e => decide (g e.2 = g b.2)) = some b

variable {L : List (K × V)}

/-- A key leads to the last entry that has it. -/
theorem get?_byKey {k : K} {v : V} :
    (byKey L).get? k = some v ↔ LastByKey L (k, v) := by
  unfold byKey LastByKey
  rw [get?_insertAll_empty, Option.map_eq_some_iff]
  constructor
  · intro h
    obtain ⟨e, he, rfl⟩ := h
    obtain rfl : e.1 = k := by simpa using List.find?_some he
    exact he
  · exact fun h => ⟨(k, v), h, rfl⟩

/-- A key that occurs has a last entry. -/
theorem exists_lastByKey {e : K × V} (h : e ∈ L) :
    ∃ a, LastByKey L a ∧ a.1 = e.1 := by
  have hsome : (L.reverse.find? (fun x => decide (x.1 = e.1))).isSome :=
    List.find?_isSome.mpr ⟨e, List.mem_reverse.mpr h, by simp⟩
  obtain ⟨a, ha⟩ := Option.isSome_iff_exists.mp hsome
  have hkey : a.1 = e.1 := by simpa using List.find?_some ha
  refine ⟨a, ?_, hkey⟩
  unfold LastByKey
  rw [hkey]
  exact ha

/-- The last entry with a key is one of the entries. -/
theorem LastByKey.mem {a : K × V} (h : LastByKey L a) : a ∈ L :=
  List.mem_reverse.mp (List.mem_of_find?_eq_some h)

variable {g}

omit [DecidableEq K] in
/-- The last entry with a second key is one of the entries. -/
theorem LastByIndex.mem {b : K × V} (h : LastByIndex g L b) : b ∈ L :=
  List.mem_reverse.mp (List.mem_of_find?_eq_some h.2)

omit [DecidableEq K] in
/-- A second key leads to the key of the last entry that has it. -/
theorem get?_byIndex {i : I} {k : K} :
    (byIndex g L).get? i = some k ↔ ∃ v, g v = some i ∧
      LastByIndex g L (k, v) := by
  have hpair :
      ∀ e : K × V,
      ((g e.2).map (fun j => (j, e.1))).any (fun p => decide (p.1 = i))
      = decide (g e.2 = some i) := by
    intro e
    cases g e.2 <;> simp
  unfold byIndex pairs LastByIndex
  rw [get?_insertAll_empty, ← List.filterMap_reverse, List.find?_filterMap]
  simp only [hpair, Option.map_eq_some_iff, Option.bind_eq_some_iff]
  constructor
  · intro h
    obtain ⟨p, ⟨e, he, j, hj, rfl⟩, rfl⟩ := h
    have hg : g e.2 = some i := by simpa using List.find?_some he
    refine ⟨e.2, hg, ?_, ?_⟩
    · rw [hg]
      rfl
    · rw [hg]
      exact he
  · intro h
    obtain ⟨v, hv, -, hlast⟩ := h
    rw [hv] at hlast
    exact ⟨(i, k), ⟨(k, v), hlast, i, hv, rfl⟩, rfl⟩

omit [DecidableEq K] in
/-- A second key that occurs has a last entry. -/
theorem exists_lastByIndex {e : K × V} (h : e ∈ L) {i : I}
    (hi : g e.2 = some i) :
    ∃ b, LastByIndex g L b ∧ g b.2 = some i := by
  have hsome : (L.reverse.find? (fun x => decide (g x.2 = some i))).isSome :=
    List.find?_isSome.mpr ⟨e, List.mem_reverse.mpr h, by simp [hi]⟩
  obtain ⟨b, hb⟩ := Option.isSome_iff_exists.mp hsome
  have hindex : g b.2 = some i := by simpa using List.find?_some hb
  refine ⟨b, ⟨?_, ?_⟩, hindex⟩
  · rw [hindex]
    rfl
  · rw [hindex]
    exact hb

/-- **When the dictionaries lead to each other.** -/
theorem inverse_iff : Inverse g (byKey L) (byIndex g L) ↔
    (∀ a, LastByKey L a → (g a.2).isSome) ∧
      ∀ a b, LastByKey L a → LastByIndex g L b →
        (a.1 = b.1 ↔ g a.2 = g b.2) := by
  constructor
  · intro h
    have hfound : ∀ a, LastByKey L a → ∃ i, g a.2 = some i ∧
        (byIndex g L).get? i = some a.1 :=
      fun a ha => h.found a.1 a.2 (get?_byKey.mpr ha)
    refine ⟨?_, ?_⟩
    · intro a ha
      obtain ⟨i, hi, -⟩ := hfound a ha
      rw [hi]
      rfl
    · intro a b ha hb
      obtain ⟨i, hi⟩ := Option.isSome_iff_exists.mp hb.1
      have hkey : (byIndex g L).get? i = some b.1 :=
        get?_byIndex.mpr ⟨b.2, hi, hb⟩
      constructor
      · intro heq
        obtain ⟨v, hv, hvi⟩ := h.leads i b.1 hkey
        have hav : (byKey L).get? a.1 = some a.2 := get?_byKey.mpr ha
        rw [heq, hv] at hav
        obtain rfl := Option.some.inj hav
        rw [hvi, hi]
      · intro heq
        obtain ⟨j, hj, hjkey⟩ := hfound a ha
        rw [heq, hi] at hj
        obtain rfl := Option.some.inj hj
        rw [hkey] at hjkey
        exact (Option.some.inj hjkey).symm
  · intro h
    refine ⟨?_, ?_⟩
    · intro k v hv
      have ha : LastByKey L (k, v) := get?_byKey.mp hv
      obtain ⟨i, hi⟩ := Option.isSome_iff_exists.mp (h.1 (k, v) ha)
      obtain ⟨b, hb, hbi⟩ := exists_lastByIndex ha.mem hi
      have hkey : k = b.1 := (h.2 (k, v) b ha hb).mpr (hi.trans hbi.symm)
      refine ⟨i, hi, ?_⟩
      rw [hkey]
      exact get?_byIndex.mpr ⟨b.2, hbi, hb⟩
    · intro i k hk
      obtain ⟨v, hv, hb⟩ := get?_byIndex.mp hk
      obtain ⟨a, ha, hkey⟩ := exists_lastByKey hb.mem
      have hg : g a.2 = g v := (h.2 a (k, v) ha hb).mp hkey
      refine ⟨a.2, ?_, hg.trans hv⟩
      have hget := get?_byKey.mpr ha
      rw [hkey] at hget
      exact hget

end TwoIndexes
