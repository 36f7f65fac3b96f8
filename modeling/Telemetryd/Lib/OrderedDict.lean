import Mathlib.Data.List.Nodup
import Mathlib.Data.List.Perm.Basic

/-!
# Dictionaries in insertion order

An `OrderedDict` is a finite map that remembers the order in which its keys
were first inserted, as a Python `dict` does: assigning to a present key
keeps its place, assigning to a new key appends it, and deleting a key closes
the gap.  The absence of repeated keys is a field of the structure, so every
operation below re-establishes it once and no later proof has to.

The lookup laws (`get?_insert`, `get?_erase`, `get?_mapValues`) determine a
dictionary up to order; the item laws say what happens to the order.
-/

universe u v w

/-- A finite map with its keys in the order of their first insertion. -/
structure OrderedDict (K : Type u) (V : Type v) where
  items : List (K × V)
  nodup : (items.map Prod.fst).Nodup
  deriving DecidableEq

namespace OrderedDict

variable {K : Type u} {V : Type v} {W : Type w}

/-- The dictionary with no entries. -/
def empty : OrderedDict K V := ⟨[], by simp⟩

/-- The keys, oldest first. -/
def keys (d : OrderedDict K V) : List K := d.items.map Prod.fst

/-- The values, in the order of their keys. -/
def values (d : OrderedDict K V) : List V := d.items.map Prod.snd

/-- Rewrite every value, keeping keys and order. -/
def mapValues (f : K → V → W) (d : OrderedDict K V) : OrderedDict K W :=
  ⟨d.items.map (fun e => (e.1, f e.1 e.2)), by
    have h : (d.items.map (fun e => (e.1, f e.1 e.2))).map Prod.fst
        = d.items.map Prod.fst := by simp
    rw [h]
    exact d.nodup⟩

/-- The empty dictionary has no entry. -/
@[simp] theorem items_empty : (empty : OrderedDict K V).items = [] := rfl

/-- Nor has it a key. -/
@[simp] theorem keys_empty : (empty : OrderedDict K V).keys = [] := rfl

/-- The keys differ. -/
theorem keys_nodup (d : OrderedDict K V) : d.keys.Nodup := d.nodup

/-- The entries of a dictionary are all different. -/
theorem nodup_items (d : OrderedDict K V) : d.items.Nodup :=
  List.Nodup.of_map Prod.fst d.nodup

/-- Changing the values keeps the keys. -/
@[simp] theorem keys_mapValues (f : K → V → W) (d : OrderedDict K V) :
    (d.mapValues f).keys = d.keys := by simp [keys, mapValues]

/-- The values after a change. -/
theorem values_mapValues (f : K → V → W) (d : OrderedDict K V) :
    (d.mapValues f).values = d.items.map (fun e => f e.1 e.2) := by
  simp [values, mapValues]

variable [DecidableEq K]

/-- The value of the first entry whose key is `k`. -/
def look (k : K) : List (K × V) → Option V
  | [] => none
  | (k', v) :: rest => if k' = k then some v else look k rest

/-- The first entry is looked at first. -/
theorem look_cons (k : K) (e : K × V) (l : List (K × V)) :
    look k (e :: l) = if e.1 = k then some e.2 else look k l := rfl

/-- Overwrite the entry of `k` in place, or append one. -/
def upsert (k : K) (v : V) : List (K × V) → List (K × V)
  | [] => [(k, v)]
  | (k', v') :: rest =>
      if k' = k then (k, v) :: rest else (k', v') :: upsert k v rest

/-- The key that is put is there, and those that were. -/
theorem mem_keys_upsert {k j : K} {v : V} {l : List (K × V)} :
    j ∈ (upsert k v l).map Prod.fst ↔ j = k ∨ j ∈ l.map Prod.fst := by
  induction l with
  | nil => simp [upsert]
  | cons e rest ih =>
      obtain ⟨k', v'⟩ := e
      by_cases h : k' = k
      · subst h
        simp [upsert]
      · simp only [upsert, if_neg h, List.map_cons, List.mem_cons, ih]
        tauto

/-- Putting a value keeps the keys different. -/
theorem nodup_upsert {k : K} {v : V} {l : List (K × V)}
    (h : (l.map Prod.fst).Nodup) : ((upsert k v l).map Prod.fst).Nodup := by
  induction l with
  | nil => simp [upsert]
  | cons e rest ih =>
      obtain ⟨k', v'⟩ := e
      simp only [List.map_cons, List.nodup_cons] at h
      by_cases hk : k' = k
      · subst hk
        simpa [upsert] using h
      · simp only [upsert, if_neg hk, List.map_cons, List.nodup_cons]
        refine ⟨?_, ih h.2⟩
        rw [mem_keys_upsert]
        rintro (rfl | hmem)
        · exact hk rfl
        · exact h.1 hmem

/-- A new key comes last. -/
theorem upsert_of_notMem {k : K} {v : V} {l : List (K × V)}
    (h : k ∉ l.map Prod.fst) : upsert k v l = l ++ [(k, v)] := by
  induction l with
  | nil => rfl
  | cons e rest ih =>
      obtain ⟨k', v'⟩ := e
      simp only [List.map_cons, List.mem_cons, not_or] at h
      simp [upsert, Ne.symm h.1, ih h.2]

/-- A key that is there keeps its place. -/
theorem keys_upsert_of_mem {k : K} {v : V} {l : List (K × V)}
    (h : k ∈ l.map Prod.fst) :
    (upsert k v l).map Prod.fst = l.map Prod.fst := by
  induction l with
  | nil => simp at h
  | cons e rest ih =>
      obtain ⟨k', v'⟩ := e
      by_cases hk : k' = k
      · subst hk
        simp [upsert]
      · have hrest : k ∈ rest.map Prod.fst := by
          simpa [Ne.symm hk] using h
        simp [upsert, hk, ih hrest]

/-- Looking up after putting a value. -/
theorem look_upsert (k j : K) (v : V) (l : List (K × V)) :
    look j (upsert k v l) = if j = k then some v else look j l := by
  induction l with
  | nil => simp [upsert, look, eq_comm]
  | cons e rest ih =>
      obtain ⟨k', v'⟩ := e
      by_cases hk : k' = k
      · subst hk
        by_cases h : j = k'
        · simp [upsert, look, h]
        · simp [upsert, look, h, Ne.symm h]
      · by_cases h : k' = j
        · subst h
          simp [upsert, look, hk]
        · simp [upsert, look, hk, h, ih]

/-- Nothing is found exactly if the key is not there. -/
theorem look_eq_none_iff {k : K} {l : List (K × V)} :
    look k l = none ↔ k ∉ l.map Prod.fst := by
  induction l with
  | nil => simp [look]
  | cons e rest ih =>
      obtain ⟨k', v'⟩ := e
      by_cases h : k' = k
      · simp [look, h]
      · simp [look, h, ih, Ne.symm h]

/-- A value is found exactly if it is there with the key. -/
theorem look_eq_some_iff {k : K} {v : V} {l : List (K × V)}
    (h : (l.map Prod.fst).Nodup) : look k l = some v ↔ (k, v) ∈ l := by
  induction l with
  | nil => simp [look]
  | cons e rest ih =>
      obtain ⟨k', v'⟩ := e
      simp only [List.map_cons, List.nodup_cons] at h
      by_cases hk : k' = k
      · subst hk
        have hno : (k', v) ∉ rest := fun hm =>
          h.1 (List.mem_map.mpr ⟨_, hm, rfl⟩)
        simp [look, hno, eq_comm]
      · simp [look, hk, ih h.2, Ne.symm hk]

/-- The order of the entries plays no part in looking up a key. -/
theorem look_eq_of_perm {l l' : List (K × V)} (hp : l.Perm l')
    (h : (l.map Prod.fst).Nodup) (k : K) :
    look k l = look k l' := by
  have h' : (l'.map Prod.fst).Nodup := (hp.map Prod.fst).nodup_iff.mp h
  apply Option.ext
  intro v
  rw [look_eq_some_iff h, look_eq_some_iff h', hp.mem_iff]

/-- The value stored under `k`. -/
def get? (d : OrderedDict K V) (k : K) : Option V := look k d.items

/-- Assignment `d[k] = v`. -/
def insert (d : OrderedDict K V) (k : K) (v : V) : OrderedDict K V :=
  ⟨upsert k v d.items, nodup_upsert d.nodup⟩

/-- Deletion of a key, present or not. -/
def erase (d : OrderedDict K V) (k : K) : OrderedDict K V :=
  ⟨d.items.filter (fun e => decide (e.1 ≠ k)),
    d.nodup.sublist (List.filter_sublist.map _)⟩

/-- Assign a list of entries one after the other. -/
def insertAll (d : OrderedDict K V) (entries : List (K × V)) :
    OrderedDict K V :=
  entries.foldl (fun d e => d.insert e.1 e.2) d

/-- Nothing is found in the empty dictionary. -/
@[simp] theorem get?_empty (k : K) : (empty : OrderedDict K V).get? k = none :=
  rfl

/-- A value is found exactly if it is there with the key. -/
theorem get?_eq_some_iff {d : OrderedDict K V} {k : K} {v : V} :
    d.get? k = some v ↔ (k, v) ∈ d.items := look_eq_some_iff d.nodup

/-- Nothing is found exactly if the key is not there. -/
theorem get?_eq_none_iff {d : OrderedDict K V} {k : K} :
    d.get? k = none ↔ k ∉ d.keys := look_eq_none_iff

/-- A key is there exactly if a value is found. -/
theorem mem_keys_iff {d : OrderedDict K V} {k : K} :
    k ∈ d.keys ↔ ∃ v, d.get? k = some v := by
  rw [← Option.isSome_iff_exists, ← Option.ne_none_iff_isSome, Ne,
    get?_eq_none_iff,
    not_not]

/-- Dictionaries with the same values have the same entries, up to their
order. -/
theorem perm_items_of_get? {d d' : OrderedDict K V}
    (h : ∀ k, d.get? k = d'.get? k) :
    d.items.Perm d'.items := by
  refine (List.perm_ext_iff_of_nodup d.nodup_items d'.nodup_items).mpr fun e =>
    ?_
  rw [← get?_eq_some_iff, ← get?_eq_some_iff, h]

/-- Dictionaries with the same keys can be read one by the keys of the other. -/
theorem perm_items_of_keys {d d' : OrderedDict K V}
    (h : ∀ k, k ∈ d.keys ↔ k ∈ d'.keys) (v : V) :
    d'.items.Perm (d.items.map fun e => (e.1, (d'.get? e.1).getD v)) := by
  have hkeys : (d.items.map fun e => (e.1, (d'.get? e.1).getD v)).map Prod.fst =
      d.keys := by
    rw [List.map_map]
    rfl
  have hnodup : (d.items.map fun e => (e.1, (d'.get? e.1).getD v)).Nodup := by
    refine List.Nodup.of_map Prod.fst ?_
    rw [hkeys]
    exact d.nodup
  refine (List.perm_ext_iff_of_nodup d'.nodup_items hnodup).mpr fun ⟨k, w⟩ => ?_
  rw [← get?_eq_some_iff]
  constructor
  · intro hget
    obtain ⟨⟨_, x⟩, he, rfl⟩ :=
      List.mem_map.mp ((h k).mpr (mem_keys_iff.mpr ⟨w, hget⟩))
    exact List.mem_map.mpr ⟨_, he, by simp [hget]⟩
  · intro hmem
    obtain ⟨e, he, heq⟩ := List.mem_map.mp hmem
    obtain ⟨rfl, rfl⟩ := Prod.mk.inj heq
    obtain ⟨x, hx⟩ := mem_keys_iff.mp ((h e.1).mp (List.mem_map_of_mem he))
    rw [hx, Option.getD_some]

/-- A value is there exactly if some key has it. -/
theorem mem_values_iff {d : OrderedDict K V} {v : V} :
    v ∈ d.values ↔ ∃ k, d.get? k = some v := by
  simp [values, get?_eq_some_iff]

/-- **Assignment.**  The assigned key reads back, every other key is as it
was. -/
theorem get?_insert (d : OrderedDict K V) (k j : K) (v : V) :
    (d.insert k v).get? j = if j = k then some v else d.get? j :=
  look_upsert k j v d.items

/-- The value that was put is found. -/
@[simp] theorem get?_insert_self (d : OrderedDict K V) (k : K) (v : V) :
    (d.insert k v).get? k = some v := by simp [get?_insert]

/-- The other values are as they were. -/
theorem get?_insert_of_ne {d : OrderedDict K V} {k j : K} {v : V} (h : j ≠ k) :
    (d.insert k v).get? j = d.get? j := by simp [get?_insert, h]

/-- The key that is put is there, and those that were. -/
theorem mem_keys_insert {d : OrderedDict K V} {k j : K} {v : V} :
    j ∈ (d.insert k v).keys ↔ j = k ∨ j ∈ d.keys := mem_keys_upsert

/-- A new key comes last. -/
theorem items_insert_of_notMem {d : OrderedDict K V} {k : K} {v : V}
    (h : k ∉ d.keys) : (d.insert k v).items = d.items ++ [(k, v)] :=
  upsert_of_notMem h

/-- A key that is there keeps its place. -/
theorem keys_insert_of_mem {d : OrderedDict K V} {k : K} {v : V}
    (h : k ∈ d.keys) : (d.insert k v).keys = d.keys := keys_upsert_of_mem h

/-- **Deletion.**  The deleted key is gone, every other key is as it was. -/
theorem get?_erase (d : OrderedDict K V) (k j : K) :
    (d.erase k).get? j = if j = k then none else d.get? j := by
  apply Option.ext
  intro v
  rw [get?_eq_some_iff]
  by_cases h : j = k <;> simp [erase, h, get?_eq_some_iff]

/-- Looking up after a change of the values. -/
theorem get?_mapValues (f : K → V → W) (d : OrderedDict K V) (k : K) :
    (d.mapValues f).get? k = (d.get? k).map (f k) := by
  apply Option.ext
  intro w
  rw [get?_eq_some_iff]
  constructor
  · intro h
    obtain ⟨e, he, heq⟩ := List.mem_map.mp h
    obtain ⟨rfl, rfl⟩ := Prod.mk.inj heq
    simp [get?_eq_some_iff.mpr he]
  · intro h
    obtain ⟨v, hv, rfl⟩ := Option.map_eq_some_iff.mp h
    exact List.mem_map.mpr ⟨(k, v), get?_eq_some_iff.mp hv, rfl⟩

/-- Overwriting a value by one that looks the same through `g` keeps the list
of what is seen. -/
theorem map_values_insert {d : OrderedDict K V} {k : K} {v old : V} (g : V → W)
    (hk : d.get? k = some old) (hg : g v = g old) :
    (d.insert k v).values.map g = d.values.map g := by
  have key : ∀ l : List (K × V), look k l = some old →
      (upsert k v l).map (fun e => g e.2) = l.map (fun e => g e.2) := by
    intro l
    induction l with
    | nil => simp [look]
    | cons e rest ih =>
        obtain ⟨k', v'⟩ := e
        intro hl
        by_cases h : k' = k
        · have hv : v' = old := by simpa [look, h] using hl
          simp [upsert, h, hg, hv]
        · simp [upsert, h, ih (by simpa [look, h] using hl)]
  simpa [values, insert, Function.comp_def] using key d.items hk

/-- Overwriting is rewriting one value. -/
theorem insert_eq_mapValues {d : OrderedDict K V} {k : K} (h : k ∈ d.keys)
    (v : V) :
    d.insert k v = d.mapValues (fun j w => if j = k then v else w) := by
  have hitems : ∀ l : List (K × V), k ∈ l.map Prod.fst →
      (l.map Prod.fst).Nodup →
      upsert k v l = l.map (fun e => (e.1, if e.1 = k then v else e.2)) := by
    intro l
    induction l with
    | nil => exact fun hk => absurd hk List.not_mem_nil
    | cons e rest ih =>
        obtain ⟨k', v'⟩ := e
        intro hk hnd
        obtain ⟨hfresh, hnd⟩ := List.nodup_cons.mp hnd
        by_cases heq : k' = k
        · have hrest : rest.map (fun e => (e.1, if e.1 = k then v else e.2)) =
              rest := by
            conv_rhs => rw [← List.map_id rest]
            refine List.map_congr_left fun e he => ?_
            have hne : e.1 ≠ k := by
              intro hek
              have hmem : e.1 ∈ rest.map Prod.fst := List.mem_map_of_mem he
              rw [hek, ← heq] at hmem
              exact hfresh hmem
            rw [if_neg hne]
            rfl
          rw [List.map_cons, hrest]
          simp [upsert, heq]
        · have hin : k ∈ rest.map Prod.fst :=
            (List.mem_cons.mp hk).resolve_left (Ne.symm heq)
          rw [List.map_cons, ← ih hin hnd]
          simp [upsert, heq]
  simp only [insert, mapValues, OrderedDict.mk.injEq]
  exact hitems d.items h d.nodup

/-- Overwriting changes one entry. -/
theorem perm_insert {d : OrderedDict K V} {k : K} {old : V}
    (h : d.get? k = some old) (v : V) :
    ∃ rest, d.items.Perm ((k, old) :: rest) ∧
      (d.insert k v).items.Perm ((k, v) :: rest) := by
  have key : ∀ l : List (K × V), look k l = some old →
      ∃ rest, l.Perm ((k, old) :: rest) ∧
        (upsert k v l).Perm ((k, v) :: rest) := by
    intro l
    induction l with
    | nil => exact fun hl => absurd hl nofun
    | cons e l ih =>
        obtain ⟨k', v'⟩ := e
        intro hl
        by_cases hk : k' = k
        · obtain rfl : v' = old := by simpa [look, hk] using hl
          subst hk
          exact ⟨l, List.Perm.refl _, by simp [upsert]⟩
        · obtain ⟨rest, hl', hu⟩ := ih (by simpa [look, hk] using hl)
          refine ⟨(k', v') :: rest, (hl'.cons _).trans (List.Perm.swap _ _ _),
            ?_⟩
          simp only [upsert, if_neg hk]
          exact (hu.cons _).trans (List.Perm.swap _ _ _)
  exact key d.items h

/-- The value of a new key comes last. -/
theorem values_insert_of_notMem {d : OrderedDict K V} {k : K} {v : V}
    (h : k ∉ d.keys) : (d.insert k v).values = d.values ++ [v] := by
  simp [values, items_insert_of_notMem h]

/-- The keys after assigning a list of entries. -/
theorem mem_keys_insertAll {d : OrderedDict K V} {entries : List (K × V)}
    {j : K} :
    j ∈ (d.insertAll entries).keys ↔ j ∈ d.keys ∨ j ∈ entries.map Prod.fst := by
  induction entries generalizing d with
  | nil => simp [insertAll]
  | cons e rest ih =>
      have hstep : j ∈ (d.insertAll (e :: rest)).keys ↔
          j ∈ (d.insert e.1 e.2).keys ∨ j ∈ rest.map Prod.fst := ih
      rw [hstep, mem_keys_insert, List.map_cons, List.mem_cons]
      tauto

/-- Assigning entries with fresh, distinct keys appends them. -/
theorem items_insertAll (d : OrderedDict K V) (entries : List (K × V))
    (h : (d.keys ++ entries.map Prod.fst).Nodup) :
    (d.insertAll entries).items = d.items ++ entries := by
  induction entries generalizing d with
  | nil => simp [insertAll]
  | cons e rest ih =>
      have hfresh : e.1 ∉ d.keys := by
        intro hmem
        have hdis := (List.nodup_append.mp h).2.2
        exact hdis _ hmem _ (by simp) rfl
      have hitems := items_insert_of_notMem (v := e.2) hfresh
      have hnext : ((d.insert e.1 e.2).keys ++ rest.map Prod.fst).Nodup := by
        have : (d.insert e.1 e.2).keys ++ rest.map Prod.fst
            = d.keys ++ (e :: rest).map Prod.fst := by
          simp [keys, hitems]
        rw [this]
        exact h
      have hrest := ih (d.insert e.1 e.2) hnext
      calc (d.insertAll (e :: rest)).items
          = ((d.insert e.1 e.2).insertAll rest).items := rfl
        _ = (d.insert e.1 e.2).items ++ rest := hrest
        _ = d.items ++ (e :: rest) := by simp [hitems]

/-- A dictionary made of entries with distinct keys has them in their order. -/
theorem items_insertAll_empty {entries : List (K × V)}
    (h : (entries.map Prod.fst).Nodup) :
    ((empty : OrderedDict K V).insertAll entries).items = entries := by
  refine (items_insertAll empty entries ?_).trans (List.nil_append entries)
  rw [keys_empty, List.nil_append]
  exact h

/-- **Assigning entries.**  The last entry of a key counts, and the old value
where there is none. -/
theorem get?_insertAll (d : OrderedDict K V) (entries : List (K × V)) (k : K) :
    (d.insertAll entries).get? k =
      ((empty.insertAll entries).get? k).or (d.get? k) := by
  induction entries generalizing d with
  | nil => rfl
  | cons e rest ih =>
      have hd : (d.insertAll (e :: rest)).get? k
          = ((empty.insertAll rest).get? k).or ((d.insert e.1 e.2).get? k) :=
            ih _
      have hempty : ((empty : OrderedDict K V).insertAll (e :: rest)).get? k
          = ((empty.insertAll rest).get? k).or
            (((empty : OrderedDict K V).insert e.1 e.2).get? k) :=
        ih _
      rw [hd, hempty, Option.or_assoc, get?_insert, get?_insert]
      split
      · rfl
      · rw [get?_empty, Option.none_or]

/-- Two lists of entries are put one after the other. -/
theorem insertAll_append (d : OrderedDict K V) (a b : List (K × V)) :
    d.insertAll (a ++ b) = (d.insertAll a).insertAll b := List.foldl_append

/-- A dictionary made of entries has the last entry of each key. -/
theorem get?_insertAll_empty (entries : List (K × V)) (k : K) :
    ((empty : OrderedDict K V).insertAll entries).get? k
      = (entries.reverse.find? (fun e => decide (e.1 = k))).map Prod.snd := by
  induction entries with
  | nil => rfl
  | cons e rest ih =>
      have hstep : ((empty : OrderedDict K V).insertAll (e :: rest)).get? k
          = ((empty.insertAll rest).get? k).or
            (((empty : OrderedDict K V).insert e.1 e.2).get? k) :=
        get?_insertAll (empty.insert e.1 e.2) rest k
      rw [hstep, ih, get?_insert, List.reverse_cons, List.find?_append,
        Option.map_or]
      by_cases hkey : e.1 = k
      · simp [hkey]
      · simp [hkey, Ne.symm hkey]

/-! ### Renaming keys, rewriting values -/

/-- Looking up a key after the keys were renamed. -/
theorem look_mapKeys {f : K → K} {k : K} {l : List (K × V)}
    (h : ∀ j ∈ l.map Prod.fst, f j = f k → j = k) :
    look (f k) (l.map (Prod.map f id)) = look k l := by
  induction l with
  | nil => rfl
  | cons e rest ih =>
      have hrest := ih (fun j hj => h j (List.mem_cons_of_mem _ hj))
      rw [List.map_cons, look_cons, look_cons, hrest]
      by_cases hk : e.1 = k
      · simp [hk]
      · have hf : f e.1 ≠ f k := fun heq => hk (h e.1 List.mem_cons_self heq)
        simp [hk, hf]

/-- Assigning to a key after the keys were renamed. -/
theorem upsert_mapKeys {f : K → K} {k : K} {v : V} {l : List (K × V)}
    (h : ∀ j ∈ l.map Prod.fst, f j = f k → j = k) :
    upsert (f k) v (l.map (Prod.map f id)) =
      (upsert k v l).map (Prod.map f id) := by
  induction l with
  | nil => rfl
  | cons e rest ih =>
      obtain ⟨k', v'⟩ := e
      have hrest := ih (fun j hj => h j (List.mem_cons_of_mem _ hj))
      by_cases hk : k' = k
      · simp [upsert, hk]
      · have hf : f k' ≠ f k := fun heq => hk (h k' List.mem_cons_self heq)
        simp [upsert, hk, hf, hrest]

/-- Assigning to a key, and rewriting every value. -/
theorem mapValues_insert (f : K → V → W) (d : OrderedDict K V) (k : K) (v : V) :
    (d.insert k v).mapValues f = (d.mapValues f).insert k (f k v) := by
  have hitems : ∀ l : List (K × V),
      (upsert k v l).map (fun e => (e.1, f e.1 e.2))
      = upsert k (f k v) (l.map (fun e => (e.1, f e.1 e.2))) := by
    intro l
    induction l with
    | nil => rfl
    | cons e rest ih =>
        obtain ⟨k', v'⟩ := e
        by_cases hk : k' = k
        · simp [upsert, hk]
        · simp [upsert, hk, ih]
  simp only [insert, mapValues, OrderedDict.mk.injEq]
  exact hitems d.items

/-! ### Elements gathered by a key -/

variable {A : Type*}

/-- Put one element into the value of its key; `start` makes the value of a new
key, as `setdefault` does. -/
def gather (key : A → K) (start : A → V) (add : V → A → V) (d : OrderedDict K V)
    (a : A) :
    OrderedDict K V :=
  d.insert (key a) (add ((d.get? (key a)).getD (start a)) a)

/-- **Gathering**: the value of a key depends on the elements of that key. -/
theorem get?_foldl_gather (key : A → K) (start : A → V) (add : V → A → V)
    (l : List A)
    (d : OrderedDict K V) (k : K) :
    (l.foldl (gather key start add) d).get? k
      = (l.filter (fun a => decide (key a = k))).foldl (fun o a =>
          some (add (o.getD (start a)) a))
          (d.get? k) := by
  induction l generalizing d with
  | nil => rfl
  | cons a l ih =>
      rw [List.foldl_cons, ih, gather, get?_insert]
      by_cases h : key a = k
      · subst h
        simp
      · have hne : k ≠ key a := fun heq => h heq.symm
        simp [h, hne]

/-- The keys after gathering. -/
theorem mem_keys_foldl_gather (key : A → K) (start : A → V) (add : V → A → V)
    (l : List A)
    (d : OrderedDict K V) (k : K) :
    k ∈ (l.foldl (gather key start add) d).keys ↔ k ∈ d.keys ∨
      k ∈ l.map key := by
  induction l generalizing d with
  | nil => simp
  | cons a l ih =>
      rw [List.foldl_cons, ih, gather, mem_keys_insert, List.map_cons,
        List.mem_cons]
      tauto

end OrderedDict
