import Telemetryd.CollectorSteps
import Telemetryd.Lib.GroupedSums

/-!
# What a map of counters counts

A counter is a word and runs over; it is the sum of the amounts that were added
under its key, modulo 2^64.  A key is there once something was added under it.
So from the list of what was counted both the keys and, below 2^64, the values
of a map are known.
-/

namespace Telemetryd.Counters

open GroupedSums

variable {α κ : Type} [DecidableEq κ]

theorem word_insert (m : Counters κ) (k j : κ) (v : UInt64) :
    word (m.insert k v) j = if j = k then v else word m j := by
  unfold word
  rw [OrderedDict.get?_insert]
  split <;> rfl

theorem word_add (m : Counters κ) (k j : κ) (v : UInt64) :
    word (add m k v) j = if j = k then word m k + v else word m j :=
  word_insert m k j _

/-- A counter is its entry. -/
theorem word_of_mem {m : Counters κ} {e : κ × UInt64} (h : e ∈ m.items) :
    word m e.1 = e.2 := by
  unfold word
  rw [OrderedDict.get?_eq_some_iff.mpr h]
  rfl

/-- The map counts the amounts of a list, each under its key. -/
structure Counts (m : Counters κ) (l : List α) (key : α → κ)
    (amount : α → Nat) : Prop where
  word_eq : ∀ k, word m k = UInt64.ofNat (groupSum key amount l k)
  mem_keys : ∀ k, k ∈ m.keys ↔ ∃ a ∈ l, key a = k

variable {m : Counters κ} {l : List α} {key : α → κ} {amount : α → Nat}

theorem counts_empty (key : α → κ) (amount : α → Nat) :
    Counts (.empty : Counters κ) [] key amount :=
  ⟨fun _ => rfl, fun k => by simp⟩

/-- **One more is counted.** -/
theorem Counts.add (h : Counts m l key amount) (a : α) {v : UInt64}
    (hv : v = UInt64.ofNat (amount a)) :
    Counts (Counters.add m (key a) v) (l ++ [a]) key amount := by
  constructor
  · intro k
    rw [word_add, groupSum_append, groupSum_cons, groupSum_nil, Nat.add_zero,
      UInt64.ofNat_add,
      h.word_eq, h.word_eq]
    by_cases hk : k = key a
    · rw [if_pos hk, if_pos hk.symm, hv, hk]
    · rw [if_neg hk, if_neg (Ne.symm hk)]
      exact (UInt64.add_zero _).symm
  · intro k
    unfold Counters.add
    rw [OrderedDict.mem_keys_insert, h.mem_keys]
    constructor
    · intro hk
      rcases hk with rfl | ⟨b, hb, hkey⟩
      · exact ⟨a, by simp, rfl⟩
      · exact ⟨b, List.mem_append_left _ hb, hkey⟩
    · intro ⟨b, hb, hkey⟩
      rcases List.mem_append.mp hb with hb | hb
      · exact Or.inr ⟨b, hb, hkey⟩
      · rw [List.mem_singleton.mp hb] at hkey
        exact Or.inl hkey.symm

/-- What is counted on a condition. -/
theorem Counts.ite (h : Counts m l key amount) (a : α) (b : Prop) [Decidable b]
    {v : UInt64}
    (hv : v = UInt64.ofNat (amount a)) :
    Counts (if b then Counters.add m (key a) v
      else m) (if b then l ++ [a] else l) key amount := by
  split
  · exact h.add a hv
  · exact h

/-- One more of which some are counted. -/
theorem Counts.filter {p : α → Bool} (h : Counts m (l.filter p) key amount)
    (a : α) {b : Prop}
    [Decidable b] (hb : b ↔ p a = true) {v : UInt64}
    (hv : v = UInt64.ofNat (amount a)) :
    Counts (if b then Counters.add m (key a) v
      else m) ((l ++ [a]).filter p) key amount := by
  have hlist : (l ++ [a]).filter p = if b then l.filter p ++ [a]
      else l.filter p := by
    rw [List.filter_append]
    by_cases hpos : b
    · rw [if_pos hpos, List.filter_cons_of_pos (hb.mp hpos), List.filter_nil]
    · rw [if_neg hpos, List.filter_cons_of_neg (fun hp => hpos (hb.mpr hp)),
        List.filter_nil,
        List.append_nil]
  rw [hlist]
  exact h.ite a b hv

/-- A counter that does not run over is the sum. -/
theorem Counts.toNat_word (h : Counts m l key amount) {k : κ}
    (hk : groupSum key amount l k < 2 ^ 64) :
    (word m k).toNat = groupSum key amount l k := by
  rw [h.word_eq, UInt64.toNat_ofNat']
  exact Nat.mod_eq_of_lt hk

theorem groupSum_mul (w : κ → Nat) (l : List α) (k : κ) :
    groupSum key (fun a => w (key a) * amount a) l k =
      w k * groupSum key amount l k := by
  induction l with
  | nil => rfl
  | cons a l ih =>
      rw [groupSum_cons, groupSum_cons, ih]
      by_cases hk : key a = k
      · rw [if_pos hk, if_pos hk, hk, Nat.mul_add]
      · rw [if_neg hk, if_neg hk, Nat.zero_add, Nat.zero_add]

/-- **The counters of some keys add up** to the amounts under these keys, each
weighted by its key. -/
theorem Counts.sum_mul (h : Counts m l key amount) (w : κ → Nat) (p : κ → Bool)
    (hlt : ∀ k, p k = true → groupSum key amount l k < 2 ^ 64) :
    ((m.items.filter (fun e => p e.1)).map (fun e => w e.1 * e.2.toNat)).sum
      = ((l.filter (fun a => p (key a))).map (fun a =>
        w (key a) * amount a)).sum := by
  have hnodup : ((m.items.filter (fun e => p e.1)).map Prod.fst).Nodup :=
    List.Nodup.sublist (List.filter_sublist.map _) m.nodup
  have hvalue : ∀ e ∈ m.items.filter (fun e => p e.1),
      w e.1 * e.2.toNat =
        groupSum key (fun a => w (key a) * amount a) l e.1 := by
    intro e he
    obtain ⟨hmem, hp⟩ := List.mem_filter.mp he
    rw [← word_of_mem hmem, h.toNat_word (hlt _ hp), groupSum_mul]
  have hkeys : ∀ a ∈ l, p (key a) = true ↔
      key a ∈ (m.items.filter (fun e => p e.1)).map Prod.fst := by
    intro a ha
    have hin : key a ∈ m.keys := (h.mem_keys _).mpr ⟨a, ha, rfl⟩
    constructor
    · intro hp
      obtain ⟨e, he, hkey⟩ := List.mem_map.mp hin
      exact List.mem_map.mpr ⟨e,
        List.mem_filter.mpr ⟨he, by rw [hkey]; exact hp⟩, hkey⟩
    · intro hmem
      obtain ⟨e, he, hkey⟩ := List.mem_map.mp hmem
      rw [← hkey]
      exact (List.mem_filter.mp he).2
  rw [← sum_groupSum key _ hnodup hkeys, List.map_map]
  exact congrArg List.sum (List.map_congr_left hvalue)

/-- The counters of some keys add up to the amounts under these keys. -/
theorem Counts.sum_filter (h : Counts m l key amount) (p : κ → Bool)
    (hlt : ∀ k, p k = true → groupSum key amount l k < 2 ^ 64) :
    ((m.items.filter (fun e => p e.1)).map (fun e => e.2.toNat)).sum
      = ((l.filter (fun a => p (key a))).map amount).sum := by
  have hsum := h.sum_mul (fun _ => 1) p hlt
  simpa only [Nat.one_mul] using hsum

/-- The counters in groups. -/
theorem Counts.groupSum_items {κ' : Type} [DecidableEq κ']
    (h : Counts m l key amount)
    (hlt : ∀ k, groupSum key amount l k < 2 ^ 64) (f : κ → κ') (k : κ') :
    groupSum (fun e => f e.1) (fun e => e.2.toNat) m.items k =
      groupSum (fun a => f (key a)) amount l k :=
  h.sum_filter (fun j => decide (f j = k)) (fun j _ => hlt j)

end Telemetryd.Counters
