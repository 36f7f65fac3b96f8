import Telemetryd.CommandLine
import Telemetryd.Lib.PageWalk

/-!
# User memory through the page tables

`_read_user_via_pagetable` of `backend/procinfo.py` walks the tables of a
process once for each page and copies the rest of the page, which has 4 KiB,
2 MiB or 1 GiB.  It should give the bytes that a translation of each single
address gives, up to the first address that is not mapped.
-/

namespace Telemetryd

open Memory PageWalk

/-! ### Single addresses -/

/-- The levels PGD, PUD, PMD and PTE, by the lowest bit of their index. -/
def tableShifts : List Nat := [39, 30, 21, 12]

/-- The entries of the tables.  A PUD or PMD entry with the PSE bit maps a page
of 1 GiB or 2 MiB. -/
def tableFormat : Format Int Nat where
  width := 512
  present := ptePresent
  leaf shift e := shift == 12 || ((shift == 30 || shift == 21) && ptePse e)
  frame := ptePhys
  next e := ptePhys e

/-- The entry of a table in physical memory. -/
def tableWord (ram : Int → UInt8) (tablePa : Int) (index : Nat) : Nat :=
  fromLittleEndian (cells ram (tablePa + index * 8) 8)

/-- The physical address and the size of the page of a virtual address. -/
def mappedPage (ram : Int → UInt8) (pgdPa : Int) (va : Nat) :
    Option (Nat × Nat) :=
  walk tableFormat (tableWord ram) va tableShifts pgdPa

/-- The physical address of a virtual one. -/
def translate (ram : Int → UInt8) (pgdPa : Int) (va : Nat) : Option Int :=
  (mappedPage ram pgdPa va).map (fun page => (page.1 : Int))

/-- The bytes of `size` addresses from `addr` on, up to the first that is not
mapped. -/
def userBytes (ram : Int → UInt8) (pgdPa : Int) (addr size : Nat) : Bytes :=
  bytewise ram (translate ram pgdPa) size addr

/-- The byte at `a` belongs to an entry that is looked at for `va`. -/
def WalkUses (ram : Int → UInt8) (pgdPa : Int) (va : Nat) (a : Int) : Prop :=
  ∃ word ∈ PageWalk.visited tableFormat (tableWord ram) va tableShifts pgdPa,
    word.1 + word.2 * 8 ≤ a ∧ a < word.1 + word.2 * 8 + 8

/-- The addresses that are used for an area: those of the entries and those of
the bytes, up to the first address that is not mapped. -/
def UserUsed (ram : Int → UInt8) (pgdPa : Int) (addr size : Nat) (a : Int) :
    Prop :=
  ∃ i < size, (∀ j < i, (translate ram pgdPa (addr + j)).isSome) ∧
    (WalkUses ram pgdPa (addr + i) a ∨ translate ram pgdPa (addr + i) = some a)

/-! ### Whole pages -/

section

variable {ram : Int → UInt8} {read : PhysRead} {pgdPa : Int}

/-- An entry that is looked at can be read. -/
theorem pageTableEntry_visited {va : Nat}
    (hread : ServedAt ram read Except.ok (WalkUses ram pgdPa va))
    {tablePa : Int} {index : Nat}
    (hword : (tablePa, index) ∈
      PageWalk.visited tableFormat (tableWord ram) va tableShifts pgdPa) :
    pageTableEntry read tablePa index = .ok (tableWord ram tablePa index) := by
  have hcells :
      read (tablePa + index * 8) 8 =
      .ok (cells ram (tablePa + index * 8) 8) := by
    refine hread _ _ fun k hk => ⟨_, hword, ?_, ?_⟩
    · dsimp only
      omega
    · dsimp only
      omega
  unfold pageTableEntry
  rw [hcells]
  rfl

@[simp] theorem leaf_pgd (e : Nat) : tableFormat.leaf 39 e = false := rfl

@[simp] theorem leaf_pud (e : Nat) : tableFormat.leaf 30 e = ptePse e :=
  Bool.false_or _

@[simp] theorem leaf_pmd (e : Nat) : tableFormat.leaf 21 e = ptePse e :=
  Bool.false_or _

@[simp] theorem leaf_pte (e : Nat) : tableFormat.leaf 12 e = true := rfl

/-- **The walk of the code finds the page**, if the entries on the way can be
read. -/
theorem pageOf_of_entries {va : Nat}
    (hentry : ∀ {tablePa : Int} {index : Nat},
      (tablePa, index) ∈
        PageWalk.visited tableFormat (tableWord ram) va tableShifts pgdPa →
        pageTableEntry read tablePa index = .ok (tableWord ram tablePa index)) :
    pageOf read pgdPa va = .ok (mappedPage ram pgdPa va) := by
  have hwidth : tableFormat.width = 512 := rfl
  have hpresent : ∀ e, tableFormat.present e = ptePresent e := fun _ => rfl
  have hframe : ∀ e, tableFormat.frame e = ptePhys e := fun _ => rfl
  have hnext : ∀ e, tableFormat.next e = ptePhys e := fun _ => rfl
  unfold pageOf mappedPage
  simp only [PageWalk.visited, PageWalk.walk, tableShifts, hwidth, hpresent,
    hframe, hnext, leaf_pgd, leaf_pud,
    leaf_pmd, leaf_pte, List.mem_cons] at hentry ⊢
  have hok : ∀ (e : Nat) (g : Nat → Except Raised (Option (Nat × Nat))),
      (Except.ok e >>= g) = g e := fun _ _ => rfl
  -- one step for each level of the tables
  rw [hentry (Or.inl rfl), hok]
  generalize tableWord ram pgdPa (va / 2 ^ 39 % 512) = pgd at hentry ⊢
  cases hpgd : ptePresent pgd
  case false => rfl
  simp only [hpgd, Bool.not_false, Bool.and_true, if_true,
    List.mem_cons] at hentry
  simp only [Bool.not_true, Bool.false_eq_true, if_false, if_true]
  rw [hentry (Or.inr (Or.inl rfl)), hok]
  generalize tableWord ram (ptePhys pgd) (va / 2 ^ 30 % 512) = pud at hentry ⊢
  cases hpud : ptePresent pud
  case false => rfl
  cases hgib : ptePse pud
  case true => rfl
  simp only [hpud, hgib, Bool.not_false, Bool.and_true, if_true,
    List.mem_cons] at hentry
  simp only [Bool.not_true, Bool.false_eq_true, if_false, if_true]
  rw [hentry (Or.inr (Or.inr (Or.inl rfl))), hok]
  generalize tableWord ram (ptePhys pud) (va / 2 ^ 21 % 512) = pmd at hentry ⊢
  cases hpmd : ptePresent pmd
  case false => rfl
  cases hmib : ptePse pmd
  case true => rfl
  simp only [hpmd, hmib, Bool.not_false, Bool.and_true, if_true,
    List.mem_cons] at hentry
  simp only [Bool.not_true, Bool.false_eq_true, if_false, if_true]
  rw [hentry (Or.inr (Or.inr (Or.inr (Or.inl rfl)))), hok]
  cases ptePresent (tableWord ram (ptePhys pmd) (va / 2 ^ 12 % 512))
  case false => rfl
  case true => rfl

theorem pageOf_served {va : Nat}
    (hread : ServedAt ram read Except.ok (WalkUses ram pgdPa va)) :
    pageOf read pgdPa va = .ok (mappedPage ram pgdPa va) :=
  pageOf_of_entries (pageTableEntry_visited hread)

/-- **The translation goes on** to the end of a page. -/
theorem translate_add {va pa size : Nat}
    (h : mappedPage ram pgdPa va = some (pa, size)) {k : Nat}
    (hk : k < size - va % size) :
    translate ram pgdPa (va + k) = some ((pa + k : Nat) : Int) := by
  have hdown : tableShifts.Pairwise (fun a b => b ≤ a) := by decide
  unfold translate mappedPage
  rw [walk_add hdown h (by omega)]
  rfl

theorem size_pos {va pa size : Nat}
    (h : mappedPage ram pgdPa va = some (pa, size)) : 0 < size := by
  obtain ⟨shift, -, rfl⟩ := size_of_walk h
  exact Nat.two_pow_pos shift

theorem UserUsed.mono {addr m size : Nat} (hm : m ≤ size)
    (hmapped : ∀ j < m, (translate ram pgdPa (addr + j)).isSome) {a : Int}
    (h : UserUsed ram pgdPa (addr + m) (size - m) a) :
    UserUsed ram pgdPa addr size a := by
  obtain ⟨i, hi, hbefore, huse⟩ := h
  refine ⟨m + i, by omega, fun j hj => ?_, by rwa [← Nat.add_assoc]⟩
  by_cases hjm : j < m
  · exact hmapped j hjm
  · have := hbefore (j - m) (by omega)
    rwa [Nat.add_assoc, Nat.add_sub_cancel' (Nat.not_lt.mp hjm)] at this

/-- **The loop copies what is mapped**: page by page as byte by byte.  The
induction is on the fuel, which is never less than what remains. -/
theorem readPages_served (fuel : Nat) : ∀ va remaining, remaining ≤ fuel →
    ServedAt ram read Except.ok (UserUsed ram pgdPa va remaining) →
    readPages read pgdPa fuel va remaining =
      .ok (userBytes ram pgdPa va remaining) := by
  induction fuel with
  | zero =>
      intro va remaining hfuel _
      obtain rfl : remaining = 0 := Nat.le_zero.mp hfuel
      rfl
  | succ fuel ih =>
      intro va remaining hfuel hread
      by_cases hzero : remaining = 0
      · subst hzero
        rfl
      have hpage : pageOf read pgdPa va = .ok (mappedPage ram pgdPa va) := by
        refine pageOf_served fun a n hn => hread a n fun k hk => ?_
        exact ⟨0, by omega, fun j hj => by omega, Or.inl (hn k hk)⟩
      unfold readPages
      rw [if_neg hzero, hpage]
      cases hmapped : mappedPage ram pgdPa va with
      | none =>
          have hnone : translate ram pgdPa va = none := by
            rw [translate, hmapped]; rfl
          rw [userBytes, bytewise_none ram _ hnone]
          rfl
      | some page =>
          obtain ⟨pa, size⟩ := page
          have hsize := size_pos hmapped
          have hoffset : va % size < size := Nat.mod_lt _ hsize
          change (do
            let out ← read pa (min remaining (size - va % size))
            let rest ← readPages read pgdPa fuel (va +
              min remaining (size - va % size))
              (remaining - min remaining (size - va % size))
            pure (out ++ rest) : Except Raised Bytes) = _
          generalize hchunk : min remaining (size - va % size) = chunk
          have htranslate : ∀ k < chunk, translate ram pgdPa (va + k) =
              some ((pa + k : Nat) : Int) :=
            fun k hk => translate_add hmapped (by omega)
          have hout : read pa chunk = .ok (cells ram (pa : Int) chunk) := by
            refine hread _ _ fun k hk =>
              ⟨k, by omega, fun j hj => ?_, Or.inr ?_⟩
            · rw [htranslate j (by omega)]
              rfl
            · rw [htranslate k hk, Int.natCast_add]
          have hrest :=
            ih (va + chunk) (remaining - chunk) (by omega) fun a n hn =>
            hread a n fun k hk => UserUsed.mono (by omega)
              (fun j hj => by rw [htranslate j hj]; rfl) (hn k hk)
          have hsplit :=
            bytewise_add ram (translate ram pgdPa) htranslate
            (remaining - chunk)
          rw [show chunk + (remaining - chunk) = remaining by omega] at hsplit
          have hwhole : userBytes ram pgdPa va remaining
              = cells ram (pa : Int) chunk ++
                userBytes ram pgdPa (va + chunk) (remaining - chunk) :=
            hsplit
          rw [hout, hrest, hwhole]
          rfl

end

/-- Tables that map the 4 KiB below the address 2 MiB and the 2 MiB from it
on. -/
def twoPageRam (a : Int) : UInt8 :=
  ([(4096, 0x01), (4097, 0x20), (8192, 0x01), (8193, 0x30), (12288, 0x01),
    (12289, 0x40),
    (12296, 0x81), (12299, 0x40), (20472, 0x01), (20473, 0x50), (24575, 7),
    (1073741824, 9)].lookup
      a).getD 0

end Telemetryd
