import Telemetryd.Lib.X86Paging
import Telemetryd.UserMemory

/-!
# Attribute bits of the page tables

`_read_user_via_pagetable` takes the address out of every entry with one mask,
the bits 51 to 12.  For tables and pages of 4 KiB these are the address.  In the
entry of a large page bit 12 is the PAT bit, and where it is set, everything is
read 4 KiB behind the place the architecture defines.
-/

namespace Telemetryd

open Memory PageWalk X86Paging

/-- The entries that are looked at for an address can be read. -/
def ReadsEntries (ram : Int → UInt8) (read : PhysRead) (pgdPa : Int)
    (va : Nat) : Prop :=
  ∀ word ∈ PageWalk.visited tableFormat (tableWord ram) va tableShifts pgdPa,
    read (word.1 + word.2 * 8) 8 = .ok (cells ram (word.1 + word.2 * 8) 8)

/-- Reading `size` bytes when the page of the first one is known. -/
def readFromPage (read : PhysRead) (pageOffsetBase : Int)
    (pgdVa va size : Nat) :
    Option (Nat × Nat) → Except Raised Bytes
  | none => .ok []
  | some (phys, pageSize) => do
      let chunk := min size (pageSize - va % pageSize)
      let out ← read phys chunk
      let rest ← readUserViaPagetable read pageOffsetBase pgdVa (va + chunk)
        (size - chunk)
      pure (out ++ rest)

/-! ### One turn of the loop -/

section

variable {read : PhysRead} {pageOffsetBase : Int} {pgdVa va : Nat}

/-- Fuel beyond what remains plays no part. -/
theorem readPages_fuel (read : PhysRead) (pgdPa : Int) (fuel : Nat) :
    ∀ fuel' va remaining, remaining ≤ fuel → remaining ≤ fuel' →
    readPages read pgdPa fuel va remaining =
      readPages read pgdPa fuel' va remaining := by
  induction fuel with
  | zero =>
      intro fuel' va remaining hfuel _
      obtain rfl : remaining = 0 := Nat.le_zero.mp hfuel
      cases fuel' with
      | zero => rfl
      | succ fuel' => rfl
  | succ fuel ih =>
      intro fuel' va remaining hfuel hfuel'
      by_cases hzero : remaining = 0
      · subst hzero
        cases fuel' with
        | zero => rfl
        | succ fuel' => rfl
      obtain ⟨fuel', rfl⟩ : ∃ k, fuel' = k + 1 := ⟨fuel' - 1, by omega⟩
      unfold readPages
      rw [if_neg hzero, if_neg hzero]
      cases hpage : pageOf read pgdPa va with
      | error e => rfl
      | ok page =>
          cases page with
          | none => rfl
          | some page =>
              obtain ⟨phys, size⟩ := page
              have hsize := size_pos_of_pageOf hpage
              have hoffset : va % size < size := Nat.mod_lt _ hsize
              have hrest := ih fuel' (va + min remaining (size - va % size))
                (remaining - min remaining (size - va % size)) (by omega)
                  (by omega)
              change (do
                let out ← read phys (min remaining (size - va % size))
                let rest ← readPages read pgdPa fuel (va +
                  min remaining (size - va % size))
                  (remaining - min remaining (size - va % size))
                pure (out ++ rest) : Except Raised Bytes) = _
              rw [hrest]
              rfl

/-- The read goes on from the page of its first byte. -/
theorem readUser_of_page (hpgd : pgdVa ≠ 0) {page : Option (Nat × Nat)}
    (hpage : pageOf read (pgdVa - pageOffsetBase) va = .ok page) {size : Nat}
    (hsize : 0 < size) :
    readUserViaPagetable read pageOffsetBase pgdVa va size
      = readFromPage read pageOffsetBase pgdVa va size page := by
  obtain ⟨fuel, rfl⟩ : ∃ k, size = k + 1 := ⟨size - 1, by omega⟩
  unfold readUserViaPagetable
  rw [if_neg hpgd]
  unfold readPages
  rw [if_neg (by omega), hpage]
  cases page with
  | none => rfl
  | some page =>
      obtain ⟨phys, pageSize⟩ := page
      have hpos := size_pos_of_pageOf hpage
      have hoffset : va % pageSize < pageSize := Nat.mod_lt _ hpos
      generalize hchunk : min (fuel + 1) (pageSize - va % pageSize) = chunk
      have hrest := readPages_fuel read (pgdVa - pageOffsetBase) fuel
        (fuel + 1 - chunk) (va + chunk) (fuel + 1 - chunk) (by omega)
          (Nat.le_refl _)
      unfold readFromPage readUserViaPagetable
      simp only [hchunk, if_neg hpgd]
      change (do
        let out ← read phys (min (fuel + 1) (pageSize - va % pageSize))
        let rest ← readPages read (pgdVa - pageOffsetBase) fuel
          (va + min (fuel + 1) (pageSize - va % pageSize))
          (fuel + 1 - min (fuel + 1) (pageSize - va % pageSize))
        pure (out ++ rest) : Except Raised Bytes) = _
      rw [hchunk, hrest]

end

/-! ### The page of the code and that of the architecture -/

section

variable {ram : Int → UInt8} {pgdPa : Int} {va : Nat}

theorem ptePhys_eq (e : Nat) : ptePhys e = bits e 51 12 := by
  unfold ptePhys bits
  rw [show 51 + 1 - 12 = 40 by decide]

/-- The entry is the right one, and its address is taken with one mask. -/
theorem mappedPage_eq (ram : Int → UInt8) (pgdPa : Int) (va : Nat) :
    mappedPage ram pgdPa va = (mappingOf (tableWord ram) va pgdPa).map
      (fun m => (bits m.1 51 12 + va % 2 ^ m.2, 2 ^ m.2)) := by
  have hbit : ∀ e i : Nat, (e / 2 ^ i % 2 == 1) = e.testBit i := by
    intro e i
    rw [Nat.testBit_eq_decide_div_mod_eq]
    rfl
  have hpresent : ∀ e, ptePresent e = e.testBit 0 := by
    intro e
    rw [← hbit e 0, Nat.pow_zero, Nat.div_one]
    rfl
  have hpse : ∀ e, ptePse e = e.testBit 7 := fun e => hbit e 7
  have hsame : mapping tableFormat.levels (tableWord ram) va tableShifts pgdPa
      = mappingOf (tableWord ram) va pgdPa := by
    have hnext :
        ∀ e, tableFormat.levels.next e = (X86Paging.levels Int).next e :=
      fun e => congrArg Nat.cast (ptePhys_eq e)
    unfold mappingOf
    rw [show X86Paging.shifts = tableShifts from rfl]
    have hwidth : tableFormat.levels.width = (X86Paging.levels Int).width := rfl
    have hp : ∀ e, tableFormat.levels.present e =
      (X86Paging.levels Int).present e := hpresent
    refine mapping_congr hwidth hp ?_ hnext pgdPa
    intro shift _ e
    change (shift == 12 || ((shift == 30 || shift == 21) && ptePse e)) = _
    rw [hpse]
    rfl
  unfold mappedPage
  rw [walk_eq_mapping, hsame]
  simp only [tableFormat, ptePhys_eq]

/-- Without the PAT bit of a large page the masks agree. -/
theorem mappedPage_of_not_pat (hlegal : Legal (tableWord ram) va pgdPa)
    (hpat : ¬ PatOfLargePage (tableWord ram) va pgdPa) :
    mappedPage ram pgdPa va = physical (tableWord ram) va pgdPa := by
  rw [mappedPage_eq]
  unfold physical
  cases hm : mappingOf (tableWord ram) va pgdPa with
  | none => rfl
  | some m =>
      obtain ⟨e, shift⟩ := m
      rw [Option.map_some, Option.map_some]
      rcases hlegal.of_mapping hm with rfl | ⟨hshift, hzero⟩
      · rfl
      · have hclear : ¬ e.testBit 12 = true := by
          intro hset
          exact hpat ⟨e, shift, hm, by omega, hset⟩
        rw [bits_of_large hshift hzero, if_neg hclear, Nat.add_zero]

/-- With it the code is 4 KiB off. -/
theorem mappedPage_of_pat (hlegal : Legal (tableWord ram) va pgdPa)
    (hpat : PatOfLargePage (tableWord ram) va pgdPa) :
    ∃ pa size, physical (tableWord ram) va pgdPa = some (pa, size) ∧ 0 < size ∧
      mappedPage ram pgdPa va = some (pa + 4096, size) := by
  obtain ⟨e, shift, hm, hlarge, hset⟩ := hpat
  refine ⟨pageBase e shift + va % 2 ^ shift, 2 ^ shift, ?_,
    Nat.two_pow_pos shift, ?_⟩
  · unfold physical
    rw [hm]
    rfl
  · rw [mappedPage_eq, hm, Option.map_some]
    rcases hlegal.of_mapping hm with rfl | ⟨hshift, hzero⟩
    · omega
    · rw [bits_of_large hshift hzero, if_pos hset]
      have hsum : pageBase e shift + 2 ^ 12 + va % 2 ^ shift
          = pageBase e shift + va % 2 ^ shift + 4096 := by omega
      rw [hsum]

theorem pageOf_readsEntries {read : PhysRead}
    (hread : ReadsEntries ram read pgdPa va) :
    pageOf read pgdPa va = .ok (mappedPage ram pgdPa va) := by
  refine pageOf_of_entries ?_
  intro tablePa index hword
  unfold pageTableEntry
  rw [hread _ hword]
  rfl

end

/-- The entries from a memory, and single bytes from nowhere but their address:
a byte tells whether it is at `pa`. -/
def readerOf (ram : Int → UInt8) (pa : Nat) : PhysRead := fun a n =>
  .ok (if n = 8 then cells ram a 8 else [if a = pa then 1 else 0])

/-- **Where the bytes are read from.**  For all page tables whose present
entries have their reserved bits zero, whatever their attribute bits, and every
address: the translation of the architecture fails exactly if some level is not
present; and every read takes its bytes from the place the architecture defines,
or ends if there is none, exactly if the address is not in a large page with the
PAT bit. -/
theorem reads_physical_iff (ram : Int → UInt8) (pageOffsetBase : Int)
    (pgdVa va : Nat)
    (hpgd : pgdVa ≠ 0)
    (hlegal : Legal (tableWord ram) va (pgdVa - pageOffsetBase)) :
    (physical (tableWord ram) va (pgdVa - pageOffsetBase) = none ↔
      ¬ AllPresent (tableWord ram) va (pgdVa - pageOffsetBase)) ∧
    ((∀ read, ReadsEntries ram read (pgdVa - pageOffsetBase) va →
      ∀ size, 0 < size →
      readUserViaPagetable read pageOffsetBase pgdVa va size
        = readFromPage read pageOffsetBase pgdVa va size
            (physical (tableWord ram) va (pgdVa - pageOffsetBase))) ↔
      ¬ PatOfLargePage (tableWord ram) va (pgdVa - pageOffsetBase)) := by
  refine ⟨physical_eq_none_iff, ?_, ?_⟩
  · intro hall hpat
    obtain ⟨pa, pageSize, hphysical, hpos, hmapped⟩ :=
      mappedPage_of_pat hlegal hpat
    have hread :
      ReadsEntries ram (readerOf ram pa) (pgdVa - pageOffsetBase) va :=
      fun _ _ => rfl
    have hcode := readUser_of_page hpgd (pageOf_readsEntries hread) Nat.one_pos
    have hclaim := hall (readerOf ram pa) hread 1 Nat.one_pos
    have hone : min 1 (pageSize - va % pageSize) = 1 := by
      have := Nat.mod_lt va hpos
      omega
    have hnothing :
        readUserViaPagetable (readerOf ram pa) pageOffsetBase pgdVa
        (va + 1) (1 - 1)
        = .ok [] := by
      unfold readUserViaPagetable
      rw [if_neg hpgd]
      rfl
    have hbyte :
        ∀ phys : Nat, readFromPage (readerOf ram pa) pageOffsetBase pgdVa va 1
        (some (phys, pageSize)) = .ok [if (phys : Int) = pa then 1 else 0] := by
      intro phys
      unfold readFromPage
      simp only [hone, hnothing]
      rfl
    rw [hcode, hmapped, hphysical, hbyte, hbyte] at hclaim
    have hdiffer : ¬ ((pa + 4096 : Nat) : Int) = pa := by omega
    rw [if_neg hdiffer, if_pos rfl] at hclaim
    cases hclaim
  · intro hpat read hread size hsize
    rw [← mappedPage_of_not_pat hlegal hpat]
    exact readUser_of_page hpgd (pageOf_readsEntries hread) hsize

/-- Tables that map the address 2 MiB to a large page at 1 GiB.  The second byte
of its entry has bit 12. -/
def largePageRam (attributes : UInt8) (a : Int) : UInt8 :=
  ([(4096, 0x01), (4097, 0x20), (8192, 0x01), (8193, 0x30), (12296, 0x81),
    (12297, attributes),
    (12299, 0x40), (1073741824, 7), (1073745920, 13)].lookup a).getD 0

/-- A large page without the PAT bit. -/
theorem reads_physical_iff_plain :
    readUserViaPagetable (readerOf (largePageRam 0) 1073741824) 0 4096 2097152 1
      = readFromPage (readerOf (largePageRam 0) 1073741824) 0 4096 2097152 1
          (some (1073741824, 2097152)) := by
  have hphysical :
      physical (tableWord (largePageRam 0)) 2097152 ((4096 : Nat) - 0 : Int)
      = some (1073741824, 2097152) := by decide +kernel
  have hpat : ¬ PatOfLargePage (tableWord (largePageRam 0)) 2097152
      ((4096 : Nat) - 0 : Int) := by
    intro hpat
    obtain ⟨e, shift, hm, -, hset⟩ := hpat
    have hentry :
        mappingOf (tableWord (largePageRam 0)) 2097152 ((4096 : Nat) - 0 : Int)
        = some (0x40000081, 21) := by decide +kernel
    rw [hentry] at hm
    cases hm
    revert hset
    decide
  have hread := (reads_physical_iff (largePageRam 0) 0 4096 2097152 (by decide)
    (by decide +kernel)).2.mpr hpat (readerOf (largePageRam 0) 1073741824)
      (fun _ _ => rfl) 1
    Nat.one_pos
  rwa [hphysical] at hread

/-- **A PAT bit moves everything.**  The large page is at 1 GiB, and what is
read comes from 4 KiB behind. -/
theorem pat_bit_read_elsewhere :
    Legal (tableWord (largePageRam 0x10)) 2097152 ((4096 : Nat) - 0 : Int) ∧
    physical (tableWord (largePageRam 0x10)) 2097152 ((4096 : Nat) - 0 : Int)
      = some (1073741824, 2097152) ∧
    readUserViaPagetable (fun a n =>
      .ok (cells (largePageRam 0x10) a n)) 0 4096 2097152 1 = .ok [13] ∧
    ¬ ∀ read, ReadsEntries (largePageRam 0x10) read ((4096 : Nat) - 0 : Int)
      2097152 →
      ∀ size, 0 < size → readUserViaPagetable read 0 4096 2097152 size
        = readFromPage read 0 4096 2097152 size
            (physical (tableWord (largePageRam 0x10)) 2097152
              ((4096 : Nat) - 0 : Int)) := by
  have hphysical :
      physical (tableWord (largePageRam 0x10)) 2097152 ((4096 : Nat) - 0 : Int)
      = some (1073741824, 2097152) := by decide +kernel
  have hcode :
      readUserViaPagetable (fun a n =>
      .ok (cells (largePageRam 0x10) a n)) 0 4096 2097152 1
      = .ok [13] := by decide +kernel
  refine ⟨by decide +kernel, hphysical, hcode, ?_⟩
  intro hall
  have hclaim :=
    hall (fun a n =>
    .ok (cells (largePageRam 0x10) a n)) (fun _ _ => rfl) 1 Nat.one_pos
  rw [hcode, hphysical] at hclaim
  revert hclaim
  decide +kernel

end Telemetryd
