import Telemetryd.Lib.Memory
import Telemetryd.PrpPages

/-!
# The buffer behind two PRP words

The two PRP words of a command describe a buffer in physical memory: it runs
from `prp1` to the end of its page and goes on in the page at `prp2`, or, if
that is not enough, in the pages that the list at `prp2` names.  What is dumped
is a prefix of it.  Since the dump ends after a page of data, only the first
entry of a list is ever followed.
-/

namespace Telemetryd

open Memory

/-! ### The buffer -/

/-- The bytes of the buffer in the page of `prp1`, if it goes on behind it. -/
def firstRoom (prp1 : Nat) : Nat := pageSize - prp1 % pageSize

/-- How many pages are needed besides the first. -/
def furtherNeeded (prp1 totalLen : Nat) : Nat :=
  (totalLen - firstRoom prp1 + pageSize - 1) / pageSize

/-- The entry `j` of the list at `prp2`. -/
def listEntry (ram : Nat → UInt8) (prp2 j : Nat) : Nat :=
  littleEndian (cells ram (prp2 + 8 * j) 8)

/-- Where the byte `i` of the buffer is. -/
def bufferAddress (ram : Nat → UInt8) (prp1 prp2 totalLen i : Nat) : Nat :=
  if i < firstRoom prp1 then prp1 + i
  else if furtherNeeded prp1 totalLen ≤ 1 then prp2 + (i - firstRoom prp1)
  else listEntry ram prp2 ((i - firstRoom prp1) / pageSize) +
    (i - firstRoom prp1) % pageSize

/-- The whole buffer. -/
def prpBuffer (ram : Nat → UInt8) (prp1 prp2 totalLen : Nat) : Bytes :=
  gather ram (bufferAddress ram prp1 prp2 totalLen) totalLen

/-- The data goes on behind the first page, and the dump as well. -/
def UsesPrp2 (prp1 totalLen : Nat) : Prop :=
  prp1 ≠ 0 ∧ firstRoom prp1 < totalLen ∧ firstRoom prp1 < maxPageDump

instance (prp1 totalLen : Nat) : Decidable (UsesPrp2 prp1 totalLen) :=
  inferInstanceAs (Decidable (_ ∧ _ ∧ _))

/-- The entries of a list that are looked at. -/
def entriesRead (prp1 totalLen : Nat) : Nat :=
  min (furtherNeeded prp1 totalLen) 8

theorem firstRoom_le (prp1 : Nat) : firstRoom prp1 ≤ pageSize := Nat.sub_le _ _

theorem furtherNeeded_le_one {prp1 totalLen : Nat} :
    furtherNeeded prp1 totalLen ≤ 1 ↔ totalLen - firstRoom prp1 ≤ pageSize := by
  unfold furtherNeeded pageSize
  omega

/-! ### The shape of a dump -/

/-- The page at `prp1`. -/
def firstPage (mem : PhysicalMemory) (prp1 totalLen : Nat) : PrpPage :=
  readPage mem prp1 (prp1 % pageSize) (min totalLen (firstRoom prp1)) false

/-- The page of the list. -/
def listPage (mem : PhysicalMemory) (prp1 prp2 totalLen : Nat) : PrpPage :=
  readPage mem prp2 0 (min (totalLen - firstRoom prp1) pageSize) true

/-- The entries of the list, none if it cannot be read. -/
def readEntries (mem : PhysicalMemory) (prp1 prp2 totalLen : Nat) : List Nat :=
  ((mem prp2 (entriesRead prp1 totalLen * 8)).bind
    (unpackWords (entriesRead prp1 totalLen))).getD []

/-- After one page of data no other entry is followed. -/
theorem listedPages_full (mem : PhysicalMemory) (remaining : Nat)
    (entries : List Nat) (i : Nat)
    {shown : Nat} (h : maxPageDump ≤ shown) :
    listedPages mem remaining entries i shown = [] := by
  cases entries with
  | nil => rfl
  | cons e es => exact if_pos h

/-- Only the first entry of a list is followed. -/
theorem listedPages_first (mem : PhysicalMemory) {remaining shown : Nat}
    (entries : List Nat)
    (hremaining : pageSize < remaining) (hshown : shown < maxPageDump) :
    listedPages mem remaining entries 0 shown
      = (entries.head?.map (fun e =>
        readPage mem e 0 (maxPageDump - shown) false)).toList := by
  cases entries with
  | nil => rfl
  | cons e es =>
      have hbytes :
          min pageSize (min (remaining - 0 * pageSize) (maxPageDump - shown))
          = maxPageDump - shown := by
        unfold pageSize maxPageDump at *
        omega
      have hne : maxPageDump - shown ≠ 0 := by omega
      have hsum : shown + (maxPageDump - shown) = maxPageDump := by omega
      rw [listedPages, if_neg (by omega), hbytes]
      dsimp only
      rw [if_neg hne, hsum, listedPages_full mem remaining es 1 (Nat.le_refl _)]
      rfl

theorem firstBytes_eq (prp1 totalLen : Nat) :
    min (min totalLen (firstRoom prp1)) maxPageDump =
      min totalLen (firstRoom prp1) := by
  have h := firstRoom_le prp1
  unfold pageSize at h
  unfold maxPageDump
  omega

/-- A dump, its first page apart. -/
theorem decodePrpPages_eq (mem : PhysicalMemory) {prp1 prp2 totalLen : Nat}
    (hprp : prp1 ≠ 0)
    (hlen : 0 < totalLen) :
    decodePrpPages mem prp1 prp2 totalLen
      = if totalLen - min totalLen (firstRoom prp1) = 0 ∨
          maxPageDump ≤ min totalLen (firstRoom prp1)
            then [firstPage mem prp1 totalLen]
        else firstPage mem prp1 totalLen :: furtherPages mem prp2
          (totalLen - min totalLen (firstRoom prp1))
            (min totalLen (firstRoom prp1)) := by
  have hbytes : min (min totalLen (pageSize - prp1 % pageSize)) maxPageDump
      = min totalLen (pageSize - prp1 % pageSize) := firstBytes_eq prp1 totalLen
  unfold decodePrpPages
  rw [if_neg (by omega)]
  simp only [hbytes]
  rfl

/-- **The data ends in the first page**, or the dump does. -/
theorem decodePrpPages_first (mem : PhysicalMemory) {prp1 prp2 totalLen : Nat}
    (hprp : prp1 ≠ 0)
    (hlen : 0 < totalLen) (huses : ¬ UsesPrp2 prp1 totalLen) :
    decodePrpPages mem prp1 prp2 totalLen = [firstPage mem prp1 totalLen] := by
  rw [decodePrpPages_eq mem hprp hlen, if_pos]
  unfold UsesPrp2 at huses
  omega

/-- The data goes on behind the first page. -/
theorem decodePrpPages_further (mem : PhysicalMemory) {prp1 prp2 totalLen : Nat}
    (huses : UsesPrp2 prp1 totalLen) :
    decodePrpPages mem prp1 prp2 totalLen
      = firstPage mem prp1 totalLen ::
        furtherPages mem prp2 (totalLen - firstRoom prp1) (firstRoom prp1) := by
  obtain ⟨hprp, hlen, hroom⟩ := huses
  have hmin : min totalLen (firstRoom prp1) = firstRoom prp1 := by omega
  rw [decodePrpPages_eq mem hprp (by omega), hmin, if_neg (by omega)]

/-- **One further page**, at `prp2`. -/
theorem decodePrpPages_second (mem : PhysicalMemory) {prp1 prp2 totalLen : Nat}
    (huses : UsesPrp2 prp1 totalLen) (hone : furtherNeeded prp1 totalLen ≤ 1) :
    decodePrpPages mem prp1 prp2 totalLen = [firstPage mem prp1 totalLen,
      readPage mem prp2 0
        (min (totalLen - firstRoom prp1) (maxPageDump - firstRoom prp1))
        false] := by
  have hmore : furtherNeeded prp1 totalLen = 1 := by
    have := huses.2.1
    unfold furtherNeeded pageSize at *
    omega
  have hpos : 0 <
      min (totalLen - firstRoom prp1) (maxPageDump - firstRoom prp1) := by
    have := huses.2
    omega
  rw [decodePrpPages_further mem huses]
  unfold furtherPages
  change _ :: (if furtherNeeded prp1 totalLen = 1 then _ else _) = _
  rw [if_pos hmore]
  dsimp only
  rw [if_pos hpos]

/-- **More further pages**: the list, and the page of its first entry. -/
theorem decodePrpPages_list (mem : PhysicalMemory) {prp1 prp2 totalLen : Nat}
    (huses : UsesPrp2 prp1 totalLen) (hmany : 1 < furtherNeeded prp1 totalLen) :
    decodePrpPages mem prp1 prp2 totalLen
      = firstPage mem prp1 totalLen :: listPage mem prp1 prp2 totalLen ::
        ((readEntries mem prp1 prp2 totalLen).head?.map
          (fun e => readPage mem e 0 (maxPageDump - firstRoom prp1)
            false)).toList := by
  have hcount : min (furtherNeeded prp1 totalLen) (min (prpsPerPage - 1) 8)
      = entriesRead prp1 totalLen := by
    have hmin : min (prpsPerPage - 1) 8 = 8 := by decide
    rw [hmin]
    rfl
  have hremaining : pageSize < totalLen - firstRoom prp1 := by
    by_contra h
    have := furtherNeeded_le_one.mpr (Nat.not_lt.mp h)
    omega
  rw [decodePrpPages_further mem huses]
  unfold furtherPages
  change _ :: (if furtherNeeded prp1 totalLen = 1 then _ else _) = _
  rw [if_neg (by omega)]
  dsimp only
  have hroom := huses.2.2
  rw [if_neg (by omega)]
  change _ :: _ :: listedPages mem (totalLen - firstRoom prp1)
    (((mem prp2 (min (furtherNeeded prp1 totalLen) (min (prpsPerPage - 1) 8) *
      8)).bind
      (unpackWords
        (min (furtherNeeded prp1 totalLen) (min (prpsPerPage - 1) 8)))).getD [])
        0
    (firstRoom prp1) = _
  rw [hcount, listedPages_first mem _ hremaining hroom]
  rfl

/-! ### The data that is shown -/

section

variable {ram : Nat → UInt8}

/-- The first entry of a list that can be read. -/
theorem head?_readEntries {mem : PhysicalMemory} {prp1 prp2 totalLen : Nat}
    (hmany : 1 < furtherNeeded prp1 totalLen)
    (hread : mem prp2 (entriesRead prp1 totalLen * 8)
      = some (cells ram prp2 (entriesRead prp1 totalLen * 8))) :
    (readEntries mem prp1 prp2 totalLen).head? =
      some (listEntry ram prp2 0) := by
  obtain ⟨n, hn⟩ : ∃ n, entriesRead prp1 totalLen = n + 1 :=
    ⟨entriesRead prp1 totalLen - 1, by unfold entriesRead; omega⟩
  have hlen : (cells ram prp2 ((n + 1) * 8)).length = 8 * (n + 1) := by
    rw [length_cells]
    omega
  have hword : ((cells ram prp2 ((n + 1) * 8)).drop (8 * 0)).take 8 =
      cells ram (prp2 + 8 * 0) 8 :=
    take_drop_cells ram prp2 (by omega)
  unfold readEntries
  rw [hread, hn, Option.bind_some, unpackWords, if_pos hlen, Option.getD_some,
    List.range_succ_eq_map, List.map_cons, List.head?_cons, hword]
  rfl

/-- The addresses a dump uses: those of the bytes it shows, and those of the
entries it looks at. -/
def PrpUsed (ram : Nat → UInt8) (prp1 prp2 totalLen a : Nat) : Prop :=
  (∃ i < min totalLen maxPageDump, a = bufferAddress ram prp1 prp2 totalLen i) ∨
    (UsesPrp2 prp1 totalLen ∧ 1 < furtherNeeded prp1 totalLen ∧
      prp2 ≤ a ∧ a < prp2 + entriesRead prp1 totalLen * 8)

/-- The pages that hold data. -/
def dataPages (pages : List PrpPage) : List PrpPage :=
  pages.filter (fun p => !p.isListPage)

/-- The data, put together. -/
def payloadBytes (pages : List PrpPage) : Bytes :=
  (dataPages pages).flatMap PrpPage.data

variable {prp1 prp2 totalLen : Nat}

/-- The buffer within its first page. -/
theorem bufferAddress_first {i : Nat} (hi : i < firstRoom prp1) :
    bufferAddress ram prp1 prp2 totalLen i = prp1 + i := if_pos hi

theorem bufferAddress_second (hone : furtherNeeded prp1 totalLen ≤ 1) :
    bufferAddress ram prp1 prp2 totalLen (firstRoom prp1) = prp2 := by
  unfold bufferAddress
  rw [if_neg (Nat.lt_irrefl _), if_pos hone, Nat.sub_self, Nat.add_zero]

theorem bufferAddress_list (hmany : 1 < furtherNeeded prp1 totalLen) :
    bufferAddress ram prp1 prp2 totalLen (firstRoom prp1) =
      listEntry ram prp2 0 := by
  unfold bufferAddress
  rw [if_neg (Nat.lt_irrefl _), if_neg (by omega), Nat.sub_self, Nat.zero_div,
    Nat.zero_mod,
    Nat.add_zero]

/-- The buffer in the page after the first. -/
theorem bufferAddress_next {i : Nat} (hi : i < pageSize) :
    bufferAddress ram prp1 prp2 totalLen (firstRoom prp1 + i)
      = bufferAddress ram prp1 prp2 totalLen (firstRoom prp1) + i := by
  by_cases hone : furtherNeeded prp1 totalLen ≤ 1
  · rw [bufferAddress_second hone, bufferAddress, if_neg (by omega),
      if_pos hone,
      Nat.add_sub_cancel_left]
  · rw [bufferAddress_list (by omega), bufferAddress, if_neg (by omega),
      if_neg hone,
      Nat.add_sub_cancel_left, Nat.div_eq_of_lt hi, Nat.mod_eq_of_lt hi]

/-- A page of data shows what is read. -/
theorem data_readPage {mem : PhysicalMemory} {phys n : Nat} (hn : n ≤ pageSize)
    (hread : mem phys n = some (cells ram phys n)) (offset : Nat)
    (isList : Bool) :
    (readPage mem phys offset n isList).data = cells ram phys n := by
  unfold readPage
  rw [Nat.min_eq_left hn, hread, Option.getD_some]

/-- The data of the first page. -/
theorem data_firstPage {mem : PhysicalMemory}
    (hread : ServedAt ram mem some (PrpUsed ram prp1 prp2 totalLen)) :
    (firstPage mem prp1 totalLen).data
      = gather ram (bufferAddress ram prp1 prp2 totalLen)
        (min totalLen (firstRoom prp1)) := by
  have hle := firstRoom_le prp1
  have hfirst : ∀ i < min totalLen (firstRoom prp1),
      bufferAddress ram prp1 prp2 totalLen i = prp1 + i := by
    intro i hi
    exact bufferAddress_first (by omega)
  have hserved : mem prp1 (min totalLen (firstRoom prp1))
      = some (cells ram prp1 (min totalLen (firstRoom prp1))) := by
    refine hread _ _ fun k hk => Or.inl ⟨k, ?_, (hfirst k hk).symm⟩
    unfold pageSize at hle
    unfold maxPageDump
    omega
  rw [firstPage, data_readPage (by omega) hserved]
  exact (gather_eq_cells ram hfirst).symm

/-- The bytes shown behind the first page. -/
def nextBytes (prp1 totalLen : Nat) : Nat :=
  min (totalLen - firstRoom prp1) (maxPageDump - firstRoom prp1)

/-- The page of data after the first. -/
def nextPage (mem : PhysicalMemory) (ram : Nat → UInt8)
    (prp1 prp2 totalLen : Nat) : PrpPage :=
  readPage mem (bufferAddress ram prp1 prp2 totalLen (firstRoom prp1)) 0
    (nextBytes prp1 totalLen)
    false

/-- Its data. -/
theorem data_nextPage {mem : PhysicalMemory} (huses : UsesPrp2 prp1 totalLen)
    (hread : ServedAt ram mem some (PrpUsed ram prp1 prp2 totalLen)) :
    (nextPage mem ram prp1 prp2 totalLen).data
      = gather ram (fun i =>
          bufferAddress ram prp1 prp2 totalLen (firstRoom prp1 + i))
          (nextBytes prp1 totalLen) := by
  have hn : nextBytes prp1 totalLen ≤ pageSize := by
    unfold nextBytes maxPageDump pageSize
    omega
  have hnext : ∀ i < nextBytes prp1 totalLen,
      bufferAddress ram prp1 prp2 totalLen (firstRoom prp1 + i)
      = bufferAddress ram prp1 prp2 totalLen (firstRoom prp1) + i :=
    fun i hi => bufferAddress_next (by omega)
  have hserved :
      mem (bufferAddress ram prp1 prp2 totalLen (firstRoom prp1))
      (nextBytes prp1 totalLen)
      = some (cells ram (bufferAddress ram prp1 prp2 totalLen (firstRoom prp1))
          (nextBytes prp1 totalLen)) := by
    refine hread _ _ fun k hk =>
      Or.inl ⟨firstRoom prp1 + k, ?_, (hnext k hk).symm⟩
    have := huses.2
    unfold nextBytes at hk
    omega
  rw [nextPage, data_readPage hn hserved]
  exact (gather_eq_cells ram hnext).symm

/-- **What a dump consists of** that goes on behind the first page: a second
page of data, and before it the list if more pages are needed. -/
theorem decodePrpPages_shape {mem : PhysicalMemory}
    (huses : UsesPrp2 prp1 totalLen)
    (hread : ServedAt ram mem some (PrpUsed ram prp1 prp2 totalLen)) :
    decodePrpPages mem prp1 prp2 totalLen = firstPage mem prp1 totalLen ::
      ((if 1 < furtherNeeded prp1 totalLen
        then [listPage mem prp1 prp2 totalLen] else []) ++
        [nextPage mem ram prp1 prp2 totalLen]) := by
  by_cases hmany : 1 < furtherNeeded prp1 totalLen
  · have hhead : (readEntries mem prp1 prp2 totalLen).head? =
        some (listEntry ram prp2 0) :=
      head?_readEntries hmany
        (hread prp2 _ fun k hk =>
          Or.inr ⟨huses, hmany, Nat.le_add_right _ _, by simpa using hk⟩)
    have hbytes : nextBytes prp1 totalLen = maxPageDump - firstRoom prp1 := by
      have hlong := hmany
      rw [← not_le, furtherNeeded_le_one] at hlong
      unfold pageSize at hlong
      unfold nextBytes maxPageDump
      omega
    rw [decodePrpPages_list mem huses hmany, if_pos hmany, hhead,
      nextPage, hbytes,
      bufferAddress_list hmany]
    rfl
  · have hone : furtherNeeded prp1 totalLen ≤ 1 := Nat.not_lt.mp hmany
    rw [decodePrpPages_second mem huses hone, if_neg hmany, nextPage,
      bufferAddress_second hone]
    rfl

/-- A dump that goes on behind the first page shows a prefix of the buffer. -/
theorem take_prpBuffer_of_uses (huses : UsesPrp2 prp1 totalLen) :
    (prpBuffer ram prp1 prp2 totalLen).take (min totalLen maxPageDump)
      = gather ram (bufferAddress ram prp1 prp2 totalLen)
        (min totalLen (firstRoom prp1)) ++
        gather ram (fun i =>
          bufferAddress ram prp1 prp2 totalLen (firstRoom prp1 + i))
          (nextBytes prp1 totalLen) := by
  have hmin : min totalLen (firstRoom prp1) = firstRoom prp1 := by
    have := huses.2
    omega
  have hsum : min (min totalLen maxPageDump) totalLen
      = firstRoom prp1 + nextBytes prp1 totalLen := by
    have := huses.2
    unfold nextBytes
    omega
  rw [prpBuffer, take_gather, hsum, gather_add, hmin]

/-- So does one that does not. -/
theorem take_prpBuffer_of_not_uses (hprp : prp1 ≠ 0)
    (huses : ¬ UsesPrp2 prp1 totalLen) :
    (prpBuffer ram prp1 prp2 totalLen).take (min totalLen maxPageDump)
      = gather ram (bufferAddress ram prp1 prp2 totalLen)
        (min totalLen (firstRoom prp1)) := by
  have hle := firstRoom_le prp1
  have hbytes : min (min totalLen maxPageDump) totalLen =
      min totalLen (firstRoom prp1) := by
    unfold UsesPrp2 at huses
    unfold pageSize at hle
    unfold maxPageDump at *
    omega
  rw [prpBuffer, take_gather, hbytes]

/-- **The dump is a prefix of the buffer.**  Whatever the two PRP words and the
length are, the data pages put together are the first page of bytes of the
buffer, if memory can be read there.  A list page is shown exactly when more
than one further page is needed and the first one leaves room; the data pages
are the first one and the one the buffer goes on in. -/
theorem prp_payload_prefix (ram : Nat → UInt8) (mem : PhysicalMemory)
    (prp1 prp2 totalLen : Nat)
    (hprp : prp1 ≠ 0) (hlen : 0 < totalLen)
    (hread : ServedAt ram mem some (PrpUsed ram prp1 prp2 totalLen)) :
    let pages := decodePrpPages mem prp1 prp2 totalLen
    payloadBytes pages =
      (prpBuffer ram prp1 prp2 totalLen).take (min totalLen maxPageDump) ∧
    (payloadBytes pages).length ≤ maxPageDump ∧
    ((∃ p ∈ pages, p.isListPage = true) ↔
      1 < furtherNeeded prp1 totalLen ∧
        min totalLen (firstRoom prp1) < maxPageDump) ∧
    (dataPages pages).map PrpPage.physAddr = prp1 ::
      if UsesPrp2 prp1 totalLen
        then [bufferAddress ram prp1 prp2 totalLen (firstRoom prp1)]
      else [] := by
  intro pages
  have hpayload : payloadBytes pages
      = (prpBuffer ram prp1 prp2 totalLen).take (min totalLen maxPageDump) := by
    by_cases huses : UsesPrp2 prp1 totalLen
    · rw [take_prpBuffer_of_uses huses, ← data_firstPage hread, ← data_nextPage
        huses hread,
        show pages = _ from decodePrpPages_shape huses hread]
      split <;> simp [payloadBytes, dataPages, firstPage, listPage, nextPage,
        readPage]
    · rw [take_prpBuffer_of_not_uses hprp huses, ← data_firstPage hread,
        show pages = _ from decodePrpPages_first mem hprp hlen huses]
      simp [payloadBytes, dataPages, firstPage, readPage]
  refine ⟨hpayload, ?_, ?_, ?_⟩
  · rw [hpayload, List.length_take]
    omega
  · by_cases huses : UsesPrp2 prp1 totalLen
    · have hroom : min totalLen (firstRoom prp1) < maxPageDump :=
        Nat.lt_of_le_of_lt (Nat.min_le_right _ _) huses.2.2
      rw [show pages = _ from decodePrpPages_shape huses hread]
      split <;> simp_all [firstPage, listPage, nextPage, readPage]
    · have hnot : ¬ (1 < furtherNeeded prp1 totalLen ∧
          min totalLen (firstRoom prp1) < maxPageDump) := by
        rintro ⟨hmany, hroom⟩
        rw [← not_le, furtherNeeded_le_one] at hmany
        unfold UsesPrp2 at huses
        omega
      rw [show pages = _ from decodePrpPages_first mem hprp hlen huses,
        iff_false_right hnot]
      simp [firstPage, readPage]
  · by_cases huses : UsesPrp2 prp1 totalLen
    · rw [show pages = _ from decodePrpPages_shape huses hread, if_pos huses]
      split <;> simp [dataPages, firstPage, listPage, nextPage, readPage]
    · rw [show pages = _ from decodePrpPages_first mem hprp hlen huses,
        if_neg huses]
      simp [dataPages, firstPage, readPage]

end

/-- Memory that can be read everywhere. -/
def wholeMemory (ram : Nat → UInt8) : PhysicalMemory :=
  fun a n => some (cells ram a n)

/-- Memory whose every aligned word is the address of the second page. -/
def pointingRam (a : Nat) : UInt8 := if a % 8 = 1 then 16 else 0

/-- A transfer of four pages that starts in the middle of one. -/
theorem prp_payload_prefix_fourPages :
    payloadBytes (decodePrpPages (wholeMemory pointingRam) 6144 8192 16384)
      = (prpBuffer pointingRam 6144 8192 16384).take 4096 :=
  ( prp_payload_prefix pointingRam (wholeMemory pointingRam) 6144 8192 16384
    (by decide) (by decide)
    (fun _ _ _ => rfl)).1

/-! ### Pages and their limits -/

/-- The offset is that of the address, and the data ends in the page. -/
structure PrpPage.Inside (p : PrpPage) : Prop where
  offset : p.offsetInPage = p.physAddr % pageSize
  fits : p.offsetInPage + p.data.length ≤ pageSize

/-- No read that crosses the end of a page has any influence on the dump. -/
def StaysInPages (mem : PhysicalMemory) (prp1 prp2 totalLen : Nat) : Prop :=
  ∀ mem' : PhysicalMemory, (∀ a n, a % pageSize + n ≤ pageSize →
    mem' a n = mem a n) →
    decodePrpPages mem' prp1 prp2 totalLen =
      decodePrpPages mem prp1 prp2 totalLen

/-- A read that does not fault gives what is there. -/
def Faithful (mem : PhysicalMemory) (ram : Nat → UInt8) : Prop :=
  ∀ a n bytes, mem a n = some bytes → bytes = cells ram a n

theorem length_readPage_le {mem : PhysicalMemory} {ram : Nat → UInt8}
    (hmem : Faithful mem ram)
    (phys offset n : Nat) (isList : Bool) :
    (readPage mem phys offset n isList).data.length ≤ min n pageSize := by
  unfold readPage
  dsimp only
  cases hread : mem phys (min n pageSize) with
  | none => exact Nat.zero_le _
  | some bytes =>
      rw [hmem _ _ _ hread, Option.getD_some, length_cells]

/-- A page read from its start is inside it, wherever it is aligned. -/
theorem inside_readPage_iff {mem : PhysicalMemory} {ram : Nat → UInt8}
    (hmem : Faithful mem ram)
    (phys n : Nat) (isList : Bool) :
    (readPage mem phys 0 n isList).Inside ↔ phys % pageSize = 0 := by
  have hlen := length_readPage_le hmem phys 0 n isList
  have hoffset : (readPage mem phys 0 n isList).offsetInPage = 0 := rfl
  have hphys : (readPage mem phys 0 n isList).physAddr = phys := rfl
  constructor
  · intro h
    have := h.offset
    rw [hoffset, hphys] at this
    exact this.symm
  · intro h
    refine ⟨?_, ?_⟩
    · rw [hoffset, hphys, h]
    · rw [hoffset]
      omega

theorem inside_firstPage {mem : PhysicalMemory} {ram : Nat → UInt8}
    (hmem : Faithful mem ram)
    (prp1 totalLen : Nat) : (firstPage mem prp1 totalLen).Inside := by
  have hlen :=
    length_readPage_le hmem prp1 (prp1 % pageSize)
    (min totalLen (firstRoom prp1)) false
  have hmod : prp1 % pageSize < pageSize := Nat.mod_lt _ (by decide)
  refine ⟨rfl, ?_⟩
  change prp1 % pageSize + _ ≤ _
  unfold firstRoom at hlen
  unfold firstPage firstRoom
  omega

/-- A list that can be read names its first entry, one that cannot none. -/
theorem head?_readEntries_mem {mem : PhysicalMemory} {ram : Nat → UInt8}
    (hmem : Faithful mem ram)
    {prp1 prp2 totalLen : Nat} (hmany : 1 < furtherNeeded prp1 totalLen) :
    ∀ e ∈ (readEntries mem prp1 prp2 totalLen).head?,
      e = listEntry ram prp2 0 := by
  intro e he
  cases hread : mem prp2 (entriesRead prp1 totalLen * 8) with
  | none =>
      rw [readEntries, hread] at he
      cases he
  | some bytes =>
      have hhead : (readEntries mem prp1 prp2 totalLen).head? =
          some (listEntry ram prp2 0) :=
        head?_readEntries hmany (by rw [hread, hmem _ _ _ hread])
      rw [hhead] at he
      exact (Option.some.inj he).symm

/-- A page that is read within its limits. -/
theorem readPage_congr {mem mem' : PhysicalMemory}
    (h : ∀ a n, a % pageSize + n ≤ pageSize → mem' a n = mem a n) {phys n : Nat}
    (hn : phys % pageSize + min n pageSize ≤ pageSize) (offset : Nat)
    (isList : Bool) :
    readPage mem' phys offset n isList = readPage mem phys offset n isList := by
  unfold readPage
  rw [h _ _ hn]

section

variable {ram : Nat → UInt8} {mem : PhysicalMemory} {prp1 prp2 totalLen : Nat}

/-- Nothing is dumped without a first page or without data. -/
theorem decodePrpPages_nil (h : prp1 = 0 ∨ totalLen = 0) :
    decodePrpPages mem prp1 prp2 totalLen = [] := if_pos h

/-- The page of the first entry of an aligned list. -/
theorem inside_entryPages (hmem : Faithful mem ram)
    (hmany : 1 < furtherNeeded prp1 totalLen)
    (hentry : listEntry ram prp2 0 % pageSize = 0) (n : Nat) :
    ∀ p ∈ ((readEntries mem prp1 prp2 totalLen).head?.map (fun e =>
      readPage mem e 0 n false)).toList,
      p.Inside := by
  intro p hp
  obtain ⟨e, he, rfl⟩ := Option.map_eq_some_iff.mp (Option.mem_toList.mp hp)
  rw [head?_readEntries_mem hmem hmany e he]
  exact (inside_readPage_iff hmem _ n false).mpr hentry

/-- **Aligned pages are shown as they are.** -/
theorem inside_of_aligned (hmem : Faithful mem ram)
    (hlist : 1 < furtherNeeded prp1 totalLen →
      ∀ j < furtherNeeded prp1 totalLen, listEntry ram prp2 j % pageSize = 0)
    (haligned : UsesPrp2 prp1 totalLen → prp2 % pageSize = 0) :
    ∀ p ∈ decodePrpPages mem prp1 prp2 totalLen, p.Inside := by
  by_cases hnone : prp1 = 0 ∨ totalLen = 0
  · rw [decodePrpPages_nil hnone]
    exact List.forall_mem_nil _
  have hfirst := inside_firstPage hmem prp1 totalLen
  by_cases huses : UsesPrp2 prp1 totalLen
  · have hinside :=
      fun n isList =>
      (inside_readPage_iff hmem prp2 n isList).mpr (haligned huses)
    by_cases hmany : 1 < furtherNeeded prp1 totalLen
    · rw [decodePrpPages_list mem huses hmany]
      refine List.forall_mem_cons.mpr ⟨hfirst,
        List.forall_mem_cons.mpr ⟨hinside _ true, ?_⟩⟩
      exact inside_entryPages hmem hmany (hlist hmany 0 (by omega)) _
    · rw [decodePrpPages_second mem huses (Nat.not_lt.mp hmany)]
      exact List.forall_mem_cons.mpr ⟨hfirst,
        List.forall_mem_singleton.mpr (hinside _ false)⟩
  · rw [decodePrpPages_first mem (by omega) (by omega) huses]
    exact List.forall_mem_singleton.mpr hfirst

/-- **Nothing else is read.** -/
theorem staysInPages_of_aligned (hmem : Faithful mem ram)
    (hlist : 1 < furtherNeeded prp1 totalLen →
      ∀ j < furtherNeeded prp1 totalLen, listEntry ram prp2 j % pageSize = 0)
    (haligned : UsesPrp2 prp1 totalLen → prp2 % pageSize = 0) :
    StaysInPages mem prp1 prp2 totalLen := by
  intro mem' hsame
  by_cases hnone : prp1 = 0 ∨ totalLen = 0
  · rw [decodePrpPages_nil hnone, decodePrpPages_nil hnone]
  have hfirst : firstPage mem' prp1 totalLen = firstPage mem prp1 totalLen := by
    refine readPage_congr hsame ?_ _ _
    have hmod : prp1 % pageSize < pageSize := Nat.mod_lt _ (by decide)
    unfold firstRoom
    omega
  by_cases huses : UsesPrp2 prp1 totalLen
  · have hsecond : ∀ n isList, readPage mem' prp2 0 n isList =
        readPage mem prp2 0 n isList := by
      intro n isList
      exact readPage_congr hsame (by rw [haligned huses]; omega) _ _
    by_cases hmany : 1 < furtherNeeded prp1 totalLen
    · have hentries : readEntries mem' prp1 prp2 totalLen =
          readEntries mem prp1 prp2 totalLen := by
        unfold readEntries
        rw [hsame]
        rw [haligned huses]
        unfold entriesRead pageSize
        omega
      rw [decodePrpPages_list mem' huses hmany,
        decodePrpPages_list mem huses hmany, hfirst,
        listPage, listPage, hsecond, hentries]
      congr 3
      refine Option.map_congr fun e he => ?_
      refine readPage_congr hsame ?_ _ _
      rw [head?_readEntries_mem hmem hmany e he, hlist hmany 0 (by omega)]
      omega
    · rw [decodePrpPages_second mem' huses (Nat.not_lt.mp hmany),
        decodePrpPages_second mem huses (Nat.not_lt.mp hmany), hfirst, hsecond]
  · rw [decodePrpPages_first mem' (by omega) (by omega) huses,
      decodePrpPages_first mem (by omega) (by omega) huses, hfirst]

end

/-- **When the dump stays inside the pages.**  If the entries of the list are
page aligned, every page has the offset of its address and ends where it should,
and nothing beyond is read, exactly when `prp2` is page aligned if it is used at
all.  The list of a large transfer may start anywhere in a page. -/
theorem prp_pages_inside_iff (ram : Nat → UInt8) (mem : PhysicalMemory)
    (prp1 prp2 totalLen : Nat)
    (hmem : Faithful mem ram)
    (hlist : 1 < furtherNeeded prp1 totalLen →
      ∀ j < furtherNeeded prp1 totalLen, listEntry ram prp2 j % pageSize = 0) :
    ((∀ p ∈ decodePrpPages mem prp1 prp2 totalLen, p.Inside) ∧
        StaysInPages mem prp1 prp2 totalLen) ↔
      (UsesPrp2 prp1 totalLen → prp2 % pageSize = 0) := by
  constructor
  · rintro ⟨hinside, -⟩ huses
    by_cases hmany : 1 < furtherNeeded prp1 totalLen
    · have hpage :
          listPage mem prp1 prp2 totalLen ∈
          decodePrpPages mem prp1 prp2 totalLen := by
        rw [decodePrpPages_list mem huses hmany]
        simp
      exact (inside_readPage_iff hmem prp2 _ true).mp (hinside _ hpage)
    · rw [decodePrpPages_second mem huses (Nat.not_lt.mp hmany)] at hinside
      exact (inside_readPage_iff hmem prp2 _ false).mp
        (hinside _ (List.mem_cons_of_mem _ List.mem_cons_self))
  · intro haligned
    exact ⟨inside_of_aligned hmem hlist haligned,
      staysInPages_of_aligned hmem hlist haligned⟩

theorem faithful_wholeMemory (ram : Nat → UInt8) :
    Faithful (wholeMemory ram) ram :=
  fun _ _ _ h => (Option.some.inj h).symm

/-- Every entry of a list in this memory is the second page. -/
theorem listEntry_pointingRam {prp2 : Nat} (h : prp2 % 8 = 0) (j : Nat) :
    listEntry pointingRam prp2 j = 4096 := by
  have hbyte : ∀ k, k < 8 → pointingRam (prp2 + 8 * j + k) = if k = 1 then 16
      else 0 := by
    intro k hk
    have hmod : (prp2 + 8 * j + k) % 8 = k := by omega
    unfold pointingRam
    rw [hmod]
  have hcells : cells pointingRam (prp2 + 8 * j) 8
      = (List.range 8).map (fun k => if k = 1 then 16 else 0) :=
    List.map_congr_left fun k hk => hbyte k (List.mem_range.mp hk)
  rw [listEntry, hcells]
  rfl

/-- A list at the start of a page. -/
theorem prp_pages_inside_alignedList :
    (∀ p ∈ decodePrpPages (wholeMemory pointingRam) 6144 8192 16384, p.Inside) ∧
      StaysInPages (wholeMemory pointingRam) 6144 8192 16384 :=
  (prp_pages_inside_iff pointingRam (wholeMemory pointingRam) 6144 8192 16384
    (faithful_wholeMemory pointingRam)
    (fun _ j _ => by rw [listEntry_pointingRam (by decide)]; rfl)).mpr
      (fun _ => by decide)

/-- A list that starts 256 bytes into a page is shown with the offset 0. -/
theorem unaligned_list_shown :
    Faithful (wholeMemory pointingRam) pointingRam ∧
      (∀ j, listEntry pointingRam 8448 j % pageSize = 0) ∧
      ¬ ∀ p ∈ decodePrpPages (wholeMemory pointingRam) 6144 8448 16384,
        p.Inside := by
  refine ⟨faithful_wholeMemory pointingRam, ?_, ?_⟩
  · intro j
    rw [listEntry_pointingRam (by decide)]
    rfl
  · intro h
    have hpage : listPage (wholeMemory pointingRam) 6144 8448 16384
        ∈ decodePrpPages (wholeMemory pointingRam) 6144 8448 16384 := by
      rw [decodePrpPages_list _ (by decide) (by decide)]
      simp
    exact absurd (h _ hpage).offset (by decide)

end Telemetryd
