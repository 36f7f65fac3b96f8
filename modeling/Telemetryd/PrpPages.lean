import Mathlib.Data.List.Range
import Telemetryd.Lib.PyText
import Telemetryd.Lib.Utf8

/-!
# PRP pages

`_decode_prp_pages` of `services/queues/decode.py`: the pages of a data buffer
described by the two PRP words of a command, read from physical memory and cut
off after `MAX_PAGE_DUMP` bytes of data.
-/

namespace Telemetryd

/-- Page size of x86-64. -/
def pageSize : Nat := 4096

/-- 8-byte entries in one page of a PRP list. -/
def prpsPerPage : Nat := pageSize / 8

/-- The most bytes of data that are dumped. -/
def maxPageDump : Nat := 4096

/-- `PrpPage`. -/
structure PrpPage where
  physAddr : Nat
  offsetInPage : Nat
  data : Bytes
  isListPage : Bool
  deriving DecidableEq

/-- `prog.read(addr, n, physical=True)`; `none` where it raises. -/
abbrev PhysicalMemory := Nat → Nat → Option Bytes

/-- At most a page from `phys` on, and no data where memory cannot be read. -/
def readPage (mem : PhysicalMemory) (phys offset nbytes : Nat)
    (isListPage : Bool) : PrpPage where
  physAddr := phys
  offsetInPage := offset
  data := (mem phys (min nbytes pageSize)).getD []
  isListPage := isListPage

/-- A little-endian number. -/
def littleEndian : Bytes → Nat
  | [] => 0
  | b :: bs => b.toNat + 256 * littleEndian bs

/-- `struct.unpack` of `count` 8-byte words from exactly that many bytes. -/
def unpackWords (count : Nat) (raw : Bytes) : Option (List Nat) :=
  if raw.length = 8 * count then
    some ((List.range count).map (fun i =>
      littleEndian ((raw.drop (8 * i)).take 8)))
  else none

/-- The loop over the entries of a PRP list.  `i` counts them and `shown` the
bytes of data so far. -/
def listedPages (mem : PhysicalMemory) (remaining : Nat) :
    List Nat → Nat → Nat → List PrpPage
  | [], _, _ => []
  | entry :: entries, i, shown =>
      if maxPageDump ≤ shown then []
      else
        let pageBytes :=
          min pageSize (min (remaining - i * pageSize) (maxPageDump - shown))
        if pageBytes = 0 then []
        else
          readPage mem entry 0 pageBytes false ::
            listedPages mem remaining entries (i + 1) (shown + pageBytes)

/-- The data after the first page: in one page at `prp2`, or in the pages that
the list at `prp2` names. -/
def furtherPages (mem : PhysicalMemory) (prp2 remaining shown : Nat) :
    List PrpPage :=
  let more := (remaining + pageSize - 1) / pageSize
  if more = 1 then
    let pageBytes := min remaining (maxPageDump - shown)
    if 0 < pageBytes then [readPage mem prp2 0 pageBytes false] else []
  else
    let listPage := readPage mem prp2 0 (min remaining pageSize) true
    if maxPageDump ≤ shown then [listPage]
    else
      -- a list is followed over its first eight entries
      let count := min more (min (prpsPerPage - 1) 8)
      let entries := ((mem prp2 (count * 8)).bind (unpackWords count)).getD []
      listPage :: listedPages mem remaining entries 0 shown

/-- `decode_prp_pages`: the pages of a transfer, as far as the list is
followed. -/
def decodePrpPages (mem : PhysicalMemory) (prp1 prp2 totalLen : Nat) :
    List PrpPage :=
  if prp1 = 0 ∨ totalLen = 0 then []
  else
    let offset := prp1 % pageSize
    let firstPageBytes := min totalLen (pageSize - offset)
    let firstBytes := min firstPageBytes maxPageDump
    let first := readPage mem prp1 offset firstBytes false
    let remaining := totalLen - firstPageBytes
    if remaining = 0 ∨ maxPageDump ≤ firstBytes then [first]
    else first :: furtherPages mem prp2 remaining firstBytes

end Telemetryd
