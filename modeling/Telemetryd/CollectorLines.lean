import Telemetryd.LastTick
import Telemetryd.Lib.Utf8

/-!
# Lines the collector prints

The `printf` formats of `ebpf/nvme_perf.bt` and the dump of a map by bpftrace's
`print`, as the texts they produce.  A map is dumped one line a key, `@name[k1,
k2]: v`, in any order.  A key may be the name of a process, `comm`, which is
written as its bytes: it is the only part of a line that the collector does not
choose.
-/

namespace Telemetryd

open PyText Utf8

/-- The name of a process: what `prctl(PR_SET_NAME)` accepts. -/
structure Comm where
  bytes : Bytes
  length_le : bytes.length ≤ 15
  nulFree : 0 ∉ bytes
  deriving DecidableEq

/-- One line of output, without its line feed. -/
inductive PrintedLine where
  | plain (text : PyText)
  /-- The text `front`, a blank, the name, a closing bracket and the text
  `back`. -/
  | named (front : PyText) (comm : Comm) (back : PyText)

namespace PrintedLine

/-- The line as it is written. -/
def bytes : PrintedLine → Bytes
  | plain text => ascii text
  | named front comm back =>
      ascii (front ++ [' ']) ++ comm.bytes ++ ascii (']' :: back)

/-- The line as it is read. -/
def text : PrintedLine → PyText
  | plain text => text
  | named front comm back => front ++ ' ' :: (decode comm.bytes ++ ']' :: back)

end PrintedLine

/-! ### Maps -/

/-- The orders in which a run prints its maps: for each tick and each map any
permutation of the entries.  bpftrace promises none; entries of equal value come
in the order of a hash table. -/
structure PrintOrder where
  order : Nat → PyText → {κ ν : Type} → List (κ × ν) → List (κ × ν)
  perm : ∀ (tick : Nat) (name : PyText) {κ ν : Type} (l : List (κ × ν)),
    (order tick name l).Perm l

/-- Oldest key first. -/
def PrintOrder.inserted : PrintOrder where
  order _ _ {_ _} l := l
  perm _ _ {_ _} _ := List.Perm.refl _

/-- Integer keys, `k1, k2, …`. -/
def keyText : List Int64 → PyText
  | [] => []
  | [k] => ofInt k.toInt
  | k :: ks => ofInt k.toInt ++ ", ".toList ++ keyText ks

/-- The line of an entry with integer keys. -/
def mapLine (name : PyText) (keys : List Int64) (value : UInt64) : PyText :=
  '@' :: name ++ '[' :: keyText keys ++ "]: ".toList ++ ofNat value.toNat

/-- The line of an entry whose last key is the name of a process. -/
def commLine (name : PyText) (keys : List Int64) (comm : Comm)
    (value : UInt64) : PrintedLine :=
  .named ('@' :: name ++ '[' :: keyText keys ++ [',']) comm (": ".toList ++
    ofNat value.toNat)

/-! ### Histograms -/

/-- A histogram of `hist()`: a counter for negative values, one for 0, one for
1, and one for each power of two from there on. -/
abbrev Hist := Fin 65 → UInt64

/-- The counter a value goes to. -/
def histIndex (value : Int64) : Fin 65 :=
  if value.toInt < 0 then 0
  else if value.toInt = 0 then 1
  else Fin.ofNat 65 (2 + Nat.log2 value.toInt.toNat)

/-- The suffix of a power of 1024. -/
def unitText : Nat → PyText
  | 0 => []
  | 1 => ['K']
  | 2 => ['M']
  | 3 => ['G']
  | 4 => ['T']
  | 5 => ['P']
  | _ => ['E']

/-- A bound `2^k`, in units of the largest power of 1024 in it. -/
def boundText (k : Nat) : PyText := ofNat (2 ^ (k % 10)) ++ unitText (k / 10)

/-- The range a counter stands for. -/
def rangeText (i : Fin 65) : PyText :=
  if i = 0 then "(..., 0)".toList
  else if i = 1 then "[0]".toList
  else if i = 2 then "[1]".toList
  else '[' :: boundText (i - 2) ++ ", ".toList ++ boundText (i - 1) ++ [')']

/-- Fill up with blanks on the right. -/
def padRight (width : Nat) (s : PyText) : PyText :=
  s ++ List.replicate (width - s.length) ' '

/-- Fill up with blanks on the left. -/
def padLeft (width : Nat) (s : PyText) : PyText :=
  List.replicate (width - s.length) ' ' ++ s

/-- A row of a histogram whose largest counter is `most`. -/
def histRow (h : Hist) (most : Nat) (i : Fin 65) : PyText :=
  padRight 16 (rangeText i) ++ padLeft 8 (ofNat (h i).toNat) ++ " |".toList ++
    padRight 52 (List.replicate (52 * (h i).toNat / most) '@') ++ ['|']

/-- The rows from the lowest to the highest occupied counter. -/
def histRows (h : Hist) : List PyText :=
  let occupied := fun i => decide (h i ≠ 0)
  let range :=
    ((List.finRange 65).dropWhile (fun i => !occupied i)).reverse.dropWhile
    (fun i => !occupied i)
  let most := (range.map (fun i => (h i).toNat)).foldl max 0
  range.reverse.map (histRow h most)

/-- The lines of a histogram: its key, its rows and an empty line. -/
def histLines (name : PyText) (keys : List Int64) (h : Hist) : List PyText :=
  ('@' :: name ++ '[' :: keyText keys ++ "]: ".toList) :: histRows h ++ [[]]

/-! ### Events -/

/-- The line of `kprobe:nvme_timeout`, without its line feed. -/
def timeoutEventLine
    (tsNs ctrl qid tag opcode nsid flags cdw10 cdw11 cdw12 cdw13 cdw14 cdw15
    elapsedNs : Int) : PyText :=
  "TIMEOUT_EVENT ts_ns=".toList ++ ofInt tsNs ++ " ctrl=".toList ++
    ofInt ctrl ++
    " qid=".toList ++ ofInt qid ++ " tag=".toList ++ ofInt tag ++
      " opcode=".toList ++
    ofInt opcode ++ " nsid=".toList ++ ofInt nsid ++ " flags=".toList ++
      ofInt flags ++
    " cdw10=".toList ++ ofInt cdw10 ++ " cdw11=".toList ++ ofInt cdw11 ++
      " cdw12=".toList ++
    ofInt cdw12 ++ " cdw13=".toList ++ ofInt cdw13 ++ " cdw14=".toList ++
      ofInt cdw14 ++
    " cdw15=".toList ++ ofInt cdw15 ++ " elapsed_ns=".toList ++ ofInt elapsedNs

/-- The line of a command completed with an error, without its line feed. -/
def errorEventLine
    (tsNs ctrl qid cid tag opcode nsid status sct sc dnr more crd slba
      nlb retries
    cached elapsedNs : Int) : PyText :=
  "ERROR_EVENT ts_ns=".toList ++ ofInt tsNs ++ " ctrl=".toList ++ ofInt ctrl ++
    " qid=".toList ++ ofInt qid ++ " cid=".toList ++ ofInt cid ++
      " tag=".toList ++ ofInt tag ++
    " opcode=".toList ++ ofInt opcode ++ " nsid=".toList ++ ofInt nsid ++
      " status=".toList ++
    ofInt status ++ " sct=".toList ++ ofInt sct ++ " sc=".toList ++ ofInt sc ++
      " dnr=".toList ++
    ofInt dnr ++ " more=".toList ++ ofInt more ++ " crd=".toList ++ ofInt crd ++
    " slba=".toList ++ ofInt slba ++ " nlb=".toList ++ ofInt nlb ++
      " retries=".toList ++
    ofInt retries ++ " cached=".toList ++ ofInt cached ++
      " elapsed_ns=".toList ++ ofInt elapsedNs

/-- The line of `BEGIN`. -/
def attachedLine : PyText := "nvme_perf.bt attached".toList

end Telemetryd
