import Telemetryd.Lib.PyText

/-!
# NVMe constants

The tables of `nvme_const.py` that name opcodes and completion statuses.  A
code that is not in its table is shown in hexadecimal.
-/

namespace Telemetryd

open PyText

/-- A table of names, looked up with a default. -/
def nameOr (table : List (Int × String)) (code : Int) (fallback : PyText) :
    PyText :=
  match table.lookup code with
  | some name => name.toList
  | none => fallback

/-- `0x` and at least `w` hexadecimal digits. -/
def hex0x (w : Nat) (i : Int) : PyText := "0x".toList ++ hex w i

/-- Opcodes of the I/O command set. -/
def nvmOpc : List (Int × String) :=
  [(0x00, "flush"), (0x01, "write"), (0x02, "read"), (0x09, "dsm"),
    (0x0d, "write_zeroes")]

/-- Opcodes of the admin command set. -/
def admOpc : List (Int × String) :=
  [(0x00, "delete_sq"), (0x01, "create_sq"), (0x02, "get_log"),
    (0x04, "delete_cq"),
    (0x05, "create_cq"), (0x06, "identify"), (0x09, "set_features"),
    (0x0a, "get_features"),
    (0x0c, "async_event")]

/-- `opcode_name`: the name of an opcode, else its number. -/
def opcodeName (opcode : Int) (isAdmin : Bool) : PyText :=
  nameOr (if isAdmin then admOpc else nvmOpc) opcode (hex0x 2 opcode)

/-! ### Completion status -/

/-- The status code types. -/
def sctNames : List (Int × String) :=
  [(0x0, "Generic"), (0x1, "Command Specific"), (0x2, "Media/Data Integrity"),
    (0x3, "Path Related"), (0x7, "Vendor Specific")]

/-- The generic status codes. -/
def scGeneric : List (Int × String) :=
  [(0x00, "Success"), (0x01, "Invalid Command Opcode"),
    (0x02, "Invalid Field in Command"),
    (0x03, "Command ID Conflict"), (0x04, "Data Transfer Error"),
    (0x05, "Commands Aborted due to Power Loss"), (0x06, "Internal Error"),
    (0x07, "Command Abort Requested"),
    (0x08, "Command Aborted due to SQ Deletion"),
    (0x0b, "Invalid Namespace or Format"), (0x0c, "Command Sequence Error"),
    (0x1c, "Namespace Not Ready"), (0x80, "LBA Out of Range"),
    (0x81, "Capacity Exceeded"),
    (0x82, "Namespace Not Ready"), (0x83, "Reservation Conflict")]

/-- The command specific status codes. -/
def scCmdSpecific : List (Int × String) :=
  [(0x00, "Completion Queue Invalid"), (0x01, "Invalid Queue Identifier"),
    (0x02, "Invalid Queue Size"), (0x05, "Abort Command Limit Exceeded"),
    (0x0a, "Invalid Format"), (0x0e, "Invalid Log Page"),
    (0x80, "Conflicting Attributes"),
    (0x81, "Invalid Protection Information"),
    (0x82, "Attempted Write to Read Only Range")]

/-- The media and data integrity errors. -/
def scMedia : List (Int × String) :=
  [(0x80, "Write Fault"), (0x81, "Unrecovered Read Error"),
    (0x82, "End-to-end Guard Check Error"),
    (0x83, "End-to-end Application Tag Check Error"),
    (0x84, "End-to-end Reference Tag Check Error"), (0x85, "Compare Failure"),
    (0x86, "Access Denied"), (0x87, "Deallocated or Unwritten Logical Block")]

/-- The path related status codes. -/
def scPath : List (Int × String) :=
  [(0x00, "Internal Path Error"), (0x01, "Asymmetric Access Persistent Loss"),
    (0x02, "Asymmetric Access Inaccessible"),
    (0x03, "Asymmetric Access Transition"),
    (0x60, "Controller Path Error"), (0x70, "Host Path Error"),
    (0x71, "Command Aborted by Host")]

/-- `sct_name`: the name of a status code type, else its number. -/
def sctName (sct : Int) : PyText :=
  nameOr sctNames sct ("SCT 0x".toList ++ hex 1 sct)

/-- The table of a status code type, if it has one. -/
def scTable (sct : Int) : List (Int × String) :=
  if sct = 0 then scGeneric
  else if sct = 1 then scCmdSpecific
  else if sct = 2 then scMedia
  else if sct = 3 then scPath
  else []

/-- `sc_name`: the name of a status code among those of its type, else its
number. -/
def scName (sct sc : Int) : PyText := nameOr (scTable sct) sc (hex0x 2 sc)

/-- The fields of a completion status. -/
structure StatusFields where
  sc : Int
  sct : Int
  crd : Int
  more : Bool
  dnr : Bool
  sctName : PyText
  scName : PyText

/-- `decode_status`, on a status without its phase bit. -/
def decodeStatus (status : Int) : StatusFields :=
  let sc := status % 256
  let sct := status / 256 % 8
  { sc := sc
    sct := sct
    crd := status / 2048 % 4
    more := decide (status / 8192 % 2 ≠ 0)
    dnr := decide (status / 16384 % 2 ≠ 0)
    sctName := Telemetryd.sctName sct
    scName := Telemetryd.scName sct sc }

end Telemetryd
