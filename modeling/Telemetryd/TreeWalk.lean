import Telemetryd.Lib.PyNumber
import Telemetryd.Lib.Utf8
import Telemetryd.NvmeConst

/-!
# The pointer tree

`treewalk.py` shows kernel objects as a tree that is opened one level at a time:
`expand` follows a path of field names and indices from a root object, describes
the object it reaches and lists the children of that object.

The objects themselves belong to drgn, which is not part of the repository.  A
`Drgn` is what the module uses of it, and `Drgn.Lawful` what drgn promises of
the exceptions it raises.
-/

namespace Telemetryd

open PyText

/-! ### Types and objects -/

/-- The exceptions that meet the module.  The two that it catches carry their
text, and `lookupError` stands for `IndexError` and `KeyError` as well. -/
inductive TreeError where
  | faultError (text : PyText)
  | lookupError (text : PyText)
  | typeError
  | valueError
  | overflowError
  | otherError
  deriving DecidableEq

/-- `except FaultError` -/
def TreeError.IsFault : TreeError → Prop
  | .faultError _ => True
  | _ => False

/-- `except (FaultError, LookupError)` -/
def TreeError.IsCaught : TreeError → Prop
  | .faultError _ => True
  | .lookupError _ => True
  | _ => False

/-- The kinds of type that have members. -/
inductive CompoundKind where
  | struct
  | union
  | cxxClass
  deriving DecidableEq

/-- A type of the program that is looked at.  A structure is known by a number,
since its members may lead back to it. -/
inductive CType where
  | void
  | int (name : PyText) (size : Nat)
  | bool (name : PyText) (size : Nat)
  | float (name : PyText)
  | enum (tag : Option PyText)
  | compound (kind : CompoundKind) (tag : Option PyText) (id : Nat)
  | typedef (name : PyText) (type : CType)
  | pointer (type : CType)
  | array (type : CType) (length : Option Nat)
  | function (id : Nat)
  deriving DecidableEq

/-- What is used of drgn.  `members` has the names of the members of a
structure, and nothing for an incomplete one; `hasSize` says of which types
there is a `sizeof`. -/
structure Drgn (Obj : Type) where
  typeOf : Obj → CType
  members : Nat → Option (List (Option PyText))
  hasSize : CType → Bool
  typeStr : CType → PyText
  member : Obj → PyText → Except TreeError Obj
  index : Obj → Int → Except TreeError Obj
  intOf : Obj → Except TreeError Nat
  stringOf : Obj → Except TreeError Bytes
  valueStr : Obj → Except TreeError PyText
  str : Obj → Except TreeError PyText
  addressOf : Obj → Except TreeError (Option Nat)

/-- A node of the tree, by its kind. -/
inductive NodeKind where
  | struct
  | pointer
  | array
  | scalar
  | string
  | unreadable
  deriving DecidableEq

/-- The summary of one object. -/
structure TreeNode where
  name : PyText
  typeName : PyText
  kind : NodeKind
  valueRepr : PyText
  address : Option Nat
  isNull : Bool
  expandable : Bool
  deriving DecidableEq

/-- A node and the children below it. -/
structure TreeExpansion where
  node : TreeNode
  children : List TreeNode
  depth : Nat
  error : Option PyText
  deriving DecidableEq

/-- `MAX_DEPTH` -/
def maxDepth : Nat := 10

/-- `MAX_ARRAY_CHILDREN` -/
def maxArrayChildren : Nat := 64

/-- `_unwrap_typedef` -/
def unwrapTypedef : CType → CType
  | .typedef _ t => unwrapTypedef t
  | t => t

/-- `_kind_of` -/
def kindOf (t : CType) : NodeKind :=
  match unwrapTypedef t with
  | .pointer _ => .pointer
  | .compound _ _ _ => .struct
  | .array _ _ => .array
  | _ => .scalar

/-- `_is_byte_type` -/
def isByteType (t : CType) : Bool :=
  match unwrapTypedef t with
  | .int _ size => size == 1
  | .bool _ size => size == 1
  | _ => false

/-- `_looks_like_string` -/
def looksLikeString (t : CType) : Bool :=
  match unwrapTypedef t with
  | .pointer target => isByteType target
  | .array element _ => isByteType element
  | _ => false

/-- A prefix of `_TAGGED_KIND_PREFIX` and the tag behind it. -/
def taggedName (keyword : String) (tag : Option PyText) : PyText :=
  match tag with
  | some (c :: t) => keyword.toList ++ ' ' :: c :: t
  | _ => keyword.toList ++ " <anonymous>".toList

section

variable {Obj : Type} (d : Drgn Obj)

/-- `_short_type_name` below the typedefs of `whole`. -/
def shortTypeNameOf (whole : CType) : CType → PyText
  | .typedef _ t => shortTypeNameOf whole t
  | .array element length =>
      shortTypeNameOf element element ++ match length with
        | some n => " [".toList ++ ofNat n ++ "]".toList
        | none => " []".toList
  | .compound .struct tag _ => taggedName "struct" tag
  | .compound .union tag _ => taggedName "union" tag
  | .compound .cxxClass tag _ => taggedName "class" tag
  | .enum tag => taggedName "enum" tag
  | _ => d.typeStr whole

/-- `_short_type_name` -/
def shortTypeName (t : CType) : PyText := shortTypeNameOf d t t

/-- `try: ... except FaultError as e: ...` -/
def onFault {α : Type} (x : Except TreeError α) (handler : PyText → α) :
    Except TreeError α :=
  match x with
  | .error (.faultError text) => .ok (handler text)
  | x => x

/-- The address of an object, where it has one that can be had. -/
def addressOrNone (obj : Obj) : Option Nat :=
  match d.addressOf obj with
  | .ok address => address
  | .error _ => none

/-- The value of an enumeration without its type. -/
def enumeratorText (rendered : PyText) : PyText :=
  if "(enum".toList.isPrefixOf rendered ∧ ')' ∈ rendered then
    (rendered.dropWhile (· != ')')).drop 1
  else rendered

/-- What is shown of an array: its length. -/
def arrayText (t : CType) : PyText :=
  match unwrapTypedef t with
  | .array _ (some n) => "<array len=".toList ++ ofNat n ++ ">".toList
  | _ => "<array>".toList

/-- A text at an object, or what stands for one that cannot be read. -/
def describeString (node : TreeNode) (obj : Obj) (unread : PyText) :
    Except TreeError TreeNode :=
  onFault (do
    let text ← d.stringOf obj
    pure { node with valueRepr := Utf8.decode text, kind := .string })
    fun _ => { node with valueRepr := unread }

/-- The branch of `describe` for pointers. -/
def describePointer (node : TreeNode) (obj : Obj) :
    Except TreeError TreeNode := do
  let address ← d.intOf obj
  let isNull := address == 0
  let node := { node with address := some address, isNull := isNull }
  if looksLikeString (d.typeOf obj) && !isNull
    then describeString d node obj (hex0x 0 address)
  else pure { node with valueRepr := hex0x 0 address, expandable := !isNull }

/-- The branch of `describe` for arrays. -/
def describeArray (node : TreeNode) (obj : Obj) : Except TreeError TreeNode :=
  if looksLikeString (d.typeOf obj)
    then describeString d node obj "<char[]>".toList
  else
    .ok { node with
      address := addressOrNone d obj, valueRepr :=
        arrayText (d.typeOf obj), expandable := true }

/-- The branches of `describe` for enumerations and for all else. -/
def describeScalar (node : TreeNode) (obj : Obj) : Except TreeError TreeNode :=
  match unwrapTypedef (d.typeOf obj) with
  | .enum _ => do
      let rendered ← d.str obj
      pure { node with valueRepr := enumeratorText rendered }
  | _ =>
      match d.valueStr obj with
      | .ok text => .ok { node with valueRepr := text }
      | .error _ => do
          let text ← d.str obj
          pure { node with valueRepr := text }

/-- The body of `describe`, before a fault is handled.  It fills in a node that
has the name and the type only. -/
def describeValue (node : TreeNode) (obj : Obj) : Except TreeError TreeNode :=
  match node.kind with
  | .pointer => describePointer d node obj
  | .struct =>
      .ok { node with
        address := addressOrNone d obj
        valueRepr := "<".toList ++ node.typeName ++ ">".toList
        expandable := true }
  | .array => describeArray d node obj
  | _ => describeScalar d node obj

/-- `describe` -/
def describe (name : PyText) (obj : Obj) : Except TreeError TreeNode :=
  let node : TreeNode :=
    { name := name, typeName := shortTypeName d (d.typeOf obj),
      kind := kindOf (d.typeOf obj),
      valueRepr := [], address := none, isNull := false, expandable := false }
  onFault (describeValue d node obj) fun text =>
    { node with
      kind := .unreadable
      valueRepr := "<읽기 실패(FaultError): ".toList ++ text ++ ">".toList }

/-! ### Children and paths -/

/-- The children that could be had, in their order. -/
def answeredOnly : List (PyText × Except TreeError Obj) →
    Except TreeError (List (PyText × Obj))
  | [] => .ok []
  | (name, .ok obj) :: rest => do
      let more ← answeredOnly rest
      pure ((name, obj) :: more)
  | (_, .error (.faultError _)) :: rest => answeredOnly rest
  | (_, .error (.lookupError _)) :: rest => answeredOnly rest
  | (_, .error e) :: _ => .error e

/-- The members with a name of a structure, or of the one that a pointer leads
to.  An incomplete structure has no list of members to go through. -/
def memberObjects (obj : Obj) (id : Nat) :
    Except TreeError (List (PyText × Obj)) :=
  match d.members id with
  | none => .error .typeError
  | some names =>
      answeredOnly ((names.filterMap fun name => name).map fun name =>
      (name, d.member obj name))

/-- The text of an index. -/
def indexText (i : Nat) : PyText := '[' :: ofNat i ++ [']']

/-- `_child_objects` -/
def childObjects (obj : Obj) : Except TreeError (List (PyText × Obj)) :=
  match unwrapTypedef (d.typeOf obj) with
  | .pointer target => do
      let address ← d.intOf obj
      if address = 0 then pure []
      else
        match unwrapTypedef target with
        | .compound _ _ id => memberObjects d obj id
        | .void => pure []
        | _ =>
            onFault ((fun child => [("*".toList, child)]) <$>
              d.index obj 0) fun _ => []
  | .compound _ _ id => memberObjects d obj id
  | .array _ length =>
      answeredOnly
        ((List.range (min (length.getD 0) maxArrayChildren)).map fun i =>
        (indexText i, d.index obj i))
  | _ => pure []

/-- `step.startswith("[") and step.endswith("]")` -/
def isIndexStep (step : PyText) : Bool :=
  step.head? == some '[' && step.getLast? == some ']'

/-- The children as they are described.  A fault ends the list. -/
def describeChildren : List (PyText × Obj) → Except TreeError (List TreeNode)
  | [] => .ok []
  | (name, obj) :: rest =>
      match describe d name obj with
      | .ok node => do
          let more ← describeChildren rest
          pure (node :: more)
      | .error (.faultError _) => .ok []
      | .error e => .error e

/-- A node for what could not be reached. -/
def unreadableNode (name valueRepr : PyText) : TreeNode :=
  { name := name, typeName := "?".toList, kind := .unreadable,
    valueRepr := valueRepr,
    address := none, isNull := false, expandable := false }

variable [UnicodeDb]

/-- One turn of the loop of `resolve_path`. -/
def resolveStep (obj : Obj) (step : PyText) : Except TreeError Obj :=
  if isIndexStep step then
    match intOfText (step.drop 1).dropLast with
    | .ok i => d.index obj i
    | .error _ => .error .valueError
  else d.member obj step

/-- `resolve_path` -/
def resolvePath : Obj → List PyText → Except TreeError Obj
  | obj, [] => .ok obj
  | obj, step :: path => do
      let next ← resolveStep d obj step
      resolvePath next path

/-- `expand` -/
def expand (root : Obj) (rootName : PyText) (path : List PyText) :
    Except TreeError TreeExpansion :=
  let depth := path.length
  let name := path.getLast?.getD rootName
  let failed (valueRepr error : PyText) : TreeExpansion :=
    { node := unreadableNode name valueRepr, children := [], depth := depth,
      error := some error }
  if maxDepth < depth then
    .ok (failed "depth 초과".toList
      ("최대 depth(".toList ++ ofNat maxDepth ++ ")를 초과했습니다 (요청 depth=".toList
        ++ ofNat depth ++ ")".toList))
  else
    match resolvePath d root path with
    | .error (.faultError text) => .ok (failed text text)
    | .error (.lookupError text) => .ok (failed text text)
    | .error e => .error e
    | .ok obj => do
        let node ← describe d name obj
        let children ←
          if node.expandable ∧ depth < maxDepth then
            onFault (childObjects d obj >>= describeChildren d) fun _ => []
          else pure []
        pure { node := node, children := children, depth := depth, error := none }

end

end Telemetryd
