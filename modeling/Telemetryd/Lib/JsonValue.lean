import Mathlib.Data.Rat.Defs
import Telemetryd.Lib.PyText

/-!
# JSON documents as Python reads them

The values `json.load` returns, with what Python does to any value: its truth,
its key in a dictionary, its negation and what a `for` statement goes through.

The texts of a document are longer than those of the rest of the system, since
an escape may stand for half of a surrogate pair; a file in UTF-8 does not take
such a text back.
-/

/-- A code point of a Python string: a character, or a surrogate on its own. -/
inductive JsonUnit where
  | char (c : Char)
  | surrogate (n : Fin 2048)
  deriving DecidableEq

/-- A string of JSON, of code units. -/
abbrev JsonText := List JsonUnit

namespace JsonText

/-- A text as a string of JSON. -/
def ofText (t : PyText) : JsonText := t.map JsonUnit.char

/-- The character of a unit, if it is one. -/
def charOf? : JsonUnit → Option Char
  | .char c => some c
  | .surrogate _ => none

/-- The characters of a text that has no surrogates. -/
def toText? (t : JsonText) : Option PyText := t.mapM charOf?

/-- Whether UTF-8 has the text. -/
def encodes (t : JsonText) : Bool := t.all (fun u => (charOf? u).isSome)

/-- The string of a text is read as the text. -/
@[simp] theorem toText?_ofText (t : PyText) : toText? (ofText t) = some t := by
  unfold toText? ofText
  induction t with
  | nil => rfl
  | cons c t ih => simp [List.mapM_cons, charOf?, ih]

/-- Different texts are different strings. -/
theorem ofText_injective : Function.Injective ofText := by
  intro s t h
  have htext := congrArg toText? h
  rw [toText?_ofText, toText?_ofText] at htext
  exact Option.some.inj htext

/-- Only a text without surrogates has characters. -/
theorem toText?_eq_some_iff {t : JsonText} {u : PyText} :
    toText? t = some u ↔ t = ofText u := by
  refine ⟨fun h => ?_, fun h => h ▸ toText?_ofText u⟩
  induction t generalizing u with
  | nil =>
      obtain rfl := Option.some.inj h
      rfl
  | cons unit t ih =>
      unfold toText? at h ih
      rw [List.mapM_cons] at h
      cases unit with
      | surrogate n => cases h
      | char c =>
          obtain ⟨first, hfirst, h⟩ := Option.bind_eq_some_iff.mp h
          obtain ⟨rest, hrest, h⟩ := Option.bind_eq_some_iff.mp h
          obtain rfl := Option.some.inj hfirst
          obtain rfl := Option.some.inj h
          rw [ih hrest]
          rfl

/-- A text has no lone surrogate, so it can be encoded. -/
@[simp] theorem encodes_ofText (t : PyText) : encodes (ofText t) = true := by
  simp [encodes, ofText, charOf?]

end JsonText

/-- A float; a numeral that is too large for one is infinite. -/
inductive JsonFloat where
  | finite (q : ℚ)
  | posInf
  | negInf
  | nan
  deriving DecidableEq

/-- A document. -/
inductive JsonValue where
  | null
  | bool (b : Bool)
  | int (i : Int)
  | float (f : JsonFloat)
  | str (t : JsonText)
  | arr (vs : List JsonValue)
  | obj (fields : List (JsonText × JsonValue))

namespace JsonValue

/-! ### What Python does to a value -/

/-- Equality and hash as a key: `1`, `1.0` and `True` are one key, and there is
one `NaN`. -/
inductive Key where
  | null
  | num (q : ℚ)
  | posInf
  | negInf
  | nan
  | text (t : JsonText)
  deriving DecidableEq

/-- The key that a float is in a dictionary. -/
def floatKey : JsonFloat → Key
  | .finite q => .num q
  | .posInf => .posInf
  | .negInf => .negInf
  | .nan => .nan

/-- The key of a value; a list or a dictionary has no hash. -/
def key? : JsonValue → Option Key
  | .null => some .null
  | .bool b => some (.num (if b then 1 else 0))
  | .int i => some (.num i)
  | .float f => some (floatKey f)
  | .str t => some (.text t)
  | .arr _ => none
  | .obj _ => none

/-- `bool(v)` -/
def truthy : JsonValue → Bool
  | .null => false
  | .bool b => b
  | .int i => decide (i ≠ 0)
  | .float f => decide (f ≠ .finite 0)
  | .str t => !t.isEmpty
  | .arr vs => !vs.isEmpty
  | .obj fields => !fields.isEmpty

/-- `-v`, for what is a number. -/
def neg? : JsonValue → Option JsonValue
  | .bool b => some (.int (if b then -1 else 0))
  | .int i => some (.int (-i))
  | .float (.finite q) => some (.float (.finite (-q)))
  | .float .posInf => some (.float .negInf)
  | .float .negInf => some (.float .posInf)
  | .float .nan => some (.float .nan)
  | _ => none

/-- What `for x in v` goes through: the elements of a list, the characters of a
text, the keys of a dictionary. -/
def elements? : JsonValue → Option (List JsonValue)
  | .arr vs => some vs
  | .str t => some (t.map (fun u => .str [u]))
  | .obj fields => some (fields.map (fun f => .str f.1))
  | _ => none

/-- The fields of a dictionary. -/
def fields? : JsonValue → Option (List (JsonText × JsonValue))
  | .obj fields => some fields
  | _ => none

/-- The string of a value, if it is one. -/
def str? : JsonValue → Option JsonText
  | .str t => some t
  | _ => none

/-- `str(v)` of a value whose text may be that of an integer.  The text of a
float has a point, an exponent or a word in it, and that of a list or a
dictionary a bracket. -/
def plainText? : JsonValue → Option JsonText
  | .null => some (JsonText.ofText "None".toList)
  | .bool true => some (JsonText.ofText "True".toList)
  | .bool false => some (JsonText.ofText "False".toList)
  | .int i => some (JsonText.ofText (PyText.ofInt i))
  | .str t => some t
  | _ => none

/-! ### What a file takes back -/

mutual

/-- How deep lists and dictionaries are nested. -/
def depth : JsonValue → Nat
  | .arr vs => depthAll vs + 1
  | .obj fields => depthFields fields + 1
  | _ => 0

/-- The depth of the deepest of some values. -/
def depthAll : List JsonValue → Nat
  | [] => 0
  | v :: vs => max v.depth (depthAll vs)

/-- The depth of the deepest of some fields. -/
def depthFields : List (JsonText × JsonValue) → Nat
  | [] => 0
  | (_, v) :: fields => max v.depth (depthFields fields)

end

mutual

/-- Whether a file in UTF-8 takes all texts of a value. -/
def encodes : JsonValue → Bool
  | .str t => JsonText.encodes t
  | .arr vs => encodesAll vs
  | .obj fields => encodesFields fields
  | _ => true

/-- All of some values can be encoded. -/
def encodesAll : List JsonValue → Bool
  | [] => true
  | v :: vs => v.encodes && encodesAll vs

/-- The keys and the values of some fields can be encoded. -/
def encodesFields : List (JsonText × JsonValue) → Bool
  | [] => true
  | (k, v) :: fields => JsonText.encodes k && v.encodes && encodesFields fields

end

/-- A text of the system. -/
def ofText (t : PyText) : JsonValue := .str (JsonText.ofText t)

/-- A list of texts as an array of strings. -/
def ofTexts (ts : List PyText) : JsonValue := .arr (ts.map ofText)

/-- A string has no depth. -/
@[simp] theorem depth_ofText (t : PyText) :
    (ofText t).depth = 0 := by simp [ofText, depth]

/-- A text has no lone surrogate, so it can be encoded. -/
@[simp] theorem encodes_ofText (t : PyText) : (ofText t).encodes = true := by
  simp [ofText, encodes]

/-- Nor has a number. -/
@[simp] theorem depth_int (i : Int) :
    (JsonValue.int i).depth = 0 := by simp [depth]

/-- A number can be encoded. -/
@[simp] theorem encodes_int (i : Int) :
    (JsonValue.int i).encodes = true := by simp [encodes]

/-- Nor has null. -/
@[simp] theorem depth_null : JsonValue.null.depth = 0 := by simp [depth]

/-- So can null. -/
@[simp] theorem encodes_null :
    JsonValue.null.encodes = true := by simp [encodes]

/-- An array of strings is one level deep at most. -/
theorem depth_ofTexts_le (ts : List PyText) : (ofTexts ts).depth ≤ 1 := by
  have hall : depthAll (ts.map ofText) = 0 := by
    induction ts with
    | nil => rfl
    | cons t ts ih => simp [depthAll, ih]
  simp [ofTexts, depth, hall]

/-- An array of texts can be encoded. -/
@[simp] theorem encodes_ofTexts (ts : List PyText) :
    (ofTexts ts).encodes = true := by
  have hall : encodesAll (ts.map ofText) = true := by
    induction ts with
    | nil => rfl
    | cons t ts ih => simp [encodesAll, ih]
  simp [ofTexts, encodes, hall]

end JsonValue
