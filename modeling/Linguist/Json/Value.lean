import Linguist.Text.Numeral

/-!
# JSON values

JSON is the debugging form of a catalogue and the form of several reports.  A
number keeps its written form, because only whole numbers are ever asked for and
`1.0` is not one.  Members of an object keep their order and may repeat.

## Garbled values

A string may be written correctly and still denote no text: half of a surrogate
pair, or bytes that are not UTF-8.  Readers pass over members they do not know, so
such a string is no fault of the file.  It becomes the value `garbled`, as does an
object with such a key, and no reader accepts that value for anything.

## Records

A record is written as an object or as the array of its fields in their order.
`Json.fields?` reads both: it lists, for each field, the value given for it.
-/

namespace Linguist

/-- A JSON value. -/
inductive Json where
  | null
  | bool (value : Bool)
  | number (literal : String)
  | string (text : String)
  | array (items : List Json)
  | object (members : List (String × Json))
  | garbled
  deriving Repr

namespace Json

/-- The whole number as a value. -/
def ofNat (n : Nat) : Json :=
  .number (String.ofList (Text.decimal n))

/-- The integer as a value. -/
def ofInt (i : Int) : Json :=
  .number (String.ofList (Text.decimalInt i))

/-- The list of texts as a value. -/
def ofTexts (texts : List String) : Json :=
  .array (texts.map .string)

/-- The text in a string. -/
def text? : Json → Option String
  | .string s => some s
  | _ => none

/-- The value of a Boolean. -/
def bool? : Json → Option Bool
  | .bool b => some b
  | _ => none

/-- The items of an array. -/
def items? : Json → Option (List Json)
  | .array items => some items
  | _ => none

/-- The texts in an array of strings. -/
def texts? (j : Json) : Option (List String) :=
  j.items?.bind (·.mapM text?)

/-- The whole number in a literal without fraction and exponent.  A negative zero
is not a whole number. -/
def integer? : Json → Option Int
  | .number literal =>
    match literal.toList with
    | '-' :: digits =>
      match Text.readNat? 10 digits with
      | some 0 => none
      | some n => some (-n)
      | none => none
    | digits => (Text.readNat? 10 digits).map Int.ofNat
  | _ => none

/-- The integer, if it is a number of 64 bits with sign. -/
def int64? (j : Json) : Option Int64 :=
  j.integer?.bind fun i => if Text.fitsInt64 i then some (Int64.ofInt i) else none

/-- The integer, if it is a number of 32 bits without sign. -/
def uint32? (j : Json) : Option UInt32 :=
  j.integer?.bind fun i =>
    if 0 ≤ i ∧ i.toNat < UInt32.size then some (UInt32.ofNat i.toNat) else none

/-! ## Records and choices -/

/-- The value given for a field, if any; a field may not be given twice. -/
def member? (members : List (String × Json)) (name : String) : Option (Option Json) :=
  match members.filter (·.1 == name) with
  | [] => some none
  | [(_, value)] => some (some value)
  | _ => none

/-- The values given for the fields of a record, in the order of the fields. -/
def fields? (names : List String) : Json → Option (List (Option Json))
  | .object members => names.mapM (member? members)
  | .array items =>
    if items.length ≤ names.length then
      some (items.map some ++ List.replicate (names.length - items.length) none)
    else none
  | _ => none

/-- The name of a choice and what comes with it: an object with one member, or a
string when nothing does. -/
def choice? : Json → Option (String × Option Json)
  | .string name => some (name, none)
  | .object [(name, value)] => some (name, some value)
  | _ => none

variable {α : Type}

/-- Reads a field that has to be given. -/
def required (read : Json → Option α) : Option Json → Option α
  | some value => read value
  | none => none

/-- Reads a field with a default. -/
def optional (default : α) (read : Json → Option α) : Option Json → Option α
  | some value => read value
  | none => some default

/-- Reads a field that may be absent or null. -/
def nullable (read : Json → Option α) : Option Json → Option (Option α)
  | some .null => some none
  | some value => (read value).map some
  | none => some none

/-- The member for a field that is written only when it has a value. -/
def memberOf (name : String) (write : α → Json) : Option α → List (String × Json)
  | some value => [(name, write value)]
  | none => []

end Json
end Linguist
