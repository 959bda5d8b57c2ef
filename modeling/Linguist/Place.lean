import Linguist.Fault
import Linguist.Text.Blank

/-!
# Places in the source code

A message lists the places where the code asks for it.  A place is a file and a
line, and both may be left to the reader: without a file it is in the file of the
place before it, and a relative line counts from the line before it in the same
file.  Line numbers have 32 bits and offsets 64, as in the file format.
-/

namespace Linguist

/-- The line of a place: counted from the start of the file, or from the place
before it. -/
inductive LineNumber where
  | absolute (line : UInt32)
  | relative (offset : Int64)
  deriving DecidableEq, Repr

/-- A place in the source code. -/
structure Place where
  file? : Option String
  line? : Option LineNumber
  deriving DecidableEq, Repr

namespace LineNumber

/-- The written form; a relative line always has a sign. -/
def text : LineNumber → String
  | absolute line => String.ofList (Text.decimal line.toNat)
  | relative offset =>
    String.ofList ((if 0 ≤ offset.toInt then ['+'] else []) ++ Text.decimalInt offset.toInt)

/-- Reads a line number; the sign decides whether it is relative. -/
def ofText? (s : String) : Except Fault LineNumber :=
  let cs := s.toList
  let number? := match cs with
    | '+' :: _ | '-' :: _ => (Text.readInt64? cs).map relative
    | _ => (Text.readUInt32? 10 cs).map absolute
  match number? with
  | some number => .ok number
  | none => .error (.invalid (.badLine s))

end LineNumber

namespace Place

/-- The place in a file at an absolute line. -/
def inFile (file : String) (line : UInt32) : Place :=
  ⟨some file, some (.absolute line)⟩

/-- The written form: file and line with a colon before the line. -/
def text : Place → String
  | ⟨some file, some line⟩ => file ++ ":" ++ line.text
  | ⟨some file, none⟩ => file
  | ⟨none, some line⟩ => ":" ++ line.text
  | ⟨none, none⟩ => ""

/-- How the places of a catalogue are written. -/
inductive Style where
  | relative
  | absolute
  | none
  deriving DecidableEq, Repr

/-- Reads the name of a style. -/
def Style.ofText? (s : String) : Except Fault Style :=
  match Text.keyword s with
  | "relative" => .ok .relative
  | "absolute" => .ok .absolute
  | "none" => .ok .none
  | other => .error (.invalid (.unknownPlaceStyle other))

/-- The name of a style. -/
def Style.text : Style → String
  | .relative => "relative"
  | .absolute => "absolute"
  | .none => "none"

end Place
end Linguist
