import Linguist.Bytes.Charset
import Linguist.Fault
import Linguist.Text.Blank

/-!
# The character set of a markup file

A file of markup says itself how its bytes are to be read.  A byte order mark at
its beginning decides; otherwise the `encoding` that the declaration in the first
line assigns; otherwise the file is UTF-8.  The sets that may be assigned are those of
`Bytes.Charset` and of the registry that the reader works with.

## Finding the assignment

The declaration is looked for in the bytes up to the first `?>`, read leniently,
since the assignment is made of ASCII characters whatever the rest is.  It has to
open the file, and the assignment that counts is the last one before any closing
bracket.
-/

namespace Linguist
namespace Markup

/-- The bytes up to and with the first `?>`, none if there is no such mark. -/
def declarationBytes : List UInt8 → Option (List UInt8)
  | [] => none
  | 0x3F :: 0x3E :: _ => some [0x3F, 0x3E]
  | b :: rest => (declarationBytes rest).map (b :: ·)

/-- Whether a character may stand in the label of a character set. -/
def isLabelChar (c : Char) : Bool :=
  c.isAlphanum || c == '.' || c == '_' || c == ':' || c == '-'

/-- The text after a given beginning, if it has this beginning. -/
def dropBeginning? (beginning cs : List Char) : Option (List Char) :=
  if beginning.isPrefixOf cs then some (cs.drop beginning.length) else none

/-- Reads a quote, either one. -/
def readQuote? : List Char → Option (List Char)
  | '"' :: rest => some rest
  | '\'' :: rest => some rest
  | _ => none

/-- The label that is assigned at the beginning of the text. -/
def labelHere? (cs : List Char) : Option (List Char) := do
  let rest ← dropBeginning? "encoding".toList cs
  let rest ← dropBeginning? ['='] (rest.dropWhile Text.isBlank)
  let rest ← readQuote? (rest.dropWhile Text.isBlank)
  let label := rest.takeWhile isLabelChar
  let _ ← readQuote? (rest.dropWhile isLabelChar)
  if label.isEmpty then none else some label

/-- The labels assigned anywhere in the text, in order. -/
def labels : List Char → List (List Char)
  | [] => []
  | c :: rest => (labelHere? (c :: rest)).toList ++ labels rest

/-- The label that the declaration at the beginning of a file assigns. -/
def declaredLabel? (bytes : List UInt8) : Option (List Char) := do
  let head ← declarationBytes bytes
  let rest ← dropBeginning? "<?xml".toList (Bytes.Utf8.decodeLenient head)
  (labels (rest.takeWhile (· != '>'))).getLast?

/-- The characters of bytes in an encoding. -/
def decodeAs (encoding : Bytes.Encoding) (bytes : List UInt8) : Except Fault (List Char) :=
  match encoding.decode? bytes with
  | some cs => .ok cs
  | none => .error (.unsupportedCharset ("input is not valid " ++ encoding.name))

variable [Bytes.Registry]

/-- The encoding of a file without byte order mark. -/
def declaredEncoding (bytes : List UInt8) : Except Fault Bytes.Encoding :=
  match declaredLabel? bytes with
  | none => .ok Bytes.Charset.utf8.encoding
  | some label =>
    match Bytes.Encoding.ofLabel? label with
    | some encoding => .ok encoding
    | none => .error (.unsupportedCharset (String.ofList label))

/-- The characters of a file of markup. -/
def decodeFile (bytes : List UInt8) : Except Fault (List Char) :=
  match Bytes.Charset.ofMark? bytes with
  | some (charset, body) => decodeAs charset.encoding body
  | none => (declaredEncoding bytes).bind fun encoding => decodeAs encoding bytes

end Markup
end Linguist
