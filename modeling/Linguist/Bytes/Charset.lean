import Linguist.Bytes.Utf8

/-!
# Character sets

A catalogue file may name the character set of its bytes.  The sets known here
are UTF-8, the two byte orders of UTF-16, three sets of one byte per character,
and two placeholders of the registry of labels: one that maps the upper half to
private characters, and one that stands for sets no reader should decode.

## Failure

A byte sequence either is a text of its set or is not; there are no replacement
characters here.  The sets of one byte per character have a character for every
byte and never fail.

## Further sets

The registry of labels names some thirty sets more, several of them with tables of
thousands of characters.  What bytes are in those is not said here: a reader is given
a `Registry` that knows them.  Nothing is asked of it, so that what is proved of a
reader holds with whatever registry it works.
-/

namespace Linguist
namespace Bytes

/-- A way of writing characters as bytes. -/
inductive Charset where
  | utf8
  | utf16le
  | utf16be
  | windows1251
  | windows1252
  | iso8859x15
  | userDefined
  | replacement
  deriving DecidableEq, Repr

namespace Charset

/-- The name used in reports. -/
def name : Charset → String
  | utf8 => "UTF-8"
  | utf16le => "UTF-16LE"
  | utf16be => "UTF-16BE"
  | windows1251 => "windows-1251"
  | windows1252 => "windows-1252"
  | iso8859x15 => "ISO-8859-15"
  | userDefined => "x-user-defined"
  | replacement => "replacement"

/-- The labels under which each set is known, in small letters. -/
def labels : Charset → List String
  | utf8 =>
    ["unicode-1-1-utf-8", "unicode11utf8", "unicode20utf8", "utf-8", "utf8", "x-unicode20utf8"]
  | utf16le =>
    ["csunicode", "iso-10646-ucs-2", "ucs-2", "unicode", "unicodefeff", "utf-16", "utf-16le"]
  | utf16be => ["unicodefffe", "utf-16be"]
  | windows1251 => ["cp1251", "windows-1251", "x-cp1251"]
  | windows1252 =>
    ["ansi_x3.4-1968", "ascii", "cp1252", "cp819", "csisolatin1", "ibm819", "iso-8859-1",
      "iso-ir-100", "iso8859-1", "iso88591", "iso_8859-1", "iso_8859-1:1987", "l1", "latin1",
      "us-ascii", "windows-1252", "x-cp1252"]
  | iso8859x15 =>
    ["csisolatin9", "iso-8859-15", "iso8859-15", "iso885915", "iso_8859-15", "l9"]
  | userDefined => ["x-user-defined"]
  | replacement =>
    ["csiso2022kr", "hz-gb-2312", "iso-2022-cn", "iso-2022-cn-ext", "iso-2022-kr", "replacement"]

/-- All sets. -/
def all : List Charset :=
  [utf8, utf16le, utf16be, windows1251, windows1252, iso8859x15, userDefined, replacement]

/-- The set that a label names; the case of its letters does not matter. -/
def ofLabel? (label : List Char) : Option Charset :=
  let small := String.ofList (label.map Char.toLower)
  all.find? fun charset => charset.labels.contains small

/-! ## Sets of one byte per character -/

/-- The codes of the bytes from 0x80 to 0x9F in windows-1252. -/
def windows1252Upper : List Nat := [
  0x20AC, 0x0081, 0x201A, 0x0192, 0x201E, 0x2026, 0x2020, 0x2021, 0x02C6, 0x2030, 0x0160, 0x2039,
  0x0152, 0x008D, 0x017D, 0x008F, 0x0090, 0x2018, 0x2019, 0x201C, 0x201D, 0x2022, 0x2013, 0x2014,
  0x02DC, 0x2122, 0x0161, 0x203A, 0x0153, 0x009D, 0x017E, 0x0178]

/-- The codes of the bytes from 0x80 on in windows-1251. -/
def windows1251Upper : List Nat := [
  0x0402, 0x0403, 0x201A, 0x0453, 0x201E, 0x2026, 0x2020, 0x2021, 0x20AC, 0x2030, 0x0409, 0x2039,
  0x040A, 0x040C, 0x040B, 0x040F, 0x0452, 0x2018, 0x2019, 0x201C, 0x201D, 0x2022, 0x2013, 0x2014,
  0x0098, 0x2122, 0x0459, 0x203A, 0x045A, 0x045C, 0x045B, 0x045F, 0x00A0, 0x040E, 0x045E, 0x0408,
  0x00A4, 0x0490, 0x00A6, 0x00A7, 0x0401, 0x00A9, 0x0404, 0x00AB, 0x00AC, 0x00AD, 0x00AE, 0x0407,
  0x00B0, 0x00B1, 0x0406, 0x0456, 0x0491, 0x00B5, 0x00B6, 0x00B7, 0x0451, 0x2116, 0x0454, 0x00BB,
  0x0458, 0x0405, 0x0455, 0x0457, 0x0410, 0x0411, 0x0412, 0x0413, 0x0414, 0x0415, 0x0416, 0x0417,
  0x0418, 0x0419, 0x041A, 0x041B, 0x041C, 0x041D, 0x041E, 0x041F, 0x0420, 0x0421, 0x0422, 0x0423,
  0x0424, 0x0425, 0x0426, 0x0427, 0x0428, 0x0429, 0x042A, 0x042B, 0x042C, 0x042D, 0x042E, 0x042F,
  0x0430, 0x0431, 0x0432, 0x0433, 0x0434, 0x0435, 0x0436, 0x0437, 0x0438, 0x0439, 0x043A, 0x043B,
  0x043C, 0x043D, 0x043E, 0x043F, 0x0440, 0x0441, 0x0442, 0x0443, 0x0444, 0x0445, 0x0446, 0x0447,
  0x0448, 0x0449, 0x044A, 0x044B, 0x044C, 0x044D, 0x044E, 0x044F]

/-- The places at which ISO-8859-15 differs from the first 256 codes. -/
def iso8859x15Changes : List (Nat × Nat) :=
  [(0xA4, 0x20AC), (0xA6, 0x0160), (0xA8, 0x0161), (0xB4, 0x017D), (0xB8, 0x017E),
    (0xBC, 0x0152), (0xBD, 0x0153), (0xBE, 0x0178)]

/-- The code of a byte in windows-1252. -/
def windows1252Code (n : Nat) : Nat :=
  if 0x80 ≤ n ∧ n < 0xA0 then (windows1252Upper[n - 0x80]?).getD n else n

/-- The code of a byte in windows-1251. -/
def windows1251Code (n : Nat) : Nat :=
  if 0x80 ≤ n then (windows1251Upper[n - 0x80]?).getD n else n

/-- The code of a byte in ISO-8859-15. -/
def iso8859x15Code (n : Nat) : Nat :=
  (iso8859x15Changes.lookup n).getD n

/-- The code of a byte in the set whose upper half is private. -/
def userDefinedCode (n : Nat) : Nat :=
  if 0x80 ≤ n then 0xF780 + (n - 0x80) else n

/-- The characters of bytes that stand for one character each. -/
def decodeSingle (code : Nat → Nat) (bytes : List UInt8) : List Char :=
  bytes.map fun b => Char.ofNat (code b.toNat)

/-! ## UTF-16 -/

/-- The code units of a byte sequence of even length. -/
def units? (bigEndian : Bool) : List UInt8 → Option (List Nat)
  | [] => some []
  | [_] => none
  | a :: b :: rest =>
    let unit := if bigEndian then a.toNat * 256 + b.toNat else b.toNat * 256 + a.toNat
    (units? bigEndian rest).map (unit :: ·)

/-- The characters of a sequence of code units in which surrogates come in
pairs. -/
def ofUnits? : List Nat → Option (List Char)
  | [] => some []
  | u :: rest =>
    if u < 0xD800 ∨ 0xE000 ≤ u then (ofUnits? rest).map (Char.ofNat u :: ·)
    else if u < 0xDC00 then
      match rest with
      | v :: rest =>
        if 0xDC00 ≤ v ∧ v < 0xE000 then
          (ofUnits? rest).map
            (Char.ofNat (0x10000 + (u - 0xD800) * 0x400 + (v - 0xDC00)) :: ·)
        else none
      | [] => none
    else none

/-! ## Reading -/

/-- The characters of a byte sequence in the given set. -/
def decode? : Charset → List UInt8 → Option (List Char)
  | utf8, bytes => Utf8.decode? bytes
  | utf16le, bytes => (units? false bytes).bind ofUnits?
  | utf16be, bytes => (units? true bytes).bind ofUnits?
  | windows1251, bytes => some (decodeSingle windows1251Code bytes)
  | windows1252, bytes => some (decodeSingle windows1252Code bytes)
  | iso8859x15, bytes => some (decodeSingle iso8859x15Code bytes)
  | userDefined, bytes => some (decodeSingle userDefinedCode bytes)
  | replacement, bytes => if bytes.isEmpty then some [] else none

/-- The set announced by a byte order mark, and the bytes after the mark. -/
def ofMark? : List UInt8 → Option (Charset × List UInt8)
  | 0xEF :: 0xBB :: 0xBF :: rest => some (utf8, rest)
  | 0xFE :: 0xFF :: rest => some (utf16be, rest)
  | 0xFF :: 0xFE :: rest => some (utf16le, rest)
  | _ => none

end Charset

/-! ## Labels -/

/-- A character set as a reader sees it: what it is called in reports, and the
characters of the bytes that are a text in it. -/
structure Encoding where
  name : String
  decode? : List UInt8 → Option (List Char)

/-- A set with its reader. -/
def Charset.encoding (charset : Charset) : Encoding :=
  ⟨charset.name, charset.decode?⟩

/-- The further sets that a reader knows, by their labels. -/
class Registry where
  find? : List Char → Option Encoding

/-- The encoding that a label names. -/
def Encoding.ofLabel? [Registry] (label : List Char) : Option Encoding :=
  ((Charset.ofLabel? label).map Charset.encoding).or (Registry.find? label)

/-- The code of a byte in ISO-8859-5, where the letters of Cyrillic stand in the order of
their codes. -/
def iso8859x5Code (n : Nat) : Nat :=
  if n ≤ 0xA0 ∨ n = 0xAD then n
  else if n = 0xF0 then 0x2116
  else if n = 0xFD then 0xA7
  else n + 0x360

/-- The encoding ISO-8859-5. -/
def iso8859x5 : Encoding where
  name := "ISO-8859-5"
  decode? bytes := some (Charset.decodeSingle iso8859x5Code bytes)

/-- The labels of ISO-8859-5, in small letters. -/
def iso8859x5Labels : List String :=
  ["csisolatincyrillic", "cyrillic", "iso-8859-5", "iso-ir-144", "iso8859-5", "iso88595",
    "iso_8859-5", "iso_8859-5:1988"]

/-- The registry where no other is given.  It has one set. -/
instance (priority := low) registry : Registry where
  find? label :=
    if iso8859x5Labels.contains (String.ofList (label.map Char.toLower)) then some iso8859x5
    else none

end Bytes
end Linguist
