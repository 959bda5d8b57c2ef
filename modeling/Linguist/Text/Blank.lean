/-!
# Blank characters

The formats of this library disagree on what counts as blank.  Attribute names
and tags end only at the four blanks of markup; a status, a label or a line
comment is trimmed of every character with the Unicode property `White_Space`.
Both classes are here, next to the trimming that uses the larger one.

## Why a table

The property is a finite set of twenty-five characters, fixed by the stability
policy of the standard, so it is written out.
-/

namespace Linguist
namespace Text

/-- Whether the character has the Unicode property `White_Space`. -/
def isBlank (c : Char) : Bool :=
  let n := c.toNat
  (9 ≤ n && n ≤ 13) || n == 0x20 || n == 0x85 || n == 0xA0 || n == 0x1680 ||
    (0x2000 ≤ n && n ≤ 0x200A) || n == 0x2028 || n == 0x2029 || n == 0x202F ||
    n == 0x205F || n == 0x3000

/-- Whether the character separates the parts of a tag: blank, tab, line feed or
carriage return. -/
def isMarkupBlank (c : Char) : Bool :=
  c == ' ' || c == '\t' || c == '\n' || c == '\r'

/-- The list without its leading blanks. -/
def trimStart (cs : List Char) : List Char :=
  cs.dropWhile isBlank

/-- The list without its trailing blanks. -/
def trimEnd (cs : List Char) : List Char :=
  (trimStart cs.reverse).reverse

/-- The list without its leading and trailing blanks. -/
def trim (cs : List Char) : List Char :=
  trimEnd (trimStart cs)

/-- The text without its leading and trailing blanks. -/
def trimmed (s : String) : String :=
  String.ofList (trim s.toList)

/-- Whether nothing but blanks is in the text. -/
def isAllBlank (s : String) : Bool :=
  s.toList.all isBlank

/-- The text with the letters `A` to `Z` made small; all others stay. -/
def lowered (s : String) : String :=
  String.ofList (s.toList.map Char.toLower)

/-- A keyword as it is compared: trimmed, and small letters only. -/
def keyword (s : String) : String :=
  lowered (trimmed s)

end Text
end Linguist
