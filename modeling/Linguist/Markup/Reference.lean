import Linguist.Text.Numeral

/-!
# References

Some characters cannot stand for themselves in markup and are written as a
reference, an ampersand and a semicolon around a name or a code.  Reading knows
the five named characters and all codes; writing uses the names for the five and,
in the content of elements, codes for the control characters that are not blank.

## A pending reference

Reading goes through the text once.  After an ampersand it collects the body of
the reference until the semicolon; a second ampersand, or the end of the text, in
between makes the whole text unreadable.  A semicolon elsewhere is a character.
-/

namespace Linguist
namespace Markup

/-- The name of a character that has one. -/
def entity? : Char → Option String
  | '<' => some "lt"
  | '>' => some "gt"
  | '&' => some "amp"
  | '\'' => some "apos"
  | '"' => some "quot"
  | _ => none

/-- The character that a code in the given base denotes; the code has no sign and
is not zero. -/
def charOfReference? (base : Nat) (digits : List Char) : Option Char :=
  match Text.readNat? base digits with
  | some 0 => none
  | some n => Text.charOfCode? n
  | none => none

/-- The character that the body of a reference denotes. -/
def resolve? : List Char → Option Char
  | ['l', 't'] => some '<'
  | ['g', 't'] => some '>'
  | ['a', 'm', 'p'] => some '&'
  | ['a', 'p', 'o', 's'] => some '\''
  | ['q', 'u', 'o', 't'] => some '"'
  | '#' :: 'x' :: digits => charOfReference? 16 digits
  | '#' :: digits => charOfReference? 10 digits
  | _ => none

/-- Reads text with references; the first argument is the body of an unfinished
reference, last character first. -/
def unescapeFrom? : Option (List Char) → List Char → Option (List Char)
  | none, [] => some []
  | some _, [] => none
  | none, c :: rest =>
    if c = '&' then unescapeFrom? (some []) rest
    else (unescapeFrom? none rest).map (c :: ·)
  | some body, c :: rest =>
    if c = '&' then none
    else if c = ';' then
      (resolve? body.reverse).bind fun d => (unescapeFrom? none rest).map (d :: ·)
    else unescapeFrom? (some (c :: body)) rest

/-- The text that a text with references denotes. -/
def unescape? (raw : List Char) : Option (List Char) :=
  unescapeFrom? none raw

/-- How a character is written in the value of an attribute. -/
def escapeChar (c : Char) : List Char :=
  match entity? c with
  | some name => '&' :: name.toList ++ [';']
  | none => [c]

/-- How a character is written in the content of an element. -/
def protectChar (c : Char) : List Char :=
  if c.toNat < 0x20 && !(c == '\r' || c == '\n' || c == '\t') then
    ['&', '#', 'x'] ++ Text.hexadecimal c.toNat ++ [';']
  else escapeChar c

/-- A text as the value of an attribute. -/
def escape (cs : List Char) : List Char :=
  cs.flatMap escapeChar

/-- A text as the content of an element. -/
def protect (cs : List Char) : List Char :=
  cs.flatMap protectChar

end Markup
end Linguist
