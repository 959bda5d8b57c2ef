import Linguist.Json.Value

/-!
# Writing JSON

There are two layouts.  The compact one has no blanks at all and serves where a
value is part of a larger text.  The wide one puts every item and member on a line
of its own, indented by two blanks a level; an empty array or object stays closed
up.  Both write a string the same way: only the quote, the backslash and control
characters are escaped.
-/

namespace Linguist
namespace Json

/-- How a character is written in a string. -/
def escapeChar (c : Char) : List Char :=
  if c == '"' then ['\\', '"']
  else if c == '\\' then ['\\', '\\']
  else if c == '\x08' then ['\\', 'b']
  else if c == '\x0c' then ['\\', 'f']
  else if c == '\n' then ['\\', 'n']
  else if c == '\r' then ['\\', 'r']
  else if c == '\t' then ['\\', 't']
  else if c.toNat < 0x20 then
    ['\\', 'u', '0', '0', Nat.digitChar (c.toNat / 16), Nat.digitChar (c.toNat % 16)]
  else [c]

/-- A text between quotes. -/
def renderText (s : String) : List Char :=
  '"' :: s.toList.flatMap escapeChar ++ ['"']

mutual

/-- The compact layout of a value. -/
def compact : Json → List Char
  | .null => "null".toList
  | .garbled => "null".toList
  | .bool b => if b then "true".toList else "false".toList
  | .number literal => literal.toList
  | .string s => renderText s
  | .array [] => "[]".toList
  | .array (j :: rest) => '[' :: j.compact ++ compactItems rest
  | .object [] => "{}".toList
  | .object ((k, j) :: rest) => '\x7b' :: renderText k ++ ':' :: j.compact ++ compactMembers rest

/-- The items after the first, and the end of the array. -/
def compactItems : List Json → List Char
  | [] => [']']
  | j :: rest => ',' :: j.compact ++ compactItems rest

/-- The members after the first, and the end of the object. -/
def compactMembers : List (String × Json) → List Char
  | [] => ['\x7d']
  | (k, j) :: rest => ',' :: renderText k ++ ':' :: j.compact ++ compactMembers rest

end

/-- A line break and the indentation of a level. -/
def lineBreak (level : Nat) : List Char :=
  '\n' :: List.replicate (2 * level) ' '

mutual

/-- The wide layout of a value at a level. -/
def wide (level : Nat) : Json → List Char
  | .null => "null".toList
  | .garbled => "null".toList
  | .bool b => if b then "true".toList else "false".toList
  | .number literal => literal.toList
  | .string s => renderText s
  | .array [] => "[]".toList
  | .array (j :: rest) =>
    '[' :: lineBreak (level + 1) ++ wide (level + 1) j ++ wideItems level rest
  | .object [] => "{}".toList
  | .object ((k, j) :: rest) =>
    '\x7b' :: lineBreak (level + 1) ++ renderText k ++ ':' :: ' ' :: wide (level + 1) j ++
      wideMembers level rest

/-- The items after the first, and the end of the array. -/
def wideItems (level : Nat) : List Json → List Char
  | [] => lineBreak level ++ [']']
  | j :: rest => ',' :: lineBreak (level + 1) ++ wide (level + 1) j ++ wideItems level rest

/-- The members after the first, and the end of the object. -/
def wideMembers (level : Nat) : List (String × Json) → List Char
  | [] => lineBreak level ++ ['\x7d']
  | (k, j) :: rest =>
    ',' :: lineBreak (level + 1) ++ renderText k ++ ':' :: ' ' :: wide (level + 1) j ++
      wideMembers level rest

end

/-- The value as a text without blanks. -/
def compactText (j : Json) : String :=
  String.ofList j.compact

/-- The value as a text with a line for every item. -/
def wideText (j : Json) : String :=
  String.ofList (wide 0 j)

end Json
end Linguist
