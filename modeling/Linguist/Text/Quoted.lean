import Linguist.Text.Numeral
import Linguist.Text.Visible

/-!
# Texts quoted in reports

A report that names a source text writes it between double quotes on one line.
Line breaks, tabs, the quote and the backslash get their short escapes; any other
character that does not show on its own is written by its code.  The apostrophe
stays as it is.
-/

namespace Linguist
namespace Text

/-- How one character is written between the quotes. -/
def quotedChar (c : Char) : List Char :=
  if c == '\x00' then ['\\', '0']
  else if c == '\t' then ['\\', 't']
  else if c == '\r' then ['\\', 'r']
  else if c == '\n' then ['\\', 'n']
  else if c == '\\' then ['\\', '\\']
  else if c == '"' then ['\\', '"']
  else if isVisible c then [c]
  else ['\\', 'u', '\x7b'] ++ hexadecimal c.toNat ++ ['\x7d']

/-- The text between quotes, in a form that shows every character. -/
def quoted (s : String) : String :=
  String.ofList ('"' :: s.toList.flatMap quotedChar ++ ['"'])

/-- The text with each line feed written as a backslash and an `n`. -/
def onOneLine (s : String) : String :=
  String.ofList (s.toList.flatMap fun c => if c == '\n' then ['\\', 'n'] else [c])

end Text
end Linguist
