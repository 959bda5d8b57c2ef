import Linguist.Text.Quoted

/-!
# Texts cut to a width

A text that is too wide for its place in a report is cut, and three dots are put behind
what is kept of it.  Whether it is too wide is asked of the text as a whole; where it is
cut is found by adding up the widths of its characters.

How many columns characters and texts take is up to the terminal, and is not said here:
the two are counted by a `Measure` that is given.  They are counted apart, since what is
drawn of a text need not be what is drawn of its characters.
-/

namespace Linguist
namespace Text

/-- How many columns characters and texts take on a terminal.  A character may have no
width at all. -/
class Measure where
  charWidth? : Char → Option Nat
  width : List Char → Nat

variable [Measure]

/-- The columns of a character on its own, none if it has no width. -/
def Measure.charWidth (c : Char) : Nat :=
  (charWidth? c).getD 0

/-- The longest beginning of a text whose characters take no more columns than there is
room, each counted on its own. -/
def clip (room : Nat) : List Char → List Char
  | [] => []
  | c :: rest =>
    if room < Measure.charWidth c then [] else c :: clip (room - Measure.charWidth c) rest

/-- What stands behind a text that was cut. -/
def dots : List Char := ['.', '.', '.']

/-- The text on one line and in at most so many columns; what is too long is cut and ends
in dots. -/
def shortened (columns : Nat) (s : String) : String :=
  let line := (onOneLine s).toList
  if Measure.width line ≤ columns then String.ofList line
  else String.ofList (clip (columns - 3) line ++ dots)

end Text
end Linguist
