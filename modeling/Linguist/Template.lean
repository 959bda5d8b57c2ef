import Linguist.Sequence
import Linguist.Text.Numeral

/-!
# Texts with markers

A text may ask for arguments by markers: a percent sign, perhaps an `L`, and a
number from 1 to 99 of one or two digits.  Nothing escapes a percent sign; one that
begins no marker is a character like any other.

## Pieces

A text is read as the list of its pieces, which are characters and markers.  The
pieces put together are the text again, so that filling a marker in is replacing a
piece.

## Filling in

An argument goes to the marker with the lowest number, at every place where it
stands, and the result is a text with markers again.  Several arguments are filled
in one after the other; what one of them brought in is searched for the next.
-/

namespace Linguist
namespace Template

/-- A marker: whether it asks for the local form of its argument, and its
digits. -/
structure Marker where
  localized : Bool
  digits : List Char
  deriving DecidableEq, Repr

/-- A piece of a text. -/
inductive Piece where
  | char (c : Char)
  | marker (m : Marker)
  deriving DecidableEq, Repr

namespace Marker

/-- The number of a marker. -/
def number (m : Marker) : Nat :=
  (Text.readDigits 10 0 m.digits).getD 0

/-- The text of a marker. -/
def text (m : Marker) : List Char :=
  '%' :: (if m.localized then ['L'] else []) ++ m.digits

end Marker

/-- The text of a piece. -/
def Piece.text : Piece → List Char
  | .char c => [c]
  | .marker m => m.text

/-- The number of a piece that is a marker. -/
def Piece.number? : Piece → Option Nat
  | .char _ => none
  | .marker m => some m.number

/-- Reads the digits of a marker. -/
def readNumber? (localized : Bool) (cs : List Char) : Option (Marker × List Char) :=
  let digits := (cs.take 2).takeWhile Char.isDigit
  let m : Marker := ⟨localized, digits⟩
  if m.number = 0 then none else some (m, cs.drop digits.length)

/-- Reads what follows the percent sign of a marker. -/
def readMarker? : List Char → Option (Marker × List Char)
  | 'L' :: rest => readNumber? true rest
  | cs => readNumber? false cs

theorem length_of_readNumber? {localized : Bool} {cs rest : List Char} {m : Marker}
    (h : readNumber? localized cs = some (m, rest)) : rest.length ≤ cs.length := by
  unfold readNumber? at h
  simp only at h
  split at h
  · simp at h
  · cases h
    rw [List.length_drop]
    omega

/-- What is left after a marker is not longer. -/
theorem length_of_readMarker? {cs rest : List Char} {m : Marker}
    (h : readMarker? cs = some (m, rest)) : rest.length ≤ cs.length := by
  unfold readMarker? at h
  split at h
  · exact Nat.le_succ_of_le (length_of_readNumber? h)
  · exact length_of_readNumber? h

/-- The pieces of a text. -/
def pieces (cs : List Char) : List Piece :=
  match cs with
  | [] => []
  | c :: rest =>
    if c = '%' then
      match h : readMarker? rest with
      | some (m, more) =>
        have : more.length < (c :: rest).length := Nat.lt_succ_of_le (length_of_readMarker? h)
        .marker m :: pieces more
      | none => .char c :: pieces rest
    else .char c :: pieces rest
termination_by cs.length
decreasing_by all_goals simp only [List.length_cons] at *; omega

/-- The text of a list of pieces. -/
def render (ps : List Piece) : List Char :=
  ps.flatMap Piece.text

/-- A marker where it stands in a text, in bytes of UTF-8. -/
structure Occurrence where
  start : Nat
  stop : Nat
  number : Nat
  localized : Bool
  deriving DecidableEq, Repr

/-- The number of bytes of a list of characters. -/
def byteLength (cs : List Char) : Nat :=
  Sequence.total Char.utf8Size cs

/-- The markers among the pieces that start at an offset. -/
def occurrencesFrom (start : Nat) : List Piece → List Occurrence
  | [] => []
  | .char c :: rest => occurrencesFrom (start + c.utf8Size) rest
  | .marker m :: rest =>
    let stop := start + byteLength m.text
    ⟨start, stop, m.number, m.localized⟩ :: occurrencesFrom stop rest

/-- The markers of a text, in order. -/
def occurrences (s : String) : List Occurrence :=
  occurrencesFrom 0 (pieces s.toList)

/-- The numbers of the markers of a text, in order. -/
def numbers (s : String) : List Nat :=
  (pieces s.toList).filterMap Piece.number?

/-- The distinct numbers of the markers of a text, rising. -/
def numberSet (s : String) : List Nat :=
  ((numbers s).mergeSort).eraseReps

/-- The piece with an argument in the place of a marker with the given number. -/
def fillPiece (number : Nat) (value : List Char) (p : Piece) : List Char :=
  if p.number? = some number then value else p.text

/-- The text with an argument filled in. -/
def fill (template value : String) : String :=
  let ps := pieces template.toList
  match (ps.filterMap Piece.number?).min? with
  | none => template
  | some lowest => String.ofList (ps.flatMap (fillPiece lowest value.toList))

/-- The text with arguments filled in, one after the other. -/
def fillAll (template : String) (values : List String) : String :=
  values.foldl fill template

/-! ## Counts -/

/-- The text with every occurrence of a non-empty pattern replaced, from left to
right. -/
def replaceAll (pattern value : List Char) (cs : List Char) : List Char :=
  match cs with
  | [] => []
  | c :: rest =>
    if pattern.isPrefixOf (c :: rest) then
      value ++ replaceAll pattern value (rest.drop (pattern.length - 1))
    else c :: replaceAll pattern value rest
termination_by cs.length
decreasing_by
  · simp only [List.length_drop, List.length_cons]
    omega
  · simp

/-- The text with a count filled in for its two count markers. -/
def fillCount (s : String) (n : Int) : String :=
  let count := Text.decimalInt n
  String.ofList (replaceAll ['%', 'n'] count (replaceAll ['%', 'L', 'n'] count s.toList))

end Template
end Linguist
