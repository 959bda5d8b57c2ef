import Linguist.Text.Numeral
import Linguist.Toml.Value

/-!
# Words of TOML

A value that is no string, array or inline table is one word: a Boolean, an
integer, a decimal number or a date.  No character of a word can follow a value
directly, so a word is taken as a whole and then recognised.  The one exception is
a date whose time is set off by a blank.

Numbers have to be in range: 64 bits with sign for integers, and for decimal
numbers nothing that would round to infinity.
-/

namespace Linguist
namespace Toml

/-- Whether a character can occur in a word. -/
def isWordChar (c : Char) : Bool :=
  c.isAlphanum || c == '+' || c == '-' || c == '_' || c == '.' || c == ':'

/-! ## Integers -/

/-- Whether the text is a run of digits; underscores may stand between digits. -/
def isDigits (base : Nat) (cs : List Char) : Bool :=
  (cs.splitOn '_').all fun run => !run.isEmpty && run.all fun c => (Text.digit? base c).isSome

/-- The text without underscores. -/
def unspaced (cs : List Char) : List Char :=
  cs.filter (· != '_')

/-- The text without its sign, if it has one. -/
def unsigned : List Char → List Char
  | '+' :: rest => rest
  | '-' :: rest => rest
  | cs => cs

/-- Whether the text is a decimal integer: a zero leads no other digit. -/
def isDecimal (cs : List Char) : Bool :=
  isDigits 10 (unsigned cs) && ((unsigned cs).head? != some '0' || unsigned cs == ['0'])

/-- Whether the text is an integer that fits into 64 bits. -/
def isInteger : List Char → Bool
  | '0' :: 'x' :: rest => isDigits 16 rest && fits 16 rest
  | '0' :: 'o' :: rest => isDigits 8 rest && fits 8 rest
  | '0' :: 'b' :: rest => isDigits 2 rest && fits 2 rest
  | cs => isDecimal cs && (Text.readInt64? (unspaced cs)).isSome
where
  /-- Whether the digits of a base denote a number that fits. -/
  fits (base : Nat) (cs : List Char) : Bool :=
    match Text.readNat? base (unspaced cs) with
    | some n => Text.fitsInt64 n
    | none => false

/-! ## Decimal numbers -/

/-- The exponent that follows its mark. -/
def exponent? (cs : List Char) : Option Int :=
  if isDigits 10 (unsigned cs) then
    (Text.readNat? 10 (unspaced (unsigned cs))).map fun n =>
      if cs.head? = some '-' then -(n : Int) else n
  else none

/-- The parts of a decimal number: what is before the point, the digits after it,
and the exponent.  At least one of point and exponent is there. -/
def decimalParts? (cs : List Char) : Option (List Char × List Char × Int) :=
  let isMark (c : Char) : Bool := c == 'e' || c == 'E'
  let whole := cs.takeWhile fun c => c != '.' && !isMark c
  match cs.drop whole.length with
  | '.' :: rest =>
    let fraction := rest.takeWhile fun c => !isMark c
    if isDigits 10 fraction then
      match rest.drop fraction.length with
      | _ :: digits => (exponent? digits).map (whole, fraction, ·)
      | [] => some (whole, fraction, 0)
    else none
  | _ :: digits => (exponent? digits).map (whole, [], ·)
  | [] => none

/-- The least number that rounds to infinity in binary floating point with 53 bits
of precision and 11 bits of exponent. -/
def overflow : Nat :=
  Nat.pow 2 1024 - Nat.pow 2 970

/-- Whether `digits * 10 ^ exponent` is so large that it rounds to infinity.  The
number of digits decides unless it is close. -/
def isTooLarge (digits : Nat) (exponent : Int) : Bool :=
  let size : Int := (Text.decimal digits).length + exponent
  digits != 0 && (310 < size ||
    (300 < size &&
      overflow * Nat.pow 10 (-exponent).toNat ≤ digits * Nat.pow 10 exponent.toNat))

/-- Whether the text is a decimal number in range.  A negative number is in range
however large. -/
def isFraction (cs : List Char) : Bool :=
  match decimalParts? cs with
  | some (whole, fraction, exponent) =>
    isDecimal whole &&
      match Text.readNat? 10 (unspaced (unsigned whole ++ fraction)) with
      | some n => cs.head? == some '-' ||
          !isTooLarge n (exponent - (unspaced fraction).length)
      | none => false
  | none => false

/-! ## Dates and times -/

/-- The number that a run of exactly so many digits denotes, if it lies between
two bounds. -/
def bounded? (count low high : Nat) (cs : List Char) : Option Nat :=
  if cs.length = count then
    (Text.readNat? 10 cs).filter fun n => low ≤ n && n ≤ high
  else none

/-- The number of days of a month. -/
def daysOf (year month : Nat) : Nat :=
  if month = 2 then
    if year % 4 = 0 ∧ (year % 100 ≠ 0 ∨ year % 400 = 0) then 29 else 28
  else if month = 4 ∨ month = 6 ∨ month = 9 ∨ month = 11 then 30
  else 31

/-- Whether the text is a day of the calendar. -/
def isDay (cs : List Char) : Bool :=
  match cs.splitOn '-' with
  | [year, month, day] =>
    match bounded? 4 0 9999 year, bounded? 2 1 12 month with
    | some y, some m => (bounded? 2 1 (daysOf y m) day).isSome
    | _, _ => false
  | _ => false

/-- Whether the text is an hour and a minute. -/
def isMinute (cs : List Char) : Bool :=
  match cs.splitOn ':' with
  | [hour, minute] => (bounded? 2 0 23 hour).isSome && (bounded? 2 0 59 minute).isSome
  | _ => false

/-- Whether the text is a second, perhaps with a fraction. -/
def isSecond (cs : List Char) : Bool :=
  match cs.splitOn '.' with
  | [second] => (bounded? 2 0 60 second).isSome
  | [second, fraction] =>
    (bounded? 2 0 60 second).isSome && !fraction.isEmpty && fraction.all Char.isDigit
  | _ => false

/-- Whether the text is a time of a day. -/
def isTime (cs : List Char) : Bool :=
  match cs.splitOn ':' with
  | [hour, minute, second] => isMinute (hour ++ ':' :: minute) && isSecond second
  | _ => false

/-- Whether the text is a time of a day, perhaps with its distance from the zero
meridian. -/
def isZonedTime (cs : List Char) : Bool :=
  let isZone (c : Char) : Bool := c == 'Z' || c == 'z' || c == '+' || c == '-'
  let time := cs.takeWhile fun c => !isZone c
  isTime time &&
    match cs.drop time.length with
    | [] => true
    | [c] => c == 'Z' || c == 'z'
    | c :: zone => (c == '+' || c == '-') && isMinute zone

/-- Whether the text is a day or a time, or both with a `T` between them. -/
def isDate (cs : List Char) : Bool :=
  let isMark (c : Char) : Bool := c == 'T' || c == 't'
  let day := cs.takeWhile fun c => !isMark c
  match cs.drop day.length with
  | [] => isDay cs || isTime cs
  | _ :: time => isDay day && isZonedTime time

/-! ## Words -/

/-- The value of a word. -/
def ofWord? (cs : List Char) : Option Toml :=
  if cs = "true".toList then some (.flag true)
  else if cs = "false".toList then some (.flag false)
  else if isDate cs then some (.date (String.ofList cs))
  else if isInteger cs || isFraction cs || unsigned cs = "inf".toList || unsigned cs = "nan".toList
  then some (.number (String.ofList cs))
  else none

/-- Reads a word, together with the time that a blank sets off from a day. -/
def readWord? (cs : List Char) : Option (Toml × List Char) :=
  let word := cs.takeWhile isWordChar
  match cs.dropWhile isWordChar with
  | ' ' :: rest =>
    let time := rest.takeWhile isWordChar
    if isDay word && isZonedTime time then
      some (.date (String.ofList (word ++ ' ' :: time)), rest.dropWhile isWordChar)
    else (ofWord? word).map (·, ' ' :: rest)
  | rest => (ofWord? word).map (·, rest)

/-- A word is no value if it is empty. -/
theorem ofWord?_nil : ofWord? [] = none := by decide

/-- What is left after a word is shorter. -/
theorem length_of_readWord? {cs rest : List Char} {v : Toml}
    (h : readWord? cs = some (v, rest)) : rest.length < cs.length := by
  have hlen : (cs.takeWhile isWordChar).length + (cs.dropWhile isWordChar).length = cs.length := by
    rw [← List.length_append, List.takeWhile_append_dropWhile]
  have hword {w : Toml} (hw : ofWord? (cs.takeWhile isWordChar) = some w) :
      0 < (cs.takeWhile isWordChar).length := by
    cases hc : cs.takeWhile isWordChar with
    | nil => rw [hc, ofWord?_nil] at hw; cases hw
    | cons => simp
  unfold readWord? at h
  split at h
  · rename_i more hmore
    rw [hmore, List.length_cons] at hlen
    have := (List.dropWhile_sublist isWordChar (l := more)).length_le
    dsimp only at h
    split at h
    · cases h
      omega
    · obtain ⟨w, hw, heq⟩ := Option.map_eq_some_iff.1 h
      cases heq
      have := hword hw
      rw [List.length_cons]
      omega
  · obtain ⟨w, hw, heq⟩ := Option.map_eq_some_iff.1 h
    cases heq
    have := hword hw
    omega

end Toml
end Linguist
