/-!
# Written numbers

Line numbers, counts and character codes are read from text in base 8, 10 or 16
and written in base 10.  A reader accepts exactly the digits of its base and
refuses an empty run, so that every accepted text denotes one number; bounds are
checked on the number, never on the length of its text.
-/

namespace Linguist
namespace Text

/-- The value of a digit in the given base, letters in either case. -/
def digit? (base : Nat) (c : Char) : Option Nat :=
  let n := c.toNat
  let value :=
    if '0' ≤ c ∧ c ≤ '9' then n - '0'.toNat
    else if 'a' ≤ c ∧ c ≤ 'z' then n - 'a'.toNat + 10
    else if 'A' ≤ c ∧ c ≤ 'Z' then n - 'A'.toNat + 10
    else base
  if value < base then some value else none

/-- The number that a run of digits denotes, `start` standing before it. -/
def readDigits (base : Nat) (start : Nat) : List Char → Option Nat
  | [] => some start
  | c :: rest => (digit? base c).bind fun d => readDigits base (start * base + d) rest

/-- The number written by a non-empty run of digits. -/
def readNat? (base : Nat) : List Char → Option Nat
  | [] => none
  | cs => readDigits base 0 cs

/-- The number of at most 32 bits written by a run of digits, which a plus sign
may lead. -/
def readUInt32? (base : Nat) (cs : List Char) : Option UInt32 :=
  let digits := match cs with
    | '+' :: rest => rest
    | _ => cs
  match readNat? base digits with
  | some n => if n < UInt32.size then some (UInt32.ofNat n) else none
  | none => none

/-- Whether an integer has a signed form of 64 bits. -/
def fitsInt64 (i : Int) : Bool :=
  Int64.minValue.toInt ≤ i && i ≤ Int64.maxValue.toInt

/-- The signed number of at most 64 bits written by a run of digits, which a sign
may lead. -/
def readInt64? (cs : List Char) : Option Int64 :=
  let number? : Option Int := match cs with
    | '+' :: rest => (readNat? 10 rest).map Int.ofNat
    | '-' :: rest => (readNat? 10 rest).map fun n => -(n : Int)
    | _ => (readNat? 10 cs).map Int.ofNat
  match number? with
  | some i => if fitsInt64 i then some (Int64.ofInt i) else none
  | none => none

/-- The decimal digits of a number, without leading zeros. -/
def decimal (n : Nat) : List Char :=
  Nat.toDigits 10 n

/-- The decimal form of an integer, a minus sign before a negative one. -/
def decimalInt : Int → List Char
  | .ofNat n => decimal n
  | .negSucc n => '-' :: decimal (n + 1)

/-- The digits of a number in base 16, letters small, without leading zeros. -/
def hexadecimal (n : Nat) : List Char :=
  Nat.toDigits 16 n

/-- The character with the given code, if the code is one of a character. -/
def charOfCode? (n : Nat) : Option Char :=
  if h : n.isValidChar then some (Char.ofNatAux n h) else none

end Text
end Linguist
