/-!
# UTF-8

A byte sequence is read as characters by a machine that holds at most one
unfinished character: how many bytes it still owes, the closed interval in which
the next one has to lie, and the code collected so far.  The interval is what
excludes overlong forms, surrogates and codes beyond U+10FFFF.

## What is undecodable

Reading never fails.  A byte that no character begins with, and the longest
unfinished beginning of a character, each become one hole, written `none`.  A
strict reader asks for a sequence without holes, a lenient one fills them with
the replacement character, and both see the same characters everywhere else.
-/

namespace Linguist
namespace Bytes
namespace Utf8

/-- An unfinished character: the number of bytes owed, the interval of the next
one, and the code so far. -/
structure Pending where
  owed : Nat
  low : Nat
  high : Nat
  code : Nat
  deriving DecidableEq

/-- What a byte is at the beginning of a character. -/
inductive Lead where
  | whole : Char → Lead
  | first : Pending → Lead
  | stray : Lead

/-- The role of a byte that stands where a character begins. -/
def lead (b : UInt8) : Lead :=
  let n := b.toNat
  if n < 0x80 then .whole (Char.ofNat n)
  else if n < 0xC2 then .stray
  else if n < 0xE0 then .first ⟨1, 0x80, 0xBF, n % 32⟩
  else if n = 0xE0 then .first ⟨2, 0xA0, 0xBF, n % 16⟩
  else if n = 0xED then .first ⟨2, 0x80, 0x9F, n % 16⟩
  else if n < 0xF0 then .first ⟨2, 0x80, 0xBF, n % 16⟩
  else if n = 0xF0 then .first ⟨3, 0x90, 0xBF, n % 8⟩
  else if n < 0xF4 then .first ⟨3, 0x80, 0xBF, n % 8⟩
  else if n = 0xF4 then .first ⟨3, 0x80, 0x8F, n % 8⟩
  else .stray

/-- The unfinished character after one more byte of it. -/
def Pending.next (p : Pending) (b : UInt8) : Pending :=
  ⟨p.owed - 1, 0x80, 0xBF, p.code * 64 + b.toNat % 64⟩

/-- Whether the byte continues the unfinished character. -/
def Pending.admits (p : Pending) (b : UInt8) : Bool :=
  p.low ≤ b.toNat && b.toNat ≤ p.high

/-- Reads bytes as characters, holes included, after an unfinished character. -/
def decodeFrom : Option Pending → List UInt8 → List (Option Char)
  | none, [] => []
  | some _, [] => [none]
  | none, b :: rest =>
    match lead b with
    | .whole c => some c :: decodeFrom none rest
    | .first p => decodeFrom (some p) rest
    | .stray => none :: decodeFrom none rest
  | some p, b :: rest =>
    if p.admits b then
      if p.owed = 1 then some (Char.ofNat (p.next b).code) :: decodeFrom none rest
      else decodeFrom (some (p.next b)) rest
    else
      match lead b with
      | .whole c => none :: some c :: decodeFrom none rest
      | .first q => none :: decodeFrom (some q) rest
      | .stray => none :: none :: decodeFrom none rest

/-- The characters of a byte sequence, a hole for each undecodable part. -/
def decode (bytes : List UInt8) : List (Option Char) :=
  decodeFrom none bytes

/-- The characters of a byte sequence without undecodable parts. -/
def decode? (bytes : List UInt8) : Option (List Char) :=
  (decode bytes).mapM id

/-- The characters of a byte sequence, U+FFFD for each undecodable part. -/
def decodeLenient (bytes : List UInt8) : List Char :=
  (decode bytes).map (·.getD '\ufffd')

/-- The bytes of a list of characters. -/
def encode (cs : List Char) : List UInt8 :=
  cs.flatMap String.utf8EncodeChar

end Utf8

/-- The bytes of a text. -/
def ofText (s : String) : List UInt8 :=
  Utf8.encode s.toList

end Bytes
end Linguist
