import Linguist.Bytes.Utf8
import Linguist.Json.Value

/-!
# Reading JSON

The text is cut into tokens, and the tokens are folded into a value.  Input comes
as characters with holes for undecodable bytes; a hole is allowed only inside a
string, where it makes the string garbled.

## The fold

The state of the fold is the stack of containers that are open, innermost first,
together with what the next token may be.  Each token either is allowed and leads
to one next state, or the text is not JSON.  So there is no look-ahead, and the
depth of a value is limited by nothing.
-/

namespace Linguist
namespace Json

/-! ## Strings -/

/-- A part of a string: a character, a code unit written by its number, or an
undecodable byte. -/
inductive Piece where
  | char (c : Char)
  | unit (n : Nat)
  | hole
  deriving DecidableEq, Repr

/-- The number that four digits in base 16 denote. -/
def fourDigits? : List (Option Char) → Option Nat
  | [some a, some b, some c, some d] => Text.readNat? 16 [a, b, c, d]
  | _ => none

/-- The character that a short escape denotes. -/
def shortEscape? : Char → Option Char
  | '"' => some '"'
  | '\\' => some '\\'
  | '/' => some '/'
  | 'b' => some '\x08'
  | 'f' => some '\x0c'
  | 'n' => some '\n'
  | 'r' => some '\r'
  | 't' => some '\t'
  | _ => none

/-- Reads a string after its opening quote, up to and with its closing quote. -/
def readString? : List (Option Char) → Option (List Piece × List (Option Char))
  | some '"' :: rest => some ([], rest)
  | some '\\' :: some 'u' :: a :: b :: c :: d :: rest =>
    (fourDigits? [a, b, c, d]).bind fun n =>
      (readString? rest).map fun (pieces, rest) => (.unit n :: pieces, rest)
  | some '\\' :: some e :: rest =>
    (shortEscape? e).bind fun c =>
      (readString? rest).map fun (pieces, rest) => (.char c :: pieces, rest)
  | some '\\' :: _ => none
  | some c :: rest =>
    if c.toNat < 0x20 then none
    else (readString? rest).map fun (pieces, rest) => (.char c :: pieces, rest)
  | none :: rest => (readString? rest).map fun (pieces, rest) => (.hole :: pieces, rest)
  | [] => none

/-- The text that the parts of a string denote; surrogates have to come in
pairs. -/
def textOfPieces? : List Piece → Option (List Char)
  | [] => some []
  | .hole :: _ => none
  | .char c :: rest => (textOfPieces? rest).map (c :: ·)
  | .unit n :: rest =>
    if n < 0xD800 ∨ 0xE000 ≤ n then (textOfPieces? rest).map (Char.ofNat n :: ·)
    else if n < 0xDC00 then
      match rest with
      | .unit m :: rest =>
        if 0xDC00 ≤ m ∧ m < 0xE000 then
          (textOfPieces? rest).map
            (Char.ofNat (0x10000 + (n - 0xD800) * 0x400 + (m - 0xDC00)) :: ·)
        else none
      | _ => none
    else none

/-- What is left after a string is shorter. -/
theorem length_of_readString? {cs rest : List (Option Char)} {pieces : List Piece}
    (h : readString? cs = some (pieces, rest)) : rest.length < cs.length := by
  fun_induction readString? cs generalizing pieces with
  | case1 => cases h; simp
  | case2 a b c d more ih =>
    obtain ⟨n, _, h⟩ := Option.bind_eq_some_iff.1 h
    obtain ⟨⟨p, r⟩, hp, heq⟩ := Option.map_eq_some_iff.1 h
    cases heq
    have := ih hp
    simp only [List.length_cons]
    omega
  | case3 e more _ ih =>
    obtain ⟨n, _, h⟩ := Option.bind_eq_some_iff.1 h
    obtain ⟨⟨p, r⟩, hp, heq⟩ := Option.map_eq_some_iff.1 h
    cases heq
    have := ih hp
    simp only [List.length_cons]
    omega
  | case4 => simp at h
  | case5 => simp at h
  | case6 c more _ _ _ _ _ ih =>
    obtain ⟨⟨p, r⟩, hp, heq⟩ := Option.map_eq_some_iff.1 h
    cases heq
    exact Nat.lt_succ_of_lt (ih hp)
  | case7 more ih =>
    obtain ⟨⟨p, r⟩, hp, heq⟩ := Option.map_eq_some_iff.1 h
    cases heq
    exact Nat.lt_succ_of_lt (ih hp)
  | case8 => simp at h

/-! ## Tokens -/

/-- A token; a string that denotes no text is `text none`. -/
inductive Token where
  | openArray
  | closeArray
  | openObject
  | closeObject
  | comma
  | colon
  | text (s? : Option String)
  | scalar (j : Json)

/-- Whether a character may occur in a number. -/
def isNumberChar (c : Char) : Bool :=
  c.isDigit || c == '+' || c == '-' || c == '.' || c == 'e' || c == 'E'

/-- Whether the text is an exponent, with its mark, or nothing. -/
def isExponent : List Char → Bool
  | [] => true
  | c :: rest =>
    (c == 'e' || c == 'E') &&
      let digits := match rest with
        | '+' :: rest | '-' :: rest => rest
        | _ => rest
      !digits.isEmpty && digits.all Char.isDigit

/-- Whether the text is a fraction, with its point, and an exponent, both
optional. -/
def isFraction : List Char → Bool
  | '.' :: rest =>
    !(rest.takeWhile Char.isDigit).isEmpty && isExponent (rest.dropWhile Char.isDigit)
  | rest => isExponent rest

/-- Whether the text is a number. -/
def isNumber (cs : List Char) : Bool :=
  let cs := match cs with
    | '-' :: rest => rest
    | _ => cs
  match cs with
  | '0' :: rest => isFraction rest
  | c :: rest => c.isDigit && isFraction (rest.dropWhile Char.isDigit)
  | [] => false

/-- The characters up to the first hole or the first that fails the test. -/
def takeChars (p : Char → Bool) : List (Option Char) → List Char
  | some c :: rest => if p c then c :: takeChars p rest else []
  | _ => []

/-- What follows the characters that pass the test. -/
def dropChars (p : Char → Bool) : List (Option Char) → List (Option Char)
  | some c :: rest => if p c then dropChars p rest else some c :: rest
  | cs => cs

theorem length_dropChars (p : Char → Bool) (cs : List (Option Char)) :
    (dropChars p cs).length ≤ cs.length := by
  fun_induction dropChars p cs with
  | case1 c rest hp ih => exact Nat.le_succ_of_le ih
  | case2 => exact Nat.le_refl _
  | case3 => exact Nat.le_refl _

/-- The value of a word. -/
def wordToken? : List Char → Option Token
  | ['n', 'u', 'l', 'l'] => some (.scalar .null)
  | ['t', 'r', 'u', 'e'] => some (.scalar (.bool true))
  | ['f', 'a', 'l', 's', 'e'] => some (.scalar (.bool false))
  | _ => none

/-- The token that is a single character. -/
def markToken? : Char → Option Token
  | '[' => some .openArray
  | ']' => some .closeArray
  | '\x7b' => some .openObject
  | '\x7d' => some .closeObject
  | ',' => some .comma
  | ':' => some .colon
  | _ => none

/-- Whether a character separates tokens and means nothing. -/
def isSpace (c : Char) : Bool :=
  c == ' ' || c == '\n' || c == '\t' || c == '\r'

/-- The tokens of a text. -/
def tokens? (cs : List (Option Char)) : Option (List Token) :=
  match cs with
  | [] => some []
  | none :: _ => none
  | some c :: rest =>
    if isSpace c then tokens? rest
    else if c = '"' then
      match h : readString? rest with
      | some (pieces, more) =>
        have : more.length < (some c :: rest).length :=
          Nat.lt_succ_of_lt (length_of_readString? h)
        (tokens? more).map (.text ((textOfPieces? pieces).map String.ofList) :: ·)
      | none => none
    else if isNumberChar c && !c.isAlpha then
      have : (dropChars isNumberChar rest).length < (some c :: rest).length :=
        Nat.lt_succ_of_le (length_dropChars _ _)
      let literal := c :: takeChars isNumberChar rest
      if isNumber literal then
        (tokens? (dropChars isNumberChar rest)).map
          (.scalar (.number (String.ofList literal)) :: ·)
      else none
    else if c.isAlpha then
      have : (dropChars Char.isAlpha rest).length < (some c :: rest).length :=
        Nat.lt_succ_of_le (length_dropChars _ _)
      (wordToken? (c :: takeChars Char.isAlpha rest)).bind fun token =>
        (tokens? (dropChars Char.isAlpha rest)).map (token :: ·)
    else (markToken? c).bind fun token => (tokens? rest).map (token :: ·)
termination_by cs.length
decreasing_by all_goals simp only [List.length_cons] at *; omega

/-! ## The fold -/

/-- A container that is open, with what it holds so far, last first. -/
inductive Frame where
  | array (seen : List Json)
  | object (seen : List (Option String × Json)) (key? : Option String)

/-- What the next token may be. -/
inductive Expectation where
  | value
  | valueOrEnd
  | key
  | keyOrEnd
  | colon
  | separator
  | nothing (result : Json)

/-- The state of the fold. -/
structure Progress where
  stack : List Frame
  next : Expectation

/-- The object with these members, garbled if a key is no text. -/
def ofMembers (members : List (Option String × Json)) : Json :=
  match members.mapM fun (key?, value) => key?.map (·, value) with
  | some members => .object members
  | none => .garbled

/-- The state once a value is complete. -/
def put (j : Json) : List Frame → Progress
  | [] => ⟨[], .nothing j⟩
  | .array seen :: outer => ⟨.array (j :: seen) :: outer, .separator⟩
  | .object seen key? :: outer => ⟨.object ((key?, j) :: seen) none :: outer, .separator⟩

/-- The state after one token more. -/
def Progress.step : Progress → Token → Option Progress
  | ⟨stack, .value⟩, token => openValue stack token
  | ⟨.array [] :: outer, .valueOrEnd⟩, .closeArray => some (put (.array []) outer)
  | ⟨stack, .valueOrEnd⟩, token => openValue stack token
  | ⟨.object seen _ :: outer, .keyOrEnd⟩, .closeObject => some (put (ofMembers seen.reverse) outer)
  | ⟨.object seen _ :: outer, .keyOrEnd⟩, .text key? => some ⟨.object seen key? :: outer, .colon⟩
  | ⟨.object seen _ :: outer, .key⟩, .text key? => some ⟨.object seen key? :: outer, .colon⟩
  | ⟨stack, .colon⟩, .colon => some ⟨stack, .value⟩
  | ⟨.array seen :: outer, .separator⟩, .comma => some ⟨.array seen :: outer, .value⟩
  | ⟨.array seen :: outer, .separator⟩, .closeArray => some (put (.array seen.reverse) outer)
  | ⟨.object seen key? :: outer, .separator⟩, .comma => some ⟨.object seen key? :: outer, .key⟩
  | ⟨.object seen _ :: outer, .separator⟩, .closeObject =>
    some (put (ofMembers seen.reverse) outer)
  | _, _ => none
where
  /-- The state after a token that begins a value. -/
  openValue (stack : List Frame) : Token → Option Progress
    | .openArray => some ⟨.array [] :: stack, .valueOrEnd⟩
    | .openObject => some ⟨.object [] none :: stack, .keyOrEnd⟩
    | .text (some s) => some (put (.string s) stack)
    | .text none => some (put .garbled stack)
    | .scalar j => some (put j stack)
    | _ => none

/-- The value that the tokens make up. -/
def ofTokens? (tokens : List Token) : Option Json :=
  match tokens.foldlM Progress.step ⟨[], .value⟩ with
  | some ⟨_, .nothing j⟩ => some j
  | _ => none

/-- The value in a text with holes. -/
def ofChars? (cs : List (Option Char)) : Option Json :=
  (tokens? cs).bind ofTokens?

/-- The value in the bytes of a file. -/
def ofBytes? (bytes : List UInt8) : Option Json :=
  ofChars? (Bytes.Utf8.decode bytes)

/-- The value in a text. -/
def ofText? (s : String) : Option Json :=
  ofChars? (s.toList.map some)

end Json
end Linguist
