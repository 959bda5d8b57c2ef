import Linguist.Code.Literal
import Linguist.Text.Blank
import Linguist.Text.Letter

/-!
# Program code as tokens

Code is cut into just the tokens that matter for finding calls with literal
arguments: words, literals, the scope mark, parentheses, commas, and the comments
that are notes for the people who work on the messages.  Blanks and all other
comments are dropped, and anything else is a token without a meaning.

## Line numbers

A token knows the line on which it begins.  Lines are counted where line ends are
passed over: between tokens, in block comments, at joined lines of a literal, and
in the text of a raw literal.
-/

namespace Linguist
namespace Code

/-- A token of program code. -/
inductive Token where
  | word (name : String)
  | literal (text : String)
  | scope
  | opening
  | closing
  | comma
  | note (text : String)
  | other
  deriving DecidableEq, Repr

/-- A token and the line on which it begins. -/
structure Located where
  token : Token
  line : Nat
  deriving DecidableEq, Repr

/-- Whether a character may stand in a word; a word that begins with a digit is a
number and may hold points and digit separators. -/
def isWordChar (isNumber : Bool) (c : Char) : Bool :=
  Text.isAlphanumeric c || c == '_' || (isNumber && (c == '\'' || c == '.'))

/-- The words that announce the encoding of the literal right after them. -/
def encodings : List String :=
  ["u8", "u", "U", "L"]

/-- The words that make the literal right after them a raw one. -/
def rawMarks : List String :=
  ["R", "u8R", "uR", "UR", "LR"]

/-- What follows a block comment, its opening mark being read already, and the
line it is on. -/
def skipBlock (line : Nat) : List Char → Nat × List Char
  | [] => (line, [])
  | '*' :: '/' :: rest => (line, rest)
  | c :: rest => skipBlock (if c = '\n' then line + 1 else line) rest

theorem length_skipBlock (line : Nat) (cs : List Char) :
    (skipBlock line cs).2.length ≤ cs.length := by
  fun_induction skipBlock line cs with
  | case1 => exact Nat.le_refl _
  | case2 =>
    simp only [List.length_cons]
    omega
  | case3 _ _ _ _ ih => exact Nat.le_succ_of_le ih

/-- The note in a line comment, its opening mark being read already. -/
def noteOf (comment : List Char) : List Token :=
  match comment with
  | ':' :: text => [.note (String.ofList (Text.trim text))]
  | _ => []

/-- The token that is a single character. -/
def markOf : Char → Token
  | '(' => .opening
  | ')' => .closing
  | ',' => .comma
  | _ => .other

/-- What a word means, given what follows it: its tokens, the line after them, and
what follows them. -/
def readWord (line : Nat) (word rest : List Char) : List Located × Nat × List Char :=
  let name := String.ofList word
  match rest with
  | '"' :: more =>
    if encodings.contains name then ([], line, rest)
    else if rawMarks.contains name then
      let (text, after) := splitRaw more
      ([⟨.literal (String.ofList text), line⟩], line + text.count '\n', after)
    else ([⟨.word name, line⟩], line, rest)
  | _ => ([⟨.word name, line⟩], line, rest)

theorem length_readWord (line : Nat) (word rest : List Char) :
    (readWord line word rest).2.2.length ≤ rest.length := by
  unfold readWord
  simp only
  split
  · rename_i more
    split
    · exact Nat.le_refl _
    · split
      · exact Nat.le_succ_of_le (length_splitRaw more)
      · exact Nat.le_refl _
  · exact Nat.le_refl _

/-- Reads the word that begins with a character: its tokens, the line after them,
and what follows them. -/
def takeWord (line : Nat) (c : Char) (rest : List Char) : List Located × Nat × List Char :=
  readWord line (c :: rest.takeWhile (isWordChar c.isDigit))
    (rest.dropWhile (isWordChar c.isDigit))

theorem length_takeWord (line : Nat) (c : Char) (rest : List Char) :
    (takeWord line c rest).2.2.length ≤ rest.length :=
  Nat.le_trans (length_readWord _ _ _) (List.dropWhile_sublist _).length_le

/-- The tokens of code that begins on a line. -/
def tokensFrom (line : Nat) (cs : List Char) : List Located :=
  match cs with
  | [] => []
  | '/' :: '/' :: rest =>
    have : (rest.dropWhile (· != '\n')).length ≤ rest.length :=
      (List.dropWhile_sublist _).length_le
    (noteOf (rest.takeWhile (· != '\n'))).map (⟨·, line⟩) ++
      tokensFrom line (rest.dropWhile (· != '\n'))
  | '/' :: '*' :: rest =>
    have := length_skipBlock line rest
    tokensFrom (skipBlock line rest).1 (skipBlock line rest).2
  | ':' :: ':' :: rest => ⟨.scope, line⟩ :: tokensFrom line rest
  | c :: rest =>
    if c = '\n' then tokensFrom (line + 1) rest
    else if Text.isBlank c then tokensFrom line rest
    else if c = '"' then
      have := length_splitBody rest
      ⟨.literal (String.ofList (decodeBody (splitBody rest).1)), line⟩ ::
        tokensFrom (line + (splitBody rest).1.count '\n') (splitBody rest).2
    else if c = '\'' then
      have := length_skipCharLiteral rest
      tokensFrom line (skipCharLiteral rest)
    else if isWordChar false c then
      have := length_takeWord line c rest
      (takeWord line c rest).1 ++
        tokensFrom (takeWord line c rest).2.1 (takeWord line c rest).2.2
    else ⟨markOf c, line⟩ :: tokensFrom line rest
termination_by cs.length
decreasing_by all_goals simp only [List.length_cons] at *; omega

/-- The tokens of a source file. -/
def tokens (code : String) : List Located :=
  tokensFrom 1 code.toList

end Code
end Linguist
