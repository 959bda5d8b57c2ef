import Linguist.Sequence
import Linguist.Text.Numeral

/-!
# Literals of program code

A string literal of a C-like language stands between double quotes and ends, at
the latest, before the end of its line.  It is read in two steps.  The first finds
where the literal ends, for which a backslash protects whatever character follows
it.  The second decodes the escapes in between.

## Escapes

An octal escape has up to three digits, `\x` any number of digits in base 16, `\u`
up to four and `\U` up to eight.  A number that is no character decodes to
nothing, and so does one that outgrows 32 bits; its further digits are then
ordinary characters.  A backslash before a line end joins two lines, and before
any other character it is kept.

A raw literal has no escapes.  It names its own closing mark and may run over any
number of lines.
-/

namespace Linguist
namespace Code

/-- Splits the body of a literal, its opening quote being read already, from what
follows it. -/
def splitBody : List Char → List Char × List Char
  | [] => ([], [])
  | '"' :: rest => ([], rest)
  | '\n' :: rest => ([], '\n' :: rest)
  | '\\' :: c :: rest => ('\\' :: c :: (splitBody rest).1, (splitBody rest).2)
  | c :: rest => (c :: (splitBody rest).1, (splitBody rest).2)

/-- What follows a literal is not longer. -/
theorem length_splitBody (cs : List Char) : (splitBody cs).2.length ≤ cs.length := by
  fun_induction splitBody cs with
  | case1 => exact Nat.le_refl _
  | case2 rest => exact Nat.le_succ _
  | case3 rest => exact Nat.le_refl _
  | case4 c rest ih =>
    simp only [List.length_cons]
    omega
  | case5 c rest _ _ _ ih => exact Nat.le_succ_of_le ih

/-- Reads digits of a base as long as their number has 32 bits: the number, none
if it outgrew them or there was no digit, and what follows.  The first two
arguments are the number of digits still allowed, if limited, and the number read
so far, if any. -/
def takeNumber (base : Nat) : Option Nat → Option Nat → List Char → Option Nat × List Char
  | _, value?, [] => (value?, [])
  | limit?, value?, c :: rest =>
    if limit? = some 0 then (value?, c :: rest)
    else
      match Text.digit? base c with
      | none => (value?, c :: rest)
      | some d =>
        let value := value?.getD 0 * base + d
        if value < UInt32.size then takeNumber base (limit?.map (· - 1)) (some value) rest
        else (none, c :: rest)

/-- What follows a number is not longer. -/
theorem length_takeNumber (base : Nat) (limit? value? : Option Nat) (cs : List Char) :
    (takeNumber base limit? value? cs).2.length ≤ cs.length := by
  fun_induction takeNumber base limit? value? cs with
  | case1 => exact Nat.le_refl _
  | case2 => exact Nat.le_refl _
  | case3 => exact Nat.le_refl _
  | case4 _ _ _ _ _ _ _ _ _ ih => exact Nat.le_succ_of_le ih
  | case5 => exact Nat.le_refl _

/-- The character of a code, if there is one. -/
def charOf (code? : Option Nat) : List Char :=
  (code?.bind Text.charOfCode?).toList

/-- The character that a short escape denotes. -/
def shortEscape? : Char → Option Char
  | 'n' => some '\n'
  | 't' => some '\t'
  | 'r' => some '\r'
  | 'a' => some '\x07'
  | 'b' => some '\x08'
  | 'f' => some '\x0c'
  | 'v' => some '\x0b'
  | '\\' => some '\\'
  | '"' => some '"'
  | '\'' => some '\''
  | '?' => some '?'
  | _ => none

/-- The most digits that a numeric escape may have, none if it is no numeric
escape; the inner value is none if there is no limit. -/
def escapeLimit? : Char → Option (Option Nat)
  | 'x' => some none
  | 'u' => some (some 4)
  | 'U' => some (some 8)
  | _ => none

/-- Decodes the body of a literal. -/
def decodeBody (cs : List Char) : List Char :=
  match cs with
  | [] => []
  | '\\' :: c :: rest =>
    if c = '\n' then decodeBody rest
    else
      match shortEscape? c, escapeLimit? c with
      | some d, _ => d :: decodeBody rest
      | none, some limit? =>
        have := length_takeNumber 16 limit? none rest
        charOf (takeNumber 16 limit? none rest).1 ++ decodeBody (takeNumber 16 limit? none rest).2
      | none, none =>
        match Text.digit? 8 c with
        | some d =>
          have := length_takeNumber 8 (some 2) (some d) rest
          charOf (takeNumber 8 (some 2) (some d) rest).1 ++
            decodeBody (takeNumber 8 (some 2) (some d) rest).2
        | none => '\\' :: c :: decodeBody rest
  | ['\\'] => []
  | c :: rest => c :: decodeBody rest
termination_by cs.length
decreasing_by all_goals simp only [List.length_cons] at *; omega

/-- The closing mark of a raw literal, by the delimiter before its opening
parenthesis. -/
def rawMark (delimiter : List Char) : List Char :=
  ')' :: delimiter ++ ['"']

/-- Splits the text of a raw literal, its opening quote being read already, from
what follows it.  A literal without its closing mark runs to the end. -/
def splitRaw (cs : List Char) : List Char × List Char :=
  let body := (cs.dropWhile (· != '(')).drop 1
  match Sequence.splitMark (rawMark (cs.takeWhile (· != '('))) body with
  | some parts => parts
  | none => (body, [])

/-- What follows a raw literal is not longer. -/
theorem length_splitRaw (cs : List Char) : (splitRaw cs).2.length ≤ cs.length := by
  unfold splitRaw
  simp only
  split
  · rename_i parts h
    have h1 := Sequence.length_of_splitMark h
    have h2 : (cs.dropWhile (· != '(')).length ≤ cs.length := (List.dropWhile_sublist _).length_le
    rw [List.length_drop] at h1
    omega
  · exact Nat.zero_le _

/-- What follows a character literal, its opening quote being read already. -/
def skipCharLiteral : List Char → List Char
  | [] => []
  | '\'' :: rest => rest
  | '\n' :: rest => '\n' :: rest
  | '\\' :: _ :: rest => skipCharLiteral rest
  | _ :: rest => skipCharLiteral rest

/-- What follows a character literal is not longer. -/
theorem length_skipCharLiteral (cs : List Char) : (skipCharLiteral cs).length ≤ cs.length := by
  fun_induction skipCharLiteral cs with
  | case1 => exact Nat.le_refl _
  | case2 => exact Nat.le_succ _
  | case3 => exact Nat.le_refl _
  | case4 _ _ ih =>
    simp only [List.length_cons]
    omega
  | case5 _ _ _ _ _ ih => exact Nat.le_succ_of_le ih

end Code
end Linguist
