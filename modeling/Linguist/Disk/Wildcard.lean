import Linguist.Sequence

/-!
# Wildcards

A pattern stands for many paths.  A question mark stands for any character, an
asterisk for any run of characters, and a bracket for one character of a set, or
for one that is not in it.  Two asterisks stand for any number of folders and have
to be a whole segment of the pattern.

A pattern that breaks these rules is refused as a whole, before any file is looked
at.
-/

namespace Linguist
namespace Wildcard

/-- One item of a set of characters. -/
structure Range where
  low : Char
  high : Char
  deriving DecidableEq, Repr

/-- Whether the character is in the range. -/
def Range.holds (r : Range) (c : Char) : Bool :=
  r.low ≤ c && c ≤ r.high

/-- What a piece of a pattern stands for. -/
inductive Token where
  | char (c : Char)
  | anyChar
  | anyRun
  | anyFolders
  | within (set : List Range)
  | except (set : List Range)
  deriving DecidableEq, Repr

/-- The set that the text between brackets describes. -/
def readSet : List Char → List Range
  | a :: '-' :: b :: rest => ⟨a, b⟩ :: readSet rest
  | a :: rest => ⟨a, a⟩ :: readSet rest
  | [] => []

/-- Reads a set after its opening bracket: the set holds at least one character, so
a bracket right at its beginning does not close it. -/
def readBracket? : List Char → Option (Token × List Char)
  | '!' :: c :: rest =>
    (Sequence.splitMark [']'] rest).map fun (set, rest) => (.except (readSet (c :: set)), rest)
  | '!' :: [] => none
  | c :: rest =>
    (Sequence.splitMark [']'] rest).map fun (set, rest) => (.within (readSet (c :: set)), rest)
  | [] => none

theorem length_of_readBracket? {cs rest : List Char} {t : Token}
    (h : readBracket? cs = some (t, rest)) : rest.length < cs.length := by
  unfold readBracket? at h
  split at h
  · obtain ⟨⟨s, r⟩, hs, heq⟩ := Option.map_eq_some_iff.1 h
    cases heq
    have := Sequence.length_of_splitMark hs
    simp only [List.length_cons]
    omega
  · cases h
  · obtain ⟨⟨s, r⟩, hs, heq⟩ := Option.map_eq_some_iff.1 h
    cases heq
    exact Nat.lt_succ_of_le (Sequence.length_of_splitMark hs)
  · cases h

/-- The tokens of a pattern; `atStart` says that a segment begins here. -/
def readTokens? (atStart : Bool) (cs : List Char) : Option (List Token) :=
  match cs with
  | [] => some []
  | '?' :: rest => (readTokens? false rest).map (.anyChar :: ·)
  | '*' :: '*' :: '*' :: _ => none
  | ['*', '*'] => if atStart then some [.anyFolders] else none
  | '*' :: '*' :: '/' :: rest =>
    if atStart then (readTokens? true rest).map (.anyFolders :: ·) else none
  | '*' :: '*' :: _ => none
  | '*' :: rest => (readTokens? false rest).map (.anyRun :: ·)
  | '[' :: rest =>
    match h : readBracket? rest with
    | some (t, more) =>
      have : more.length < rest.length + 1 := Nat.lt_succ_of_lt (length_of_readBracket? h)
      (readTokens? false more).map (t :: ·)
    | none => none
  | c :: rest => (readTokens? (c == '/') rest).map (.char c :: ·)
termination_by cs.length

/-- Whether some end of a list passes a test. -/
def someEnd (p : List Char → Bool) : List Char → Bool
  | [] => p []
  | c :: cs => p (c :: cs) || someEnd p cs

/-- Whether a name is one that the tokens stand for. -/
def fits : List Token → List Char → Bool
  | [], cs => cs.isEmpty
  | .anyRun :: rest, cs => someEnd (fits rest) cs
  | .anyFolders :: rest, cs => someEnd (fits rest) cs
  | .char d :: rest, cs =>
    match cs with
    | c :: cs => c == d && fits rest cs
    | [] => false
  | .anyChar :: rest, cs =>
    match cs with
    | _ :: cs => fits rest cs
    | [] => false
  | .within set :: rest, cs =>
    match cs with
    | c :: cs => (set.any fun r => r.holds c) && fits rest cs
    | [] => false
  | .except set :: rest, cs =>
    match cs with
    | c :: cs => !(set.any fun r => r.holds c) && fits rest cs
    | [] => false

/-- A segment of a pattern between slashes. -/
inductive Segment where
  | name (s : String)
  | folders
  | tokens (ts : List Token)
  deriving DecidableEq, Repr

/-- The characters of tokens that are all plain. -/
def plain? : List Token → Option (List Char)
  | [] => some []
  | .char c :: rest => (plain? rest).map (c :: ·)
  | _ :: _ => none

/-- The segment that tokens make up. -/
def Segment.ofTokens (ts : List Token) : Segment :=
  if ts = [.anyFolders] then .folders
  else match plain? ts with
    | some cs => .name (String.ofList cs)
    | none => .tokens ts

/-- Whether a name is one that the segment stands for. -/
def Segment.fits : Segment → String → Bool
  | .name s, t => s == t
  | .folders, _ => true
  | .tokens ts, t => Wildcard.fits ts t.toList

/-- Whether the segment stands for names that begin with a dot and says so. -/
def Segment.hasDot : Segment → Bool
  | .tokens (.char '.' :: _) => true
  | _ => false

/-- Whether a text contains a character that makes it a pattern. -/
def isPattern (s : String) : Bool :=
  s.toList.any fun c => c == '*' || c == '?' || c == '['

/-- The segments of a pattern after its leading slash; a slash at its end begins no
further one. -/
def segments? (cs : List Char) : Option (List Segment) :=
  (readTokens? true cs).bind fun _ =>
    let texts := (if cs.head? = some '/' then cs.drop 1 else cs).splitOn '/'
    let texts := if texts.getLast? = some [] then texts.dropLast else texts
    texts.mapM fun s => (readTokens? true s).map Segment.ofTokens

end Wildcard
end Linguist
