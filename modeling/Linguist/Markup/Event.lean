import Linguist.Markup.Tag
import Linguist.Sequence

/-!
# Markup as a sequence of pieces

A file of markup is cut into pieces at its angle brackets: text, start tags, end
tags, empty tags, literal text, and asides, which are comments, instructions and
declarations.  No piece is interpreted here; references stay in the text, and
attributes in their lists.

## Faults

A piece that does not end, or begins as no piece does, makes the rest of the file
unreadable.  It becomes a piece of its own, `fault`, and the last one, so that a
reader who stops earlier never meets it.

## Where a piece ends

A tag ends at the first closing bracket outside quotes.  A comment, literal text
and an instruction end at the first occurrence of their closing mark.  A
declaration ends at the closing bracket that balances its opening one.
-/

namespace Linguist
namespace Markup

/-- A piece of markup. -/
inductive Event where
  | text (raw : List Char)
  | literal (content : List Char)
  | aside (raw : List Char)
  | start (tag : Tag)
  | empty (tag : Tag)
  | finish (name : String)
  | fault
  deriving DecidableEq, Repr

/-- Splits at the first closing bracket outside quotes; the first argument is the
quote that is open. -/
def splitTag : Option Char → List Char → Option (List Char × List Char)
  | _, [] => none
  | some q, c :: rest =>
    (splitTag (if c = q then none else some q) rest).map fun (tag, rest) => (c :: tag, rest)
  | none, c :: rest =>
    if c = '>' then some ([], rest)
    else
      (splitTag (if c = '"' ∨ c = '\'' then some c else none) rest).map
        fun (tag, rest) => (c :: tag, rest)

/-- Splits at the closing bracket that balances `depth + 1` opening ones. -/
def splitBalanced : Nat → List Char → Option (List Char × List Char)
  | _, [] => none
  | depth, c :: rest =>
    if c = '>' then
      match depth with
      | 0 => some ([], rest)
      | depth + 1 => (splitBalanced depth rest).map fun (before, rest) => (c :: before, rest)
    else
      (splitBalanced (if c = '<' then depth + 1 else depth) rest).map
        fun (before, rest) => (c :: before, rest)

theorem length_of_splitTag {quote? : Option Char} {cs tag rest : List Char}
    (h : splitTag quote? cs = some (tag, rest)) : rest.length < cs.length := by
  induction cs generalizing quote? tag with
  | nil => simp [splitTag] at h
  | cons c cs ih =>
    cases quote? with
    | some q =>
      obtain ⟨⟨t, r⟩, ht, heq⟩ := Option.map_eq_some_iff.1 h
      cases heq
      exact Nat.lt_succ_of_lt (ih ht)
    | none =>
      unfold splitTag at h
      split at h
      · cases h
        simp
      · obtain ⟨⟨t, r⟩, ht, heq⟩ := Option.map_eq_some_iff.1 h
        cases heq
        exact Nat.lt_succ_of_lt (ih ht)

theorem length_of_splitBalanced {depth : Nat} {cs before rest : List Char}
    (h : splitBalanced depth cs = some (before, rest)) : rest.length < cs.length := by
  induction cs generalizing depth before with
  | nil => simp [splitBalanced] at h
  | cons c cs ih =>
    unfold splitBalanced at h
    split at h
    · split at h
      · cases h
        simp
      · obtain ⟨⟨t, r⟩, ht, heq⟩ := Option.map_eq_some_iff.1 h
        cases heq
        exact Nat.lt_succ_of_lt (ih ht)
    · obtain ⟨⟨t, r⟩, ht, heq⟩ := Option.map_eq_some_iff.1 h
      cases heq
      exact Nat.lt_succ_of_lt (ih ht)

/-! ## One piece at a time -/

/-- Whether the text of a declaration names what it declares. -/
def declaresName (cs : List Char) : Bool :=
  (cs.take 7).map Char.toLower == "doctype".toList && !(cs.drop 7).all Text.isMarkupBlank

/-- The name in an end tag, whose trailing blanks do not count. -/
def finishName (cs : List Char) : String :=
  if cs.all Text.isMarkupBlank then String.ofList cs
  else String.ofList (cs.reverse.dropWhile Text.isMarkupBlank).reverse

/-- A start tag, or an empty tag if its text ends with a slash. -/
def tagEvent (cs : List Char) : Event :=
  if cs.getLast? = some '/' then .empty (.ofText cs.dropLast) else .start (.ofText cs)

/-- The piece that follows an opening bracket and an exclamation mark, and the
text after it. -/
def readDeclaration? (cs : List Char) : Option (Event × List Char) :=
  match cs with
  | '-' :: '-' :: body =>
    (Sequence.splitMark "-->".toList body).map fun (content, rest) =>
      (.aside ("<!--".toList ++ content ++ "-->".toList), rest)
  | '[' :: 'C' :: 'D' :: 'A' :: 'T' :: 'A' :: '[' :: body =>
    (Sequence.splitMark "]]>".toList body).map fun (content, rest) => (.literal content, rest)
  | _ =>
    match splitBalanced 0 cs with
    | some (content, rest) =>
      if declaresName content then some (.aside ("<!".toList ++ content ++ ['>']), rest) else none
    | none => none

/-- The piece that follows an opening bracket and a question mark, and the text
after it. -/
def readInstruction? (cs : List Char) : Option (Event × List Char) :=
  if cs.head? = some '>' then none
  else
    (Sequence.splitMark "?>".toList cs).map fun (content, rest) =>
      (.aside ("<?".toList ++ content ++ "?>".toList), rest)

/-- The piece that follows an opening bracket, and the text after it. -/
def readBracket? (cs : List Char) : Option (Event × List Char) :=
  match cs with
  | '!' :: rest => readDeclaration? rest
  | '?' :: rest => readInstruction? rest
  | '/' :: rest => (splitTag none rest).map fun (name, rest) => (.finish (finishName name), rest)
  | _ => (splitTag none cs).map fun (tag, rest) => (tagEvent tag, rest)

theorem length_of_readDeclaration? {cs rest : List Char} {e : Event}
    (h : readDeclaration? cs = some (e, rest)) : rest.length ≤ cs.length := by
  unfold readDeclaration? at h
  split at h
  · obtain ⟨⟨t, r⟩, ht, heq⟩ := Option.map_eq_some_iff.1 h
    cases heq
    have := Sequence.length_of_splitMark ht
    simp only [List.length_cons]
    omega
  · obtain ⟨⟨t, r⟩, ht, heq⟩ := Option.map_eq_some_iff.1 h
    cases heq
    have := Sequence.length_of_splitMark ht
    simp only [List.length_cons]
    omega
  · split at h
    · rename_i content more hsplit
      split at h
      · cases h
        exact Nat.le_of_lt (length_of_splitBalanced hsplit)
      · simp at h
    · simp at h

/-- What is left after a piece is not longer. -/
theorem length_of_readBracket? {cs rest : List Char} {e : Event}
    (h : readBracket? cs = some (e, rest)) : rest.length ≤ cs.length := by
  unfold readBracket? at h
  split at h
  · exact Nat.le_succ_of_le (length_of_readDeclaration? h)
  · unfold readInstruction? at h
    split at h
    · simp at h
    · obtain ⟨⟨t, r⟩, ht, heq⟩ := Option.map_eq_some_iff.1 h
      cases heq
      exact Nat.le_succ_of_le (Sequence.length_of_splitMark ht)
  · obtain ⟨⟨t, r⟩, ht, heq⟩ := Option.map_eq_some_iff.1 h
    cases heq
    exact Nat.le_succ_of_le (Nat.le_of_lt (length_of_splitTag ht))
  · obtain ⟨⟨t, r⟩, ht, heq⟩ := Option.map_eq_some_iff.1 h
    cases heq
    exact Nat.le_of_lt (length_of_splitTag ht)

/-- The pieces of a text of markup. -/
def events (cs : List Char) : List Event :=
  match cs with
  | [] => []
  | '<' :: rest =>
    match h : readBracket? rest with
    | some (e, more) =>
      have : more.length < (('<' : Char) :: rest).length :=
        Nat.lt_succ_of_le (length_of_readBracket? h)
      e :: events more
    | none => [.fault]
  | c :: rest =>
    have : (rest.dropWhile (· != '<')).length < (c :: rest).length :=
      Nat.lt_succ_of_le (List.dropWhile_sublist _).length_le
    .text (c :: rest.takeWhile (· != '<')) :: events (rest.dropWhile (· != '<'))
termination_by cs.length
decreasing_by all_goals simp only [List.length_cons] at *; omega

/-- The pieces of a file, a byte order mark at its beginning left out. -/
def eventsOfFile : List Char → List Event
  | '\ufeff' :: rest => events rest
  | cs => events cs

end Markup
end Linguist
