import Linguist.Fault
import Linguist.Markup.Reference
import Linguist.Text.Blank

/-!
# Tags and their attributes

A tag is a name and, after the first blank, a text that lists attributes.  The
list is read only when somebody asks for an attribute, and no further than to the
attribute asked for, so that a fault behind it goes unnoticed.

## Readable prefix

The text of a list is therefore read as its longest readable prefix together with
the remark whether that was everything.  An attribute is looked up in the prefix;
only if it is not there does the remark matter.  A name that repeats ends the
prefix as much as a missing equals sign or quote does.
-/

namespace Linguist
namespace Markup

/-- An attribute, its value with references still in it. -/
structure Attribute where
  name : List Char
  value : List Char
  deriving DecidableEq, Repr

/-- A tag: its name, and the text after the name. -/
structure Tag where
  name : String
  list : List Char
  deriving DecidableEq, Repr

/-- The text without its leading blanks of markup. -/
def skipBlanks (cs : List Char) : List Char :=
  cs.dropWhile Text.isMarkupBlank

/-- Whether a character belongs to the name of an attribute after its first one. -/
def isNameChar (c : Char) : Bool :=
  !(c == '=' || Text.isMarkupBlank c)

/-- Splits off the value between quotes, the opening quote being read already. -/
def splitQuoted (quote : Char) : List Char → Option (List Char × List Char)
  | [] => none
  | c :: rest =>
    if c = quote then some ([], rest)
    else (splitQuoted quote rest).map fun (value, rest) => (c :: value, rest)

/-- What is left after a value is shorter. -/
theorem length_of_splitQuoted {quote : Char} {cs value rest : List Char}
    (h : splitQuoted quote cs = some (value, rest)) : rest.length < cs.length := by
  induction cs generalizing value with
  | nil => simp [splitQuoted] at h
  | cons c cs ih =>
    unfold splitQuoted at h
    split at h
    · cases h
      simp
    · obtain ⟨⟨v, r⟩, hv, heq⟩ := Option.map_eq_some_iff.1 h
      cases heq
      exact Nat.lt_succ_of_lt (ih hv)

/-- Reads what follows the name of an attribute: equals sign, quote, value. -/
def readValue? (cs : List Char) : Option (List Char × List Char) :=
  match skipBlanks cs with
  | '=' :: rest =>
    match skipBlanks rest with
    | '"' :: rest => splitQuoted '"' rest
    | '\'' :: rest => splitQuoted '\'' rest
    | _ => none
  | _ => none

theorem length_skipBlanks (cs : List Char) : (skipBlanks cs).length ≤ cs.length :=
  (List.dropWhile_sublist _).length_le

/-- What is left after an attribute is shorter. -/
theorem length_of_readValue? {cs value rest : List Char}
    (h : readValue? cs = some (value, rest)) : rest.length < cs.length := by
  unfold readValue? at h
  split at h
  · rename_i after hafter
    have h1 := length_skipBlanks cs
    have h2 := length_skipBlanks after
    rw [hafter] at h1
    split at h
    · rename_i quoted hquoted
      rw [hquoted] at h2
      have := length_of_splitQuoted h
      simp only [List.length_cons] at h1 h2
      omega
    · rename_i quoted hquoted
      rw [hquoted] at h2
      have := length_of_splitQuoted h
      simp only [List.length_cons] at h1 h2
      omega
    · simp at h
  · simp at h

/-- The longest readable prefix of a list of attributes whose names are not among
those seen, and whether it is the whole list. -/
def readAttributes (seen : List (List Char)) (cs : List Char) : List Attribute × Bool :=
  match hcs : skipBlanks cs with
  | [] => ([], true)
  | c :: rest =>
    let name := c :: rest.takeWhile isNameChar
    match hvalue : readValue? (rest.dropWhile isNameChar) with
    | none => ([], false)
    | some (value, more) =>
      if seen.contains name then ([], false)
      else
        have : more.length < cs.length := by
          have h1 := length_of_readValue? hvalue
          have h2 : (rest.dropWhile isNameChar).length ≤ rest.length :=
            (List.dropWhile_sublist _).length_le
          have h3 := length_skipBlanks cs
          rw [hcs, List.length_cons] at h3
          omega
        let (attributes, whole) := readAttributes (name :: seen) more
        (⟨name, value⟩ :: attributes, whole)
termination_by cs.length

namespace Tag

/-- The tag without attributes. -/
def plain (name : String) : Tag :=
  ⟨name, []⟩

/-- The tag with an attribute added at the end of its list. -/
def add (tag : Tag) (name value : String) : Tag :=
  { tag with
    list := tag.list ++ ' ' :: name.toList ++ ['=', '"'] ++ escape value.toList ++ ['"'] }

/-- The tag with an attribute added if it has a value. -/
def addOption (tag : Tag) (name : String) : Option String → Tag
  | some value => tag.add name value
  | none => tag

/-- The tag whose text between the angle brackets is given. -/
def ofText (cs : List Char) : Tag :=
  ⟨String.ofList (cs.takeWhile (!Text.isMarkupBlank ·)), cs.dropWhile (!Text.isMarkupBlank ·)⟩

/-- The text of the tag between the angle brackets. -/
def text (tag : Tag) : List Char :=
  tag.name.toList ++ tag.list

/-- The value of an attribute, if the tag has it. -/
def attribute? (tag : Tag) (name : String) : Except Fault (Option String) :=
  let (attributes, whole) := readAttributes [] tag.list
  match attributes.find? (·.name == name.toList) with
  | some a =>
    match unescape? a.value with
    | some value => .ok (some (String.ofList value))
    | none => .error .notMarkup
  | none => if whole then .ok none else .error .badAttributes

end Tag
end Markup
end Linguist
