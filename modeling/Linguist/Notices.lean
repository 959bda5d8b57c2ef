import Linguist.Phrasebook

/-!
# Notices by number

A program reports errors by number.  A table of notices gives each number a text
with markers, and the phrasebook of the user gives the text in the user's
language.  Numbers are unique, and for an unknown one there is a notice of its
own.
-/

namespace Linguist

/-- What is said about an error number. -/
structure Notice where
  moduleCode : Int
  errorCode : Int
  message : String
  isUserFriendly : Bool
  deriving DecidableEq, Repr

namespace Notice

/-- The context in which the texts of notices are looked up. -/
def context : String :=
  "QObject"

/-- The text of the notice for an unknown number. -/
def unknownText : String :=
  "Unknown error"

/-- The notice for an unknown number, in the words given. -/
def unknown (message : String) : Notice :=
  ⟨0, 0, message, true⟩

end Notice

/-- A table of notices. -/
structure Notices where
  list : List Notice
  deriving DecidableEq, Repr

namespace Notices

/-- The first number that repeats in a list of notices, given those seen. -/
def firstRepeated? (seen : List Int) : List Notice → Option Int
  | [] => none
  | n :: rest =>
    if seen.contains n.errorCode then some n.errorCode
    else firstRepeated? (n.errorCode :: seen) rest

/-- The table of a list of notices with distinct numbers. -/
def ofList (list : List Notice) : Except Fault Notices :=
  match firstRepeated? [] list with
  | some code => .error (.duplicateCode code)
  | none => .ok ⟨list⟩

/-- The notice of a number. -/
def find? (t : Notices) (code : Int) : Option Notice :=
  t.list.find? (·.errorCode == code)

/-- What is said about a number, with arguments filled in. -/
def plain (t : Notices) (code : Int) (values : List String) : Notice :=
  match t.find? code with
  | some n => { n with message := Template.fillAll n.message values }
  | none => .unknown Notice.unknownText

/-- What is said about a number in the language of a phrasebook, with arguments
filled in. -/
def localized (t : Notices) (b : Phrasebook) (code : Int) (values : List String) : Notice :=
  match t.find? code with
  | some n => { n with message := b.filledText Notice.context n.message values }
  | none => .unknown (b.textOrSource Notice.context Notice.unknownText)

end Notices
end Linguist
