import Linguist.Place

/-!
# Messages

A message is one text of the program together with its wording in the target
language.  The wording is a single text, or one text per plural form, or several
texts of falling length for displays of different width.  Its status says how far
it can be trusted: only a finished wording is approved, and a message whose text
left the code keeps its wording as vanished or obsolete.

Inside a context a message is known by its source text and its comment.  A comment
that is absent and one that is empty are the same comment.
-/

namespace Linguist

/-- How far a wording can be trusted. -/
inductive Status where
  | finished
  | unfinished
  | vanished
  | obsolete
  deriving DecidableEq, Repr

namespace Status

/-- The status as the `type` of an element: a finished wording has none. -/
def typeAttribute? : Status → Option String
  | finished => none
  | unfinished => some "unfinished"
  | vanished => some "vanished"
  | obsolete => some "obsolete"

/-- The name of a status. -/
def text (s : Status) : String :=
  s.typeAttribute?.getD "finished"

/-- Reads the name of a status; an empty name is a finished wording. -/
def ofText? (s : String) : Except Fault Status :=
  match Text.keyword s with
  | "" | "finished" => .ok finished
  | "unfinished" => .ok unfinished
  | "vanished" => .ok vanished
  | "obsolete" => .ok obsolete
  | other => .error (.invalid (.unknownStatus other))

/-- Whether the message still stands in the code. -/
def isActive : Status → Bool
  | finished | unfinished => true
  | vanished | obsolete => false

end Status

/-- What a message says in the target language. -/
inductive Wording where
  | plain (text : String)
  | plural (forms : List String)
  | lengths (variants : List String)
  deriving DecidableEq, Repr

namespace Wording

/-- The wording that says nothing. -/
def blank : Wording :=
  plain ""

/-- Every text of the wording. -/
def all : Wording → List String
  | plain text => [text]
  | plural forms => forms
  | lengths variants => variants

/-- Whether every text of the wording is empty. -/
def isEmpty (w : Wording) : Bool :=
  w.all.all String.isEmpty

/-- The non-empty texts of the wording. -/
def texts (w : Wording) : List String :=
  w.all.filter fun s => !s.isEmpty

/-- The first non-empty text, where a single one is needed. -/
def primary? (w : Wording) : Option String :=
  w.texts.head?

/-- All texts on one line. -/
def text : Wording → String
  | plain text => text
  | plural forms => String.intercalate " | " forms
  | lengths variants => String.intercalate " | " variants

/-- Whether the wording has one text per plural form. -/
def isPlural : Wording → Bool
  | plural _ => true
  | _ => false

/-- An empty wording has no first text, and no other wording lacks one. -/
theorem isEmpty_eq_isNone_primary? (w : Wording) : w.isEmpty = w.primary?.isNone := by
  unfold isEmpty primary? texts
  induction w.all with
  | nil => rfl
  | cons s rest ih => cases h : s.isEmpty <;> simp [h, ih]

end Wording

/-- The target side of a message. -/
structure Target where
  status : Status
  wording : Wording
  deriving DecidableEq, Repr

namespace Target

/-- The target of a message nobody has worked on. -/
def untouched : Target :=
  ⟨.unfinished, .blank⟩

/-- The single text that is approved for use, if there is one. -/
def approved? : Target → Option String
  | ⟨.finished, .plain text⟩ => some text
  | _ => none

/-- Whether the target has no text at all. -/
def isEmpty (t : Target) : Bool :=
  t.wording.isEmpty

end Target

/-- One text of the program, with its target and the notes of all hands it went
through. -/
structure Message where
  id? : Option String := none
  isPlural : Bool := false
  places : List Place := []
  source : String
  oldSource? : Option String := none
  comment? : Option String := none
  oldComment? : Option String := none
  extraComment? : Option String := none
  translatorComment? : Option String := none
  target : Target := .untouched
  deriving DecidableEq, Repr

namespace Message

/-- What a message is known by inside its context. -/
structure Key where
  source : String
  comment : String
  deriving DecidableEq, Repr

/-- The key of a source text and a comment that may be absent. -/
def Key.of (source : String) (comment? : Option String) : Key :=
  ⟨source, comment?.getD ""⟩

/-- The order of keys: by source text, then by comment. -/
def Key.order (a b : Key) : Ordering :=
  (compare a.source b.source).then (compare a.comment b.comment)

/-- The key of a message. -/
def key (m : Message) : Key :=
  .of m.source m.comment?

/-- Whether the message is the one with this source text and comment. -/
def isFor (m : Message) (source : String) (comment? : Option String) : Bool :=
  m.key == .of source comment?

/-- The message on one line. -/
def text (m : Message) : String :=
  "Message \x7b source: " ++ Text.quoted m.source ++ ", translation: " ++ m.target.wording.text ++
    ", state: " ++ m.target.status.text ++ " \x7d"

end Message
end Linguist
