import Linguist.Catalogue
import Linguist.Plural
import Linguist.Template

/-!
# Phrasebooks

A phrasebook is what a running program looks texts up in.  It is filled from
catalogues, one after the other, and takes over the messages that may be shown:
those with a wording that is finished, and on demand drafts too.  A message taken
over later replaces an earlier one with the same key.

## Looking up

A text is looked up by context, source and comment; if nothing is known under a
comment, then under no comment.  What is found is served as its first text, or as
the form that the count takes in the language of the last catalogue that names
one.  Where a program cannot do without a text, the source stands in.
-/

namespace Linguist

/-- A lookup table for the texts of a program. -/
structure Phrasebook where
  includeUnfinished : Bool := false
  language? : Option String := none
  rule : PluralRule := .oneOther
  entries : List ((String × Message.Key) × Wording) := []
  deriving DecidableEq, Repr

namespace Phrasebook

/-- What a text is looked up by: its context, and its key there. -/
abbrev Key := String × Message.Key

/-- Whether a target may be shown to the users of a program. -/
def isServable (b : Phrasebook) (t : Target) : Bool :=
  !t.isEmpty &&
    match t.status with
    | .finished => true
    | .unfinished => b.includeUnfinished
    | .vanished | .obsolete => false

/-- The entries with one more, which replaces the one with its key. -/
def putEntry (key : Key) (w : Wording) : List (Key × Wording) → List (Key × Wording)
  | [] => [(key, w)]
  | e :: rest => if e.1 = key then (key, w) :: rest else e :: putEntry key w rest

/-- The phrasebook with one message of a context taken over, if it may be. -/
def addMessage (b : Phrasebook) (context : String) (m : Message) : Phrasebook :=
  if b.isServable m.target then
    { b with entries := putEntry (context, m.key) m.target.wording b.entries }
  else b

/-- The phrasebook with the language of a catalogue, if it names one. -/
def setLanguage (b : Phrasebook) : Option String → Phrasebook
  | some language => { b with language? := some language, rule := .ofLanguage language }
  | none => b

/-- The phrasebook with a catalogue taken over. -/
def load (b : Phrasebook) (c : Catalogue) : Phrasebook :=
  c.messages.foldl (fun b (context, m) => b.addMessage context m) (b.setLanguage c.language?)

/-- The phrasebook of one catalogue. -/
def ofCatalogue (includeUnfinished : Bool) (c : Catalogue) : Phrasebook :=
  load { includeUnfinished } c

/-- The number of entries. -/
def size (b : Phrasebook) : Nat :=
  b.entries.length

/-- The wording under exactly this key. -/
def entry? (b : Phrasebook) (key : Key) : Option Wording :=
  b.entries.lookup key

/-- The wording for a text, first under its comment, then under none. -/
def wording? (b : Phrasebook) (context source : String) (comment? : Option String) :
    Option Wording :=
  (b.entry? (context, .of source comment?)).or (b.entry? (context, .of source none))

/-- The text that is shown for a text. -/
def text? (b : Phrasebook) (context source : String) (comment? : Option String) :
    Option String :=
  (b.wording? context source comment?).bind Wording.primary?

/-- The text that is shown, or the source. -/
def textOrSource (b : Phrasebook) (context source : String) : String :=
  (b.text? context source none).getD source

/-- The text of a wording that a count takes; a form that is missing is replaced
by the last one. -/
def countedForm? (rule : PluralRule) (n : Int) : Wording → Option String
  | .plural forms =>
    ((forms[rule.formIndex n]?).or forms.getLast?).filter fun s => !s.isEmpty
  | w => w.primary?

/-- The text that is shown for a text with a count, the count filled in. -/
def countedText? (b : Phrasebook) (context source : String) (comment? : Option String)
    (n : Int) : Option String :=
  (b.wording? context source comment?).bind fun w =>
    (countedForm? b.rule n w).map (Template.fillCount · n)

/-- The text that is shown, or the source, with arguments filled in. -/
def filledText (b : Phrasebook) (context source : String) (values : List String) : String :=
  Template.fillAll (b.textOrSource context source) values

end Phrasebook
end Linguist
