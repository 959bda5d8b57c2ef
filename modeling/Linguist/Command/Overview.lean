import Linguist.Catalogue.Places
import Linguist.Command.Session
import Linguist.Text.Shortened

/-!
# Overviews

An overview lists the messages of a catalogue, or those of one context or of one
status, with everything that a worker wants to know of them.  Texts are cut to the
width of a column unless they are asked for in full.  Contexts without a message to
show are left out.
-/

namespace Linguist
namespace Command

/-- Which messages an overview shows, and how. -/
structure Overview where
  context? : Option String := none
  status? : Option Status := none
  inFull : Bool := false
  deriving DecidableEq, Repr

namespace Overview

variable [Text.Measure]

/-- How many columns a text may take. -/
def columns : Nat := 50

/-- How a text is shown. -/
def shown (o : Overview) (s : String) : String :=
  if o.inFull then s else Text.shortened columns s

/-- A line for a text that may be absent. -/
def lineOf (o : Overview) (title : String) (s? : Option String) : List String :=
  s?.toList.map fun s => "    " ++ title ++ ": " ++ o.shown s

/-- A numbered line for each text. -/
def numberedLines (o : Overview) (title : String) (texts : List String) : List String :=
  texts.zipIdx.map fun (s, i) => "    " ++ title ++ " " ++ number i ++ ": " ++ o.shown s

/-- The lines for a wording. -/
def wordingLines (o : Overview) : Wording → List String
  | .plain s => if s.isEmpty then [] else o.lineOf "Translation" s
  | .plural forms => o.numberedLines "Form" forms
  | .lengths variants => o.numberedLines "Variant" variants

/-- The line for the places of a message. -/
def placeLines (places : List Place) : List String :=
  if places.isEmpty then []
  else ["    Locations: " ++ String.intercalate ", " (places.map Place.text)]

/-- The lines for the message that comes after so many others of its context. -/
def messageLines (o : Overview) (before : Nat) (m : Message) : List String :=
  ["",
    "  Message " ++ number (before + 1) ++ ": " ++ o.shown m.source,
    "    State: " ++ m.target.status.text] ++
    o.lineOf "Comment" m.comment? ++ o.lineOf "Extracomment" m.extraComment? ++
    placeLines m.places ++ o.wordingLines m.target.wording

/-- Whether a context is shown. -/
def wants (o : Overview) (x : Context) : Bool :=
  o.context?.all (· == x.name)

/-- The messages of a context that are shown. -/
def chosen (o : Overview) (x : Context) : List Message :=
  if o.wants x then x.messages.filter fun m => o.status?.all (· == m.target.status) else []

/-- The lines for a context. -/
def contextLines (o : Overview) (x : Context) : List String :=
  if (o.chosen x).isEmpty then []
  else
    ["", "=== Context: " ++ x.name ++ " ===", "Messages: " ++ number (o.chosen x).length] ++
      (o.chosen x).zipIdx.flatMap fun (m, i) => o.messageLines i m

/-- The lines for the catalogue as a whole. -/
def titleLines (c : Catalogue) : List String :=
  ["=== Document ===", "Language: " ++ c.language?.getD "-"] ++
    c.sourceLanguage?.toList.map ("Source language: " ++ ·)

/-- The lines of an overview; places are shown in full. -/
def lines (o : Overview) (c : Catalogue) : List String :=
  titleLines c ++ c.resolve.contexts.flatMap o.contextLines

/-- Whether there is a message to show. -/
def isEmpty (o : Overview) (c : Catalogue) : Bool :=
  c.contexts.all fun x => (o.chosen x).isEmpty

end Overview
end Command
end Linguist
