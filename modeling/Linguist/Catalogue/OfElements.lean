import Linguist.Catalogue
import Linguist.Markup.Declaration
import Linguist.Markup.Node

/-!
# Reading a catalogue from elements

A catalogue file is read tolerantly: elements that mean nothing at their level
are passed over with all they contain, text between elements does not count, and
of an element that repeats the last one wins.  What it insists on are the root
element, the name of a context, the source of a message, and that whatever it
enters is closed.

## In order

The nodes of an element are visited in file order, and how the element ended is
looked at last.  The first complaint of this walk is the answer, so that an early
defect of the content wins over a later break of the file.

## Passing over

An element that is passed over is not looked into, but it has to be closed:
a file that ends or breaks inside it is broken markup, while one that ends inside
an element that is read has an unexpected end there.
-/

namespace Linguist

open Markup (Node Tag Ending)

namespace Markup

/-- The complaint about the end of an element that is read. -/
def Ending.close (element : String) : Ending → Except Fault Unit
  | .closed => .ok ()
  | .endOfFile => .error (.invalid (.endOfFileIn element))
  | .fault => .error .notMarkup

/-- The complaint about the end of an element that is passed over. -/
def Ending.passOver : Ending → Except Fault Unit
  | .closed => .ok ()
  | _ => .error .notMarkup

/-- Visits the nodes of an element in order, then looks at its end. -/
def visit {σ : Type} (element : String) (step : σ → Node → Except Fault σ) (s : σ)
    (children : List Node) (ending : Ending) : Except Fault σ := do
  let s ← children.foldlM step s
  ending.close element
  return s

/-- The text with its references resolved. -/
def readRaw (raw : List Char) : Except Fault (List Char) :=
  match unescape? raw with
  | some cs => .ok cs
  | none => .error .notMarkup

/-- The character that an element names by its code, in base 16 after an `x`. -/
def readByte (tag : Tag) : Except Fault Char := do
  match ← tag.attribute? "value" with
  | none => .error (.invalid .byteWithoutValue)
  | some value =>
    let code? := match value.toList with
      | 'x' :: digits => Text.readUInt32? 16 digits
      | digits => Text.readUInt32? 10 digits
    match code?.bind fun code => Text.charOfCode? code.toNat with
    | some c => .ok c
    | none => .error (.invalid (.badByte value))

/-- The text so far with what a node inside an element of text adds. -/
def addText (seen : List Char) : Node → Except Fault (List Char)
  | .text raw => (readRaw raw).map (seen ++ ·)
  | .literal content => .ok (seen ++ content)
  | .aside _ => .ok seen
  | .empty tag => if tag.name = "byte" then (readByte tag).map (seen ++ [·]) else .ok seen
  | .element _ _ ending => ending.passOver.map fun _ => seen

/-- The text of an element. -/
def readText (element : String) (children : List Node) (ending : Ending) : Except Fault String :=
  (visit element addText [] children ending).map String.ofList

end Markup

open Markup (visit readText)

namespace Place

/-- The place that a tag describes. -/
def ofTag (tag : Tag) : Except Fault Place := do
  let line? ← match ← tag.attribute? "line" with
    | some s => some <$> LineNumber.ofText? s
    | none => pure none
  let file? ← tag.attribute? "filename"
  return ⟨file?, line?⟩

end Place

namespace Target

/-- The status that the tag of a target gives; without a type it is finished. -/
def statusOfTag (tag : Tag) : Except Fault Status := do
  match ← tag.attribute? "type" with
  | some s => Status.ofText? s
  | none => return .finished

/-- The parts of a wording found so far. -/
structure Parts where
  text : List Char := []
  forms? : Option (List String) := none
  lengths : List String := []

/-- The parts with one more plural form. -/
def Parts.addForm (p : Parts) (s : String) : Parts :=
  { p with forms? := some (p.forms?.getD [] ++ [s]) }

/-- The parts with one more length. -/
def Parts.addLength (p : Parts) (s : String) : Parts :=
  { p with lengths := p.lengths ++ [s] }

/-- Takes in one node of the element of a target. -/
def addPart (p : Parts) : Node → Except Fault Parts
  | .element tag children ending =>
    if tag.name = "numerusform" then do
      if (← tag.attribute? "variants") == some "yes" then
        .error (.invalid .variantsInsideForm)
      else
        return p.addForm (← readText "numerusform" children ending)
    else if tag.name = "lengthvariant" then
      (readText "lengthvariant" children ending).map p.addLength
    else ending.passOver.map fun _ => p
  | .empty tag =>
    if tag.name = "numerusform" then .ok (p.addForm "")
    else if tag.name = "lengthvariant" then .ok (p.addLength "")
    else (Markup.addText p.text (.empty tag)).map fun text => { p with text }
  | node => (Markup.addText p.text node).map fun text => { p with text }

/-- The wording that the parts make up: forms before lengths before text.  The
text of a plural message is its only form. -/
def Parts.wording (p : Parts) (isPlural hasLengths : Bool) : Wording :=
  match p.forms? with
  | some forms => .plural forms
  | none =>
    if hasLengths || !p.lengths.isEmpty then .lengths p.lengths
    else if isPlural then
      .plural (if p.text.isEmpty then [] else [String.ofList p.text])
    else .plain (String.ofList p.text)

/-- The target that an element describes. -/
def ofElement (isPlural : Bool) (tag : Tag) (children : List Node) (ending : Ending) :
    Except Fault Target := do
  let status ← statusOfTag tag
  let hasLengths := (← tag.attribute? "variants") == some "yes"
  let parts ← visit "translation" addPart {} children ending
  return ⟨status, parts.wording isPlural hasLengths⟩

/-- The target that an empty element describes. -/
def ofEmptyTag (isPlural : Bool) (tag : Tag) : Except Fault Target := do
  let status ← statusOfTag tag
  return ⟨status, if isPlural then .plural [] else .blank⟩

end Target

namespace Message

/-- A message whose source may still be missing. -/
structure Draft where
  message : Message
  source? : Option String := none

/-- The draft with the text of one of its elements; other elements change
nothing. -/
def Draft.setText (d : Draft) (element text : String) : Draft :=
  match element with
  | "source" => { d with source? := some text }
  | "oldsource" => { d with message := { d.message with oldSource? := some text } }
  | "comment" => { d with message := { d.message with comment? := some text } }
  | "oldcomment" => { d with message := { d.message with oldComment? := some text } }
  | "extracomment" => { d with message := { d.message with extraComment? := some text } }
  | "translatorcomment" => { d with message := { d.message with translatorComment? := some text } }
  | _ => d

/-- The elements of a message that hold a text. -/
def textElements : List String :=
  ["source", "oldsource", "comment", "oldcomment", "extracomment", "translatorcomment"]

/-- The draft with one more place. -/
def Draft.addPlace (d : Draft) (p : Place) : Draft :=
  { d with message := { d.message with places := d.message.places ++ [p] } }

/-- The draft with its target. -/
def Draft.setTarget (d : Draft) (target : Target) : Draft :=
  { d with message := { d.message with target } }

/-- Takes in one node of the element of a message. -/
def addNode (d : Draft) : Node → Except Fault Draft
  | .empty tag =>
    if tag.name = "location" then (Place.ofTag tag).map d.addPlace
    else if tag.name = "translation" then
      (Target.ofEmptyTag d.message.isPlural tag).map d.setTarget
    else .ok (d.setText tag.name "")
  | .element tag children ending =>
    if tag.name = "location" then do
      let place ← Place.ofTag tag
      ending.passOver
      return d.addPlace place
    else if tag.name = "translation" then
      (Target.ofElement d.message.isPlural tag children ending).map d.setTarget
    else if textElements.contains tag.name then
      (readText tag.name children ending).map (d.setText tag.name)
    else ending.passOver.map fun _ => d
  | _ => .ok d

/-- The message that an element describes. -/
def ofElement (tag : Tag) (children : List Node) (ending : Ending) : Except Fault Message := do
  let id? ← tag.attribute? "id"
  let isPlural := (← tag.attribute? "numerus") == some "yes"
  let draft ← visit "message" addNode ⟨{ id?, isPlural, source := "" }, none⟩ children ending
  match draft.source? with
  | some source => return { draft.message with source }
  | none => .error (.invalid .messageWithoutSource)

end Message

namespace Context

/-- A context whose name may still be missing. -/
structure Draft where
  name? : Option String := none
  comment? : Option String := none
  messages : List Message := []

/-- Takes in one node of the element of a context. -/
def addNode (d : Draft) : Node → Except Fault Draft
  | .empty tag =>
    if tag.name = "name" then .ok { d with name? := some "" }
    else if tag.name = "comment" then .ok { d with comment? := some "" }
    else if tag.name = "message" then .error (.invalid .messageWithoutSource)
    else .ok d
  | .element tag children ending =>
    if tag.name = "name" then
      (readText "name" children ending).map fun name => { d with name? := some name }
    else if tag.name = "comment" then
      (readText "comment" children ending).map fun comment => { d with comment? := some comment }
    else if tag.name = "message" then
      (Message.ofElement tag children ending).map fun m =>
        { d with messages := d.messages ++ [m] }
    else ending.passOver.map fun _ => d
  | _ => .ok d

/-- The context that an element describes. -/
def ofElement (children : List Node) (ending : Ending) : Except Fault Context := do
  let draft ← visit "context" addNode {} children ending
  match draft.name? with
  | some name => return ⟨name, draft.comment?, draft.messages⟩
  | none => .error (.invalid .contextWithoutName)

end Context

namespace Catalogue

/-- The catalogue that a tag describes, still without contexts. -/
def ofTag (tag : Tag) : Except Fault Catalogue := do
  let version? ← tag.attribute? "version"
  let language? ← tag.attribute? "language"
  let sourceLanguage? ← tag.attribute? "sourcelanguage"
  return { version := version?.getD empty.version, language?, sourceLanguage? }

/-- Takes in one node of the root element. -/
def addNode (c : Catalogue) : Node → Except Fault Catalogue
  | .element tag children ending =>
    if tag.name = "context" then
      (Context.ofElement children ending).map fun x => { c with contexts := c.contexts ++ [x] }
    else if tag.name = "message" then .error (.invalid .messageOutsideContext)
    else ending.passOver.map fun _ => c
  | _ => .ok c

/-- Whether a tag is that of a root element. -/
def checkRoot (tag : Tag) : Except Fault Unit :=
  if tag.name = "TS" then .ok () else .error (.invalid (.foreignRoot tag.name))

/-- The catalogue in the first element of a file; what follows it is not looked
at. -/
def ofNodes : List Node → Ending → Except Fault Catalogue
  | [], .fault => .error .notMarkup
  | [], _ => .error (.invalid .noRoot)
  | .empty tag :: _, _ => do
    checkRoot tag
    ofTag tag
  | .element tag children ending :: _, _ => do
    checkRoot tag
    visit "TS" addNode (← ofTag tag) children ending
  | _ :: rest, ending => ofNodes rest ending

/-- The catalogue that a text in markup describes. -/
def ofMarkup (cs : List Char) : Except Fault Catalogue :=
  let (nodes, ending) := Markup.nodesOfFile cs
  ofNodes nodes ending

/-- The catalogue in the bytes of a file. -/
def ofFile [Bytes.Registry] (bytes : List UInt8) : Except Fault Catalogue := do
  ofMarkup (← Markup.decodeFile bytes)

/-- The catalogue in the text of a file. -/
def ofFileText [Bytes.Registry] (s : String) : Except Fault Catalogue :=
  ofFile (Bytes.ofText s)

end Catalogue
end Linguist
