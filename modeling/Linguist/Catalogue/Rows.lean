import Linguist.Catalogue.Places
import Linguist.Csv.Row
import Linguist.Json.Printer
import Linguist.Json.Reader

/-!
# The table of a catalogue

A catalogue goes out as a table, a human fills it in, and the table comes back.  A
row holds what a human needs: the texts of the message, its places written out,
and its wording.  A wording of several texts stands in its cell as a JSON array,
and the shape of the wording has a column of its own.

## Two ways back

A table can be read as a catalogue of its own; contexts then stand in the order of
their first rows.  Or it is applied to the catalogue it came from, row by row: a
row without wording is skipped, a row of an unknown message is reported, and every
other row replaces the target of its message.  When a row cannot be read, the rows
before it stay applied.
-/

namespace Linguist

namespace Csv
namespace Row

/-- The shape and the text of a wording. -/
def shapeAndText : Wording → String × String
  | .plain text => ("", text)
  | .plural forms => ("numerus", (Json.ofTexts forms).compactText)
  | .lengths variants => ("variants", (Json.ofTexts variants).compactText)

/-- The row of a message. -/
def ofMessage (context : String) (m : Message) : Row where
  context
  source := m.source
  comment := m.comment?.getD ""
  extraComment := m.extraComment?.getD ""
  wording := (shapeAndText m.target.wording).2
  status := m.target.status.text
  shape := (shapeAndText m.target.wording).1
  places := String.intercalate ";" (m.places.map Place.text)

/-- The comment, absent if empty. -/
def comment? (r : Row) : Option String :=
  if r.comment.isEmpty then none else some r.comment

/-- The several texts of the wording; a blank cell has none. -/
def forms (r : Row) : Except Fault (List String) :=
  if Text.isAllBlank r.wording then .ok []
  else match (Json.ofText? r.wording).bind Json.texts? with
    | some texts => .ok texts
    | none => .error .notJson

/-- The wording in its shape. -/
def readWording (r : Row) : Except Fault Wording :=
  match Text.trimmed r.shape with
  | "" | "text" => .ok (.plain r.wording)
  | "numerus" => r.forms.map .plural
  | "variants" => r.forms.map .lengths
  | other => .error (.invalid (.unknownShape other r.source))

/-- The status, or what the wording suggests if the cell is blank. -/
def readStatus (r : Row) (w : Wording) : Except Fault Status :=
  if Text.isAllBlank r.status then .ok (if w.isEmpty then .unfinished else .finished)
  else Status.ofText? r.status

/-- Splits a text at the last occurrence of a character. -/
def splitLast (c : Char) (cs : List Char) : Option (List Char × List Char) :=
  match cs.reverse.dropWhile (· != c) with
  | [] => none
  | _ :: before => some (before.reverse, (cs.reverse.takeWhile (· != c)).reverse)

/-- The place of one item of the list: what follows the last colon is the line. -/
def readPlace (item : List Char) : Except Fault Place :=
  match splitLast ':' item with
  | some (file, line) =>
    (LineNumber.ofText? (String.ofList line)).map fun number =>
      ⟨if file.isEmpty then none else some (String.ofList file), some number⟩
  | none => .ok ⟨some (String.ofList item), none⟩

/-- The places in the list, which semicolons separate. -/
def readPlaces (r : Row) : Except Fault (List Place) :=
  (((r.places.toList.splitOn ';').map Text.trim).filter (!·.isEmpty)).mapM readPlace

/-- The message that the row describes. -/
def toMessage (r : Row) : Except Fault Message := do
  let wording ← r.readWording
  let status ← r.readStatus wording
  let places ← r.readPlaces
  return {
    isPlural := wording.isPlural
    places
    source := r.source
    comment? := r.comment?
    extraComment? := if r.extraComment.isEmpty then none else some r.extraComment
    target := ⟨status, wording⟩ }

end Row
end Csv

namespace Catalogue

open Csv (Row)

/-- The rows of a catalogue. -/
def toRows (c : Catalogue) : List Row :=
  c.resolve.messages.map fun (context, m) => Row.ofMessage context m

/-- The catalogue that the rows describe. -/
def ofRows (language? : Option String) (rows : List Row) : Except Fault Catalogue :=
  rows.foldlM (fun c r => r.toMessage.map (c.addMessage r.context)) { language? }

/-! ## Applying a table -/

/-- What became of the rows of a table. -/
structure ImportReport where
  applied : Nat := 0
  unchanged : Nat := 0
  skippedEmpty : Nat := 0
  unknown : List (String × String) := []
  deriving DecidableEq, Repr

/-- The status that a row asks for; a blank cell is unfinished, and unfinished
rows count as finished on demand. -/
def importStatus (markFinished : Bool) (r : Row) : Except Fault Status := do
  let status ← if Text.isAllBlank r.status then .ok .unfinished else Status.ofText? r.status
  return if status = .unfinished ∧ markFinished then .finished else status

/-- Applies one row. -/
def applyRow (markFinished : Bool) (r : Row) (c : Catalogue) (report : ImportReport) :
    Except Fault (Catalogue × ImportReport) := do
  let wording ← r.readWording
  if wording.isEmpty then
    return (c, { report with skippedEmpty := report.skippedEmpty + 1 })
  let target : Target := ⟨← importStatus markFinished r, wording⟩
  match c.find? r.context r.source r.comment? with
  | none => return (c, { report with unknown := report.unknown ++ [(r.context, r.source)] })
  | some m =>
    if m.target = target then
      return (c, { report with unchanged := report.unchanged + 1 })
    else
      let c ← c.setTarget r.context r.source r.comment? target
      return (c, { report with applied := report.applied + 1 })

/-- Applies rows in order, up to the first that cannot be read; the catalogue is
what the rows before it made of it. -/
def applyRows (markFinished : Bool) : List Row → Catalogue → ImportReport →
    Catalogue × Except Fault ImportReport
  | [], c, report => (c, .ok report)
  | r :: rest, c, report =>
    match applyRow markFinished r c report with
    | .ok (c, report) => applyRows markFinished rest c report
    | .error fault => (c, .error fault)

/-- Applies a table. -/
def importRows (c : Catalogue) (markFinished : Bool) (rows : List Row) :
    Catalogue × Except Fault ImportReport :=
  applyRows markFinished rows c {}

end Catalogue
end Linguist
