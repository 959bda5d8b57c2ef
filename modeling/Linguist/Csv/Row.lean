import Linguist.Csv.Cells
import Linguist.Fault

/-!
# Rows

The table that is handed to a human worker has one row per message and eight
columns of text.  Only the context and the source text have to be there; the other
columns may be missing and are then empty.

## Columns by name

The first line of a table names its columns, in any order, and columns of other
names are passed over.  A name may not repeat.  If the first line cannot be
decoded, the columns are taken to stand in their usual order.  Every line has as
many cells as the first one.
-/

namespace Linguist
namespace Csv

/-- One row of the table. -/
structure Row where
  context : String
  source : String
  comment : String := ""
  extraComment : String := ""
  wording : String := ""
  status : String := ""
  shape : String := ""
  places : String := ""
  deriving DecidableEq, Repr

/-- The names of the columns, in their usual order. -/
def columns : List String :=
  ["context", "source", "comment", "extracomment", "translation", "state", "form", "locations"]

namespace Row

/-- The cells of a row, in the usual order. -/
def cells (r : Row) : List String :=
  [r.context, r.source, r.comment, r.extraComment, r.wording, r.status, r.shape, r.places]

/-- The row with the values given for its columns in their usual order. -/
def ofValues? : List (Option String) → Option Row
  | [some context, some source, comment, extraComment, wording, status, shape, places] =>
    some ⟨context, source, comment.getD "", extraComment.getD "", wording.getD "",
      status.getD "", shape.getD "", places.getD ""⟩
  | _ => none

/-- The values of a column in a line, whose cells are named by the first line. -/
def valueOf? (names line : List String) (column : String) : Option (Option String) :=
  match (names.zip line).filter (·.1 == column) with
  | [] => some none
  | [(_, value)] => some (some value)
  | _ => none

/-- The row in a line, whose cells are named by the first line if that could be
decoded. -/
def ofLine? (names? : Option (List String)) (line : List String) : Option Row :=
  match names? with
  | some names => (columns.mapM (valueOf? names line)).bind ofValues?
  | none =>
    ofValues? ((line.take columns.length).map some ++
      List.replicate (columns.length - line.length) none)

end Row

/-- The rows of a table. -/
def rowsOfLines? : List (List Cell) → Option (List Row)
  | [] => some []
  | first :: rest =>
    let names? := first.mapM cellText?
    rest.mapM fun line =>
      if line.length = first.length then (line.mapM cellText?).bind (Row.ofLine? names?)
      else none

/-- The rows in the bytes of a table. -/
def readRows (bytes : List UInt8) : Except Fault (List Row) :=
  match rowsOfLines? (lines (Bytes.Utf8.decode bytes)) with
  | some rows => .ok rows
  | none => .error .notTable

/-- The text of a table; without rows there is no first line either. -/
def renderRows (rows : List Row) : String :=
  if rows.isEmpty then ""
  else String.ofList ((columns :: rows.map Row.cells).flatMap fun line =>
    renderLine (line.map String.toList))

end Csv
end Linguist
