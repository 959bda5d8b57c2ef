import Linguist.Catalogue.Elements
import Linguist.Catalogue.Json
import Linguist.Catalogue.OfElements
import Linguist.Catalogue.Rows
import Linguist.Path

/-!
# File formats

A catalogue is kept in one of three formats: its own markup, the table for human
workers, and JSON.  A file name says by its extension which one it is.
-/

namespace Linguist

/-- A format of catalogue files. -/
inductive FileFormat where
  | ts
  | csv
  | json
  deriving DecidableEq, Repr

namespace FileFormat

/-- The name of the format, which is its extension as well. -/
def extension : FileFormat → String
  | ts => "ts"
  | csv => "csv"
  | json => "json"

/-- The format of a name. -/
def ofName (s : String) : Except Fault FileFormat :=
  match Text.keyword s with
  | "ts" | "linguist" => .ok ts
  | "csv" => .ok csv
  | "json" => .ok json
  | other => .error (.unknownFormat other)

/-- The format that the extension of a path names. -/
def ofPath? (path : String) : Option FileFormat :=
  (Path.ofText path).extension?.bind fun s => (ofName s).toOption

/-- The catalogue in the bytes of a file. -/
def read [Bytes.Registry] : FileFormat → List UInt8 → Except Fault Catalogue
  | ts, bytes => Catalogue.ofFile bytes
  | csv, bytes => (Csv.readRows bytes).bind (Catalogue.ofRows none)
  | json, bytes => Catalogue.ofJsonFile bytes

/-- The text of a file with the catalogue. -/
def render : FileFormat → Catalogue → String
  | ts, c => c.fileText
  | csv, c => Csv.renderRows c.toRows
  | json, c => c.jsonText

end FileFormat
end Linguist
