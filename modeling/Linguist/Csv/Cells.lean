import Linguist.Bytes.Utf8

/-!
# Tables as text

A table is a list of lines of cells.  Cells are separated by commas and lines end
at a line feed or a carriage return; a cell that begins with a quote runs to its
closing quote and may hold all of these, and a quote inside it is doubled.

## Reading

Reading goes through the text once and refuses nothing: lines without any
character are no lines, what follows a closing quote belongs to the cell, and a
cell that is still open at the end of the text is closed there.  Input comes with
holes for undecodable bytes; a cell keeps its holes, and the cell's reader decides
about them.

## Writing

A cell is quoted only if it holds a comma, a quote or a line end.
-/

namespace Linguist
namespace Csv

/-- The text of a cell, with holes for undecodable bytes. -/
abbrev Cell := List (Option Char)

/-- Where the reader stands. -/
inductive Position where
  | lineStart
  | cellStart
  | bare
  | quoted
  | afterQuote
  deriving DecidableEq, Repr

/-- Whether a character ends a line. -/
def isLineEnd (c : Option Char) : Bool :=
  c == some '\n' || c == some '\r'

/-- The lines of a text, after the cells of the current line and the characters of
the current cell, both last first. -/
def readLines : Position → List Cell → Cell → List (Option Char) → List (List Cell)
  | .lineStart, _, _, [] => []
  | _, cells, cell, [] => [(cell.reverse :: cells).reverse]
  | .quoted, cells, cell, c :: rest =>
    if c = some '"' then readLines .afterQuote cells cell rest
    else readLines .quoted cells (c :: cell) rest
  | .lineStart, cells, cell, c :: rest =>
    if isLineEnd c then readLines .lineStart cells cell rest
    else if c = some '"' then readLines .quoted cells cell rest
    else if c = some ',' then readLines .cellStart (cell.reverse :: cells) [] rest
    else readLines .bare cells (c :: cell) rest
  | position, cells, cell, c :: rest =>
    if isLineEnd c then (cell.reverse :: cells).reverse :: readLines .lineStart [] [] rest
    else if c = some ',' then readLines .cellStart (cell.reverse :: cells) [] rest
    else if c = some '"' ∧ position = .cellStart then readLines .quoted cells cell rest
    else if c = some '"' ∧ position = .afterQuote then readLines .quoted cells (c :: cell) rest
    else readLines .bare cells (c :: cell) rest

/-- The lines of a text, a byte order mark at its beginning left out. -/
def lines : List (Option Char) → List (List Cell)
  | some '\ufeff' :: rest => readLines .lineStart [] [] rest
  | cs => readLines .lineStart [] [] cs

/-- The text of a cell without holes. -/
def cellText? (cell : Cell) : Option String :=
  (cell.mapM id).map String.ofList

/-- Whether a cell has to be quoted. -/
def needsQuotes (cs : List Char) : Bool :=
  cs.any fun c => c == ',' || c == '"' || c == '\n' || c == '\r'

/-- The written form of a cell. -/
def renderCell (cs : List Char) : List Char :=
  if needsQuotes cs then
    '"' :: (cs.flatMap fun c => if c = '"' then ['"', '"'] else [c]) ++ ['"']
  else cs

/-- The cells after the first of a line, and the end of the line. -/
def renderCells : List (List Char) → List Char
  | [] => ['\n']
  | cell :: rest => ',' :: renderCell cell ++ renderCells rest

/-- The written form of a line. -/
def renderLine : List (List Char) → List Char
  | [] => ['\n']
  | cell :: rest => renderCell cell ++ renderCells rest

end Csv
end Linguist
