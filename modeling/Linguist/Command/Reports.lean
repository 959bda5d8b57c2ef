import Linguist.Audit
import Linguist.Command.Session
import Linguist.Comparison
import Linguist.Merge
import Linguist.Progress

/-!
# Reports for readers

What the commands find out is printed as text or as JSON.  This module has the text:
lines, the first of which is a title, and indented lines for details.  Texts of
messages are brought on one line each, so that a line of a report is a line on the
screen.
-/

namespace Linguist
namespace Command

/-- Lines as one text. -/
def joinLines : List String → String :=
  String.intercalate "\n"

/-! ## Progress -/

/-- A percentage with two places. -/
def percentage (n : Progress.Counts) : String :=
  Progress.fixedText n.hundredths ++ "%"

/-- How far a context is. -/
def contextProgress (context : String) (n : Progress.Counts) : String :=
  "  " ++ context ++ ": " ++ number n.finished ++ "/" ++ number n.active ++
    " (" ++ percentage n ++ ")"

/-- How far the catalogue in a file is; contexts are listed if there are several. -/
def progressText (file : String) (r : Progress.Report) : String :=
  joinLines <| [
    "=== Stats ===",
    "File: " ++ file,
    "Language: " ++ r.language?.getD "-",
    "Total: " ++ number r.summary.total,
    "  finished: " ++ number r.summary.finished,
    "  unfinished: " ++ number r.summary.unfinished,
    "  vanished: " ++ number r.summary.vanished,
    "  obsolete: " ++ number r.summary.obsolete,
    "Completion: " ++ percentage r.summary] ++
    if 1 < r.contexts.length then r.contexts.map fun (name, n) => contextProgress name n else []

/-! ## Audits -/

/-- What is wrong with the catalogue in a file. -/
def auditText (file : String) (r : Audit.Report) : String :=
  if r.findings.isEmpty then "✅ " ++ file ++ ": no issues"
  else
    joinLines <|
      ((if r.hasErrors then "❌" else "⚠\ufe0f") ++ " " ++ file ++ ": " ++
        number (r.count .error) ++ " error(s), " ++ number (r.count .warning) ++ " warning(s)") ::
      r.findings.map fun f => "  " ++ f.severity.name ++ ": " ++ f.text

/-- The audit of a file as a record. -/
def auditRecord (file : String) (r : Audit.Report) : Json :=
  .object [("file", .string file), ("issues", .array (r.findings.map Audit.Finding.toJson)),
    ("ok", .bool (!r.hasErrors))]

/-! ## Comparisons -/

/-- How a message is named in a comparison. -/
def keyText (key : Message.Key) : String :=
  "\"" ++ Text.onOneLine key.source ++ "\"" ++
    if key.comment.isEmpty then "" else " (" ++ key.comment ++ ")"

/-- A target on one line. -/
def targetText (t : Target) : String :=
  "[" ++ t.status.text ++ "] '" ++ Text.onOneLine t.wording.text ++ "'"

/-- What became of the messages of a context, after a blank line. -/
def changesLines (d : Comparison.ContextChanges) : List String :=
  ["",
    "Context: " ++ d.context,
    "  added: " ++ number d.added.length,
    "  removed: " ++ number d.removed.length,
    "  changed: " ++ number d.changed.length,
    "  unchanged: " ++ number d.unchanged] ++
    (d.added.map fun key => "  + " ++ keyText key) ++
    (d.removed.map fun key => "  - " ++ keyText key) ++
    d.changed.map fun c =>
      "  ~ " ++ keyText c.key ++ ": " ++ targetText c.before ++ " -> " ++ targetText c.after

/-- What the difference between two catalogues is. -/
def comparisonText (r : Comparison.Report) : String :=
  joinLines <| [
    "=== Diff ===",
    "Contexts: " ++ number r.contexts.length,
    "Totals: added=" ++ number r.added ++ ", removed=" ++ number r.removed ++ ", changed=" ++
      number r.changed ++ ", unchanged=" ++ number r.unchanged] ++
    r.contexts.flatMap changesLines

/-! ## Merges -/

/-- What became of the messages of a catalogue. -/
def mergeText (file : String) (r : Merge.Report) : String :=
  joinLines [
    "=== Update: " ++ file ++ " ===",
    "kept: " ++ number r.kept,
    "added: " ++ number r.added,
    "revived: " ++ number r.revived,
    "same text: " ++ number r.sameText,
    "vanished: " ++ number r.vanished,
    "pruned: " ++ number r.pruned]

end Command
end Linguist
