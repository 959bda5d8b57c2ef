import Linguist.Command.Overview
import Linguist.Command.Reports
import Linguist.Phrasebook

/-!
# Commands that answer questions

These commands read catalogues and print what they find.  Only a comparison can be
written to a file, on demand; the others leave the disk as it is.

A command on many catalogues reads all of them before it prints anything.
-/

namespace Linguist
namespace Command
namespace Action

variable [Bytes.Registry] [Text.Measure]

/-- Says every line. -/
def sayLines (lines : List String) : Action Unit :=
  lines.forM say

/-- The catalogues in the files that paths and patterns stand for, with the paths. -/
def readAll (inputs : List String) : Action (List (String × Catalogue)) := do
  (← findSources inputs).mapM fun file => return (file, ← readCatalogue file)

/-- Shows the messages of a catalogue.  It is a failure if there are none. -/
def view (input : String) (context? status? : Option String) (inFull : Bool) : Action Unit := do
  let c ← readCatalogue input
  let status? ← status?.mapM fun name => orFail .badStatus (Status.ofText? name)
  let overview : Overview := { context?, status?, inFull }
  sayLines (overview.lines c)
  if overview.isEmpty c then throw .nothingShown

/-- Shows how far catalogues are. -/
def stats (inputs : List String) (asJson : Bool) : Action Unit := do
  let reports := (← readAll inputs).map fun (file, c) => (file, Progress.Report.ofCatalogue c)
  if asJson then
    say (Json.wideText (.object [("files", .array (reports.map fun (file, r) =>
      .object [("file", .string file), ("stats", r.toJson)]))]))
  else
    say (String.intercalate "\n\n" (reports.map fun (file, r) => progressText file r))

/-- Looks for what is wrong in catalogues.  It is a failure if an audit fails. -/
def validate (options : Audit.Options) (inputs : List String) (isStrict asJson : Bool) :
    Action Unit := do
  let options := { options with denyWarnings := options.denyWarnings || isStrict }
  let reports := (← readAll inputs).map fun (file, c) => (file, Audit.run options c)
  if asJson then
    say (Json.wideText (.object [("files", .array (reports.map fun (file, r) =>
      auditRecord file r))]))
  else
    sayLines (reports.map fun (file, r) => auditText file r)
  match reports.countP (·.2.hasErrors) with
  | 0 => return
  | failed => throw (.auditFailed failed)

/-- Compares two catalogues, and prints or writes the difference. -/
def diff (before after : String) (asJson : Bool) (output? : Option String) : Action Unit := do
  output?.forM makeFolders
  let report := Comparison.Report.ofCatalogues (← readCatalogue before) (← readCatalogue after)
  let text := if asJson then report.toJson.wideText else comparisonText report
  match output? with
  | none => say text
  | some output => writeFile (.blocked output) output (Bytes.ofText (text ++ "\n"))

/-- The text that a program would show, the source where nothing else is known. -/
def served (b : Phrasebook) (context source : String) (comment? : Option String)
    (count? : Option Int) (values : List String) : String :=
  let text := match count? with
    | some n => (b.countedText? context source comment? n).getD (Template.fillCount source n)
    | none => (b.text? context source comment?).getD source
  if values.isEmpty then text else Template.fillAll text values

/-- Shows the text that a program would show. -/
def lookup (includeUnfinished : Bool) (input source context : String)
    (comment? : Option String) (count? : Option Int) (values : List String) : Action Unit := do
  let b := Phrasebook.ofCatalogue includeUnfinished (← readCatalogue input)
  say (served b context source comment? count? values)

end Action
end Command
end Linguist
