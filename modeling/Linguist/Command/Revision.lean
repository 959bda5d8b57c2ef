import Linguist.Command.Session

/-!
# Commands that revise catalogues

These commands read a catalogue, make another one of it, and write that into the
same file or another.  Whatever can be wrong with what they were given is found out
before anything is written.
-/

namespace Linguist
namespace Command
namespace Action

variable [Bytes.Registry]

/-- Brings a catalogue into another format. -/
def convert (input output : String) (inputFormat? outputFormat? language? : Option String) :
    Action Unit := do
  let bytes ← readFile input
  makeFolders output
  checkLanguage language?
  let inputFormat? ← namedFormat inputFormat?
  let outputFormat? ← namedFormat outputFormat?
  let inputFormat ← inferred inputFormat? input
  let outputFormat ← inferred outputFormat? output
  let c ← orFail .unconverted (inputFormat.read bytes)
  writeAs outputFormat .unconverted output { c with language? := language?.or c.language? }
  say ("✅ Converted " ++ input ++ " -> " ++ output)
where
  /-- The format that is given, or that of a path. -/
  inferred (format? : Option FileFormat) (path : String) : Action FileFormat :=
    match format?.or (FileFormat.ofPath? path) with
    | some format => return format
    | none => throw (.unconverted (.unknownFormat path))

/-- The wording that values make for a message: one text, or the kind of several that
the message has.  The number of values is given if they make none. -/
def wordingFor (m : Message) (values : List String) : Except Nat Wording :=
  match m.isPlural, m.target.wording, values with
  | true, _, values => .ok (.plural values)
  | false, _, [text] => .ok (.plain text)
  | false, .lengths _, first :: second :: rest => .ok (.lengths (first :: second :: rest))
  | false, _, values => .error values.length

/-- The target that a wording makes; one without any text is not finished. -/
def targetFor (unfinished : Bool) (w : Wording) : Target :=
  ⟨if unfinished || w.isEmpty then .unfinished else .finished, w⟩

/-- Sets the target of one message. -/
def edit (input context source : String) (comment? : Option String) (values : List String)
    (unfinished : Bool) (output? : Option String) (dryRun : Bool) : Action Unit := do
  let c ← readCatalogue input
  match c.find? context source comment? with
  | none => throw (.noMessage context source)
  | some m =>
    let target := targetFor unfinished (← orFail .tooManyValues (wordingFor m values))
    let c ← orFail (fun _ => .noMessage context source)
      (c.setTarget context source comment? target)
    let named := Text.quoted source ++ " in context '" ++ context ++ "'"
    if dryRun then
      say ("ℹ\ufe0f Dry run: would mark " ++ named ++ " as " ++ target.status.text)
    else
      let output := output?.getD input
      writeCatalogue output c
      say ("✅ Updated " ++ named ++ " (" ++ target.status.text ++ ")")
      say ("📄 Wrote " ++ output)

/-- Writes a catalogue anew. -/
def normalize (input : String) (output? : Option String) (places : Place.Style) (sort : Bool) :
    Action Unit := do
  let c ← readCatalogue input
  let c := c.normalize places sort
  let output := output?.getD input
  writeCatalogue output c
  say ("📄 Wrote " ++ output ++ " (" ++ number c.messageCount ++ " message(s))")

/-- The remark on a row that no message fits. -/
def unknownRemark (context source : String) : String :=
  "⚠\ufe0f No message " ++ Text.quoted source ++ " in context '" ++ context ++ "'"

/-- Applies a table to a catalogue. -/
def importTable (input table : String) (markFinished : Bool) (output? : Option String) :
    Action Unit := do
  let bytes ← readFile table
  let c ← readCatalogue input
  let rows ← orFail (.unread table) (Csv.readRows bytes)
  let (c, result) := c.importRows markFinished rows
  let report ← orFail (.unapplied table) result
  report.unknown.forM fun (context, source) => remark (unknownRemark context source)
  let output := output?.getD input
  writeCatalogue output c
  say ("✅ Applied " ++ number report.applied ++ " translation(s), " ++
    number report.unchanged ++ " unchanged, " ++ number report.skippedEmpty ++
    " empty row(s) skipped")
  say ("📄 Wrote " ++ output)

end Action
end Command
end Linguist
