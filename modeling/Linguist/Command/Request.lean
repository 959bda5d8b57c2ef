import Linguist.Command.Grammar
import Linguist.Place
import Linguist.Text.Numeral

/-!
# Requests

The command line of the program: a command with its options.  A `Request` is a
command line that has been understood, with every default filled in that does not
depend on the settings.
-/

namespace Linguist
namespace Command

/-- What the program is asked to do. -/
inductive Request where
  /-- Shows the messages of a catalogue. -/
  | view (input : String) (context? status? : Option String) (inFull : Bool)
  /-- Shows how far catalogues are. -/
  | stats (inputs : List String) (asJson : Bool)
  /-- Looks for what is wrong in catalogues. -/
  | validate (inputs : List String) (isStrict asJson : Bool)
  /-- Compares two catalogues. -/
  | diff (before after : String) (asJson : Bool) (output? : Option String)
  /-- Brings a catalogue into another format. -/
  | convert (input output : String) (inputFormat? outputFormat? language? : Option String)
  /-- Sets the target of one message. -/
  | edit (input context source : String) (comment? : Option String) (values : List String)
      (unfinished : Bool) (output? : Option String) (dryRun : Bool)
  /-- Shows the text that a program would show. -/
  | lookup (input source context : String) (comment? : Option String) (count? : Option Int)
      (values : List String) (includeUnfinished : Bool)
  /-- Collects the messages of code in a new catalogue. -/
  | extract (sources : List String) (output : String) (language? defaultContext? : Option String)
      (places? : Option Place.Style)
  /-- Brings a catalogue up to date with code. -/
  | update (sources : List String) (catalogue : String) (language? : Option String)
      (dropVanished : Bool) (places? : Option Place.Style) (asJson : Bool)
  /-- Writes a catalogue anew. -/
  | normalize (input : String) (output? : Option String) (places : Place.Style) (sort : Bool)
  /-- Applies a table to a catalogue. -/
  | importTable (input table : String) (markFinished : Bool) (output? : Option String)
  /-- Asks for a script that completes command lines in a shell; such scripts come
  with the installation, and nothing is printed. -/
  | completions (shell : String)
  deriving Repr

/-- The paths and patterns that a request names. -/
def Request.paths : Request → List String
  | view input _ _ _ => [input]
  | stats inputs _ => inputs
  | validate inputs _ _ => inputs
  | diff before after _ output? => before :: after :: output?.toList
  | convert input output _ _ _ => [input, output]
  | edit input _ _ _ _ _ output? _ => input :: output?.toList
  | lookup input _ _ _ _ _ _ => [input]
  | extract sources output _ _ _ => output :: sources
  | update sources catalogue _ _ _ _ => catalogue :: sources
  | normalize input output? _ _ => input :: output?.toList
  | importTable input table _ output? => input :: table :: output?.toList
  | completions _ => []

/-! ## Options -/

/-- An option that takes no value. -/
def switch (name : String) : Choice := { name, arity := .none }

/-- An option with a value that has to be given. -/
def need (name : String) : Choice := { name, isRequired := true }

/-- An option with a value. -/
def may (name : String) : Choice := { name }

/-- The option with a letter. -/
def Choice.by (c : Choice) (letter : Char) : Choice := { c with letter? := some letter }

/-- The option with any number of values, which has to be given. -/
def someOf (name : String) : Choice :=
  { name, arity := .many, repeats := true, isRequired := true }

/-- Accepts the name of a style of places. -/
def checkStyle : Check := fun s =>
  match Place.Style.ofText? s with
  | .ok _ => none
  | .error _ => some .refusedValue

/-- Accepts an integer of 64 bits. -/
def checkCount : Check := fun s =>
  if (Text.readInt64? s.toList).isSome then none else some .refusedValue

/-- Accepts the name of a shell. -/
def checkShell : Check := fun s =>
  if ["bash", "elvish", "fish", "powershell", "zsh"].contains s then none else some .wrongValue

/-- Options that every command takes, before or after its name. -/
def commonChoices : List Choice := [(switch "verbose").by 'v', may "config", helpChoice]

/-- The input of a command. -/
def inputChoice : Choice := (need "input").by 'i'

/-- The output of a command that can do without. -/
def outputChoice : Choice := (may "output").by 'o'

/-- A style of places. -/
def placesChoice : Choice := { name := "locations", check := checkStyle }

/-- The commands, each with its own options. -/
def commandChoices : List (String × List Choice) := [
  ("view", [inputChoice, may "context", may "state", switch "full"]),
  ("stats", [(someOf "input").by 'i', switch "json"]),
  ("validate", [(someOf "input").by 'i', switch "strict", switch "json"]),
  ("diff", [need "source", need "target", switch "json", outputChoice]),
  ("convert", [inputChoice, (need "output").by 'o', may "input-format", may "output-format",
    (may "lang").by 'l']),
  ("edit", [inputChoice, may "context", need "source", may "comment",
    { name := "value", repeats := true, isRequired := true }, switch "unfinished", outputChoice,
    switch "dry-run"]),
  ("lookup", [inputChoice, need "source", may "context", may "comment",
    { name := "count", letter? := some 'n', takesNegative := true, check := checkCount },
    { name := "arg", repeats := true }, switch "include-unfinished"]),
  ("extract", [someOf "sources", (need "output").by 'o', (may "language").by 'l',
    may "default-context", placesChoice]),
  ("update", [someOf "sources", need "ts", (may "language").by 'l', switch "no-obsolete",
    placesChoice, switch "json"]),
  ("normalize", [inputChoice, outputChoice, placesChoice, switch "sort"]),
  ("import", [inputChoice, need "csv", switch "mark-finished", outputChoice]),
  ("completions", [])]

/-- The word that the command on completions takes. -/
def operandOf (command : String) : Option Choice :=
  if command = "completions" then
    some { name := "shell", isRequired := true, check := checkShell }
  else none

/-- What may be given after the name of a command. -/
def commandLevel (command : String) (own : List Choice) : Level where
  choices := own ++ commonChoices
  operand? := operandOf command

/-- What may be given before the name of a command. -/
def topLevel : Level where
  choices := commonChoices ++ [versionChoice]
  commands := commandChoices.map (·.1) ++ ["help"]

/-! ## Help -/

/-- How an option is written. -/
def Choice.usage (c : Choice) : String :=
  let written := "--" ++ c.name ++ match c.arity with
    | .none => ""
    | .one => " <value>"
    | .many => " <value>..."
  if c.isRequired then written else "[" ++ written ++ "]"

/-- How a command is written. -/
def commandUsage (command : String) (own : List Choice) : String :=
  String.intercalate " " <|
    command :: own.map Choice.usage ++ (operandOf command).toList.map fun c => "<" ++ c.name ++ ">"

/-- How a command line is written. -/
def usageText : String :=
  String.intercalate "\n" <|
    ("Usage: " ++ String.intercalate " " (commonChoices.map Choice.usage) ++ " <command>, one of") ::
      commandChoices.map fun (command, own) => "  " ++ commandUsage command own

/-! ## Understanding -/

/-- The request for a command with the options given.  What has to be given has been
checked to be there. -/
def request (command : String) (g : Given) : Option Request := do
  let places? := (g.value? "locations").bind fun s => (Place.Style.ofText? s).toOption
  match command with
  | "view" =>
    return .view (← g.value? "input") (g.value? "context") (g.value? "state") (g.has "full")
  | "stats" => return .stats (g.values "input") (g.has "json")
  | "validate" => return .validate (g.values "input") (g.has "strict") (g.has "json")
  | "diff" =>
    return .diff (← g.value? "source") (← g.value? "target") (g.has "json") (g.value? "output")
  | "convert" =>
    return .convert (← g.value? "input") (← g.value? "output") (g.value? "input-format")
      (g.value? "output-format") (g.value? "lang")
  | "edit" =>
    return .edit (← g.value? "input") ((g.value? "context").getD "QObject")
      (← g.value? "source") (g.value? "comment") (g.values "value") (g.has "unfinished")
      (g.value? "output") (g.has "dry-run")
  | "lookup" =>
    return .lookup (← g.value? "input") (← g.value? "source")
      ((g.value? "context").getD "QObject") (g.value? "comment")
      (((g.value? "count").bind fun s => Text.readInt64? s.toList).map Int64.toInt)
      (g.values "arg") (g.has "include-unfinished")
  | "extract" =>
    return .extract (g.values "sources") (← g.value? "output") (g.value? "language")
      (g.value? "default-context") places?
  | "update" =>
    return .update (g.values "sources") (← g.value? "ts") (g.value? "language")
      (g.has "no-obsolete") places? (g.has "json")
  | "normalize" =>
    return .normalize (← g.value? "input") (g.value? "output") (places?.getD .relative)
      (g.has "sort")
  | "import" =>
    return .importTable (← g.value? "input") (← g.value? "csv") (g.has "mark-finished")
      (g.value? "output")
  | "completions" => return .completions (← g.value? "shell")
  | _ => none

/-- A request, and the file of settings that was named. -/
structure Invocation where
  request : Request
  settings? : Option String
  deriving Repr

/-- Whether help on a command was asked for in a known way: the words name no more
than one command. -/
def helpFault : List String → UsageFault
  | [] => .help
  | [command] => if topLevel.commands.contains command then .help else .unknownCommand
  | _ => .unknownCommand

/-- Understands the words of a command line.  A file of settings that is named after
the command counts more than one before it. -/
def understand (words : List String) : Except UsageFault Invocation := do
  match ← Reading.readWords topLevel {} words with
  | (r, none) =>
    let r ← r.settle
    .error (if r.given.isEmpty then .nothingGiven else .noCommand)
  | (r, some (command, rest)) =>
    if command = "help" then .error (helpFault rest)
    else
      let own := ((commandChoices.find? (·.1 == command)).map (·.2)).getD []
      let g ← (commandLevel command own).read rest
      let top ← r.finish topLevel
      match request command g with
      | some request => return ⟨request, (g.value? "config").or (top.value? "config")⟩
      | none => .error .missing

end Command
end Linguist
