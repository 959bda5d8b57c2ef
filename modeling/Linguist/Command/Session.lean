import Linguist.Bytes.Utf8
import Linguist.Disk.Search
import Linguist.FileFormat
import Linguist.LanguageTag
import Linguist.Settings

/-!
# Sessions

A command works in a session.  It finds files on a disk and writes some, prints its
results line by line, and makes remarks that are no part of them.  An action is one
piece of such work; it succeeds with a value or fails for a cause.

## What survives a failure

An action that fails takes nothing back: what was printed stays printed, and folders
that were made stay.  So a command that writes a file does it as the last thing that
can fail.

## Where catalogues are read and written

The extension of a path says the format; a path whose extension names none is one of
a markup file.  Before a file is written, the folders on the way are made.
-/

namespace Linguist
namespace Command

/-- Why a command fails. -/
inductive Failure where
  | noFile (path : String)
  | notFile (path : String)
  | noOutputFolder
  | emptyLanguage
  | badLanguage (code : String)
  | badFormat (fault : Fault)
  | unread (path : String) (fault : Fault)
  | unwritten (path : String) (fault : Fault)
  | blocked (path : String) (obstacle : Obstacle)
  | unconverted (fault : Fault)
  | unapplied (table : String) (fault : Fault)
  | badPattern (pattern : String)
  | nothingFound (pattern : String)
  | badStatus (fault : Fault)
  | nothingShown
  | noMessage (context source : String)
  | tooManyValues (count : Nat)
  | auditFailed (count : Nat)
  | noSettings (path : String)
  | unreadSettings (path : String) (obstacle : Obstacle)
  | badSettings
  deriving DecidableEq, Repr

/-- A number in running text. -/
def number (n : Nat) : String :=
  String.ofList (Text.decimal n)

/-- The wording of a failure. -/
def Failure.message : Failure → String
  | noFile path => "File does not exist: " ++ path
  | notFile path => "Path is not a file: " ++ path
  | noOutputFolder => "Cannot create output directory"
  | emptyLanguage => "Language code cannot be empty"
  | badLanguage code =>
    "Invalid language code format: " ++ code ++ ". Expected a language like ja_JP or pt-BR"
  | badFormat fault => fault.message ++ ". Supported formats: ts, csv, json"
  | unread path fault => "Failed to read " ++ path ++ ": " ++ fault.message
  | unwritten path fault => "Failed to write " ++ path ++ ": " ++ fault.message
  | blocked path obstacle => "Failed to write " ++ path ++ ": " ++ obstacle.message
  | unconverted fault => "Conversion failed: " ++ fault.message
  | unapplied table fault => "Failed to apply " ++ table ++ ": " ++ fault.message
  | badPattern pattern => "Invalid glob pattern '" ++ pattern ++ "'"
  | nothingFound pattern => "Pattern matched no files: " ++ pattern
  | badStatus fault => fault.message
  | nothingShown => "No messages found"
  | noMessage context source =>
    "Message not found in context '" ++ context ++ "': " ++ Text.quoted source
  | tooManyValues count =>
    "Message is not numerus; expected a single --value, got " ++ number count
  | auditFailed count => "Validation failed for " ++ number count ++ " file(s)"
  | noSettings path => "Config file does not exist: " ++ path
  | unreadSettings path obstacle => "Failed to read " ++ path ++ ": " ++ obstacle.message
  | badSettings => "Failed to parse config"

/-- A disk, with what a command has said so far. -/
structure Session where
  disk : Disk
  output : String := ""
  notes : String := ""
  deriving DecidableEq, Repr

/-- A piece of work in a session. -/
abbrev Action := EStateM Failure Session

namespace Action

/-- Prints a line. -/
def say (line : String) : Action Unit :=
  modify fun s => { s with output := s.output ++ line ++ "\n" }

/-- Makes a remark. -/
def remark (line : String) : Action Unit :=
  modify fun s => { s with notes := s.notes ++ line ++ "\n" }

/-- The value of a result, or a failure for its fault. -/
def orFail {ε α : Type} (failure : ε → Failure) : Except ε α → Action α
  | .ok a => return a
  | .error e => throw (failure e)

/-! ## Reading -/

/-- The bytes of a file. -/
def readFile (path : String) : Action (List UInt8) := do
  match (← get).disk.entry? path with
  | none => throw (.noFile path)
  | some .folder => throw (.notFile path)
  | some (.file bytes) => return bytes

/-- The format of the file at a path. -/
def formatOf (path : String) : FileFormat :=
  (FileFormat.ofPath? path).getD .ts

/-- The catalogue in a file. -/
def readCatalogue [Bytes.Registry] (path : String) : Action Catalogue := do
  orFail (.unread path) ((formatOf path).read (← readFile path))

/-- The files that paths and patterns stand for. -/
def findSources (inputs : List String) : Action (List String) := do
  orFail
    (fun
      | .noFile path => .noFile path
      | .badPattern pattern => .badPattern pattern
      | .nothingFound pattern => .nothingFound pattern)
    ((← get).disk.findFiles inputs)

/-- Where settings are looked for that nobody names. -/
def settingsPath : String := "tscodec.toml"

/-- The settings in the bytes of a file. -/
def settingsOf (path : String) : Disk.Entry → Except Failure Settings
  | .folder => .error (.unreadSettings path .isFolder)
  | .file bytes =>
    match Bytes.Utf8.decode? bytes with
    | none => .error (.unreadSettings path .notText)
    | some cs =>
      match Settings.ofText? (String.ofList cs) with
      | none => .error .badSettings
      | some settings => .ok settings

/-- The settings of a session.  A file that is named has to be there; without the
file that nobody has to name everything has its default. -/
def readSettings (path? : Option String) : Action Settings := do
  let path := path?.getD settingsPath
  match (← get).disk.entry? path, path? with
  | some entry, _ => orFail id (settingsOf path entry)
  | none, some path => throw (.noSettings path)
  | none, none => return {}

/-! ## Writing -/

/-- Makes the folders on the way to a file. -/
def makeFolders (path : String) : Action Unit := do
  let (disk, isWhole) := (← get).disk.makeParent path
  modify fun s => { s with disk }
  if !isWhole then throw .noOutputFolder

/-- Writes a file into a folder that is there. -/
def writeFile (failure : Obstacle → Failure) (path : String) (bytes : List UInt8) :
    Action Unit := do
  let disk ← orFail failure ((← get).disk.write path bytes)
  modify fun s => { s with disk }

/-- Writes a catalogue in a format. -/
def writeAs (format : FileFormat) (failure : Fault → Failure) (path : String) (c : Catalogue) :
    Action Unit :=
  writeFile (fun _ => failure .unreachable) path (Bytes.ofText (format.render c))

/-- Writes a catalogue. -/
def writeCatalogue (path : String) (c : Catalogue) : Action Unit := do
  makeFolders path
  writeAs (formatOf path) (.unwritten path) path c

/-! ## Checking -/

/-- Checks the code of a language that is given. -/
def checkLanguage : Option String → Action Unit
  | none => return
  | some code =>
    if code.isEmpty then throw .emptyLanguage
    else if (LanguageTag.ofText? code).isNone then throw (.badLanguage code)
    else return

/-- The format of a name that is given. -/
def namedFormat (name? : Option String) : Action (Option FileFormat) :=
  name?.mapM fun name => orFail .badFormat (FileFormat.ofName name)

end Action
end Command
end Linguist
