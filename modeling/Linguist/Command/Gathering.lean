import Linguist.Collection
import Linguist.Command.Reports

/-!
# Commands that gather messages from code

Source files are read in the order of their paths and scanned for calls.  Places are
written as seen from the folder of the catalogue, so that the two can be moved
together.  Bytes that are no text do not hinder a scan.
-/

namespace Linguist
namespace Command
namespace Action

variable [Bytes.Registry]

/-- The folder of a file. -/
def folderOf (path : String) : Path :=
  ((Path.ofText path).parent?).getD ⟨false, []⟩

/-- The code in a file, with the place of the file as seen from a folder. -/
def readCode (base : Path) (file : String) : Action (String × String) := do
  let bytes ← readFile file
  let label := Path.location (← get).disk.directory base (Path.ofText file)
  return (label, String.ofList (Bytes.Utf8.decodeLenient bytes))

/-- The messages of the code in some files. -/
def collect (base : Path) (defaultContext : String) (files : List String) : Action Catalogue := do
  return Collection.ofFiles defaultContext (← files.mapM (readCode base))

/-- Collects the messages of code in a new catalogue. -/
def extract (settings : Settings) (sources : List String) (output : String)
    (language? defaultContext? : Option String) (places? : Option Place.Style) :
    Action Unit := do
  checkLanguage language?
  makeFolders output
  let files ← findSources sources
  let extracted ←
    collect (folderOf output) (defaultContext?.getD settings.defaultContext) files
  let options := { settings.merge with places := places?.getD settings.merge.places }
  let (c, report) := Merge.merge options { language? } extracted
  writeCatalogue output c
  say ("✅ Extracted " ++ number report.added ++ " message(s) from " ++ number files.length ++
    " file(s) into " ++ output)

/-- The catalogue in a file, or an empty one if nothing is there. -/
def readOrBegin (path : String) : Action Catalogue := do
  if ((← get).disk.entry? path).isSome then readCatalogue path else return .empty

/-- Brings a catalogue up to date with code. -/
def update (settings : Settings) (sources : List String) (catalogue : String)
    (language? : Option String) (dropVanished : Bool) (places? : Option Place.Style)
    (asJson : Bool) : Action Unit := do
  checkLanguage language?
  let files ← findSources sources
  let c ← readOrBegin catalogue
  let extracted ← collect (folderOf catalogue) settings.defaultContext files
  let options := { settings.merge with
    dropVanished := dropVanished || settings.merge.dropVanished
    places := places?.getD settings.merge.places }
  let (c, report) := Merge.merge options { c with language? := c.language?.or language? } extracted
  writeCatalogue catalogue c
  say (if asJson then report.toJson.wideText else mergeText catalogue report)

end Action
end Command
end Linguist
