import Linguist.Audit
import Linguist.Merge
import Linguist.Toml.Document

/-!
# Settings

What the commands do where the command line says nothing.  Settings come from a
TOML file with a section for each activity; a section or a field that is missing
has its default, and what is not known is passed over.
-/

namespace Linguist

/-- What the commands do where the command line says nothing. -/
structure Settings where
  /-- How much is told about the work itself. -/
  logLevel : String := "warn"
  audit : Audit.Options := {}
  /-- Whether phrasebooks serve unfinished wordings. -/
  includeUnfinished : Bool := false
  merge : Merge.Options := {}
  /-- The context of calls that name none. -/
  defaultContext : String := "QObject"
  deriving DecidableEq, Repr

namespace Settings

open Toml (optional)

/-- Reads a record whose fields are read one by one. -/
def record? {α : Type} (names : List String) (read : List (Option Toml) → Option α)
    (v : Toml) : Option α :=
  (v.fields? names).bind read

/-- The kind of findings of a name. -/
def kind? (v : Toml) : Option Audit.Kind :=
  v.choice?.bind Audit.Kind.ofName?

/-- The style of places of a name. -/
def style? (v : Toml) : Option Place.Style :=
  v.choice?.bind fun name => [Place.Style.relative, .absolute, .none].find? (·.text == name)

/-- Reads the section on log output. -/
def logLevel? : Toml → Option String :=
  record? ["level"] fun
    | [level] => optional "warn" Toml.text? level
    | _ => none

/-- Reads the section on audits. -/
def audit? : Toml → Option Audit.Options :=
  record? ["ignore", "deny_warnings", "check_placeholders"] fun
    | [ignore, deny, check] => do
      return ⟨← optional [] (Toml.list? kind?) ignore, ← optional false Toml.flag? deny,
        ← optional true Toml.flag? check⟩
    | _ => none

/-- Reads the section on phrasebooks. -/
def includeUnfinished? : Toml → Option Bool :=
  record? ["include_unfinished"] fun
    | [unfinished] => optional false Toml.flag? unfinished
    | _ => none

/-- Reads the section on merges. -/
def merge? : Toml → Option Merge.Options :=
  record? ["no_obsolete", "same_text_heuristic", "locations"] fun
    | [drop, suggest, places] => do
      return ⟨← optional false Toml.flag? drop, ← optional true Toml.flag? suggest,
        ← optional .relative style? places⟩
    | _ => none

/-- Reads the section on collecting messages. -/
def defaultContext? : Toml → Option String :=
  record? ["default_context"] fun
    | [context] => optional "QObject" Toml.text? context
    | _ => none

/-- The settings in a table. -/
def ofToml? : Toml → Option Settings :=
  record? ["log", "validate", "translator", "update", "extract"] fun
    | [log, audit, phrases, merge, collect] => do
      return ⟨← optional "warn" logLevel? log, ← optional {} audit? audit,
        ← optional false includeUnfinished? phrases, ← optional {} merge? merge,
        ← optional "QObject" defaultContext? collect⟩
    | _ => none

/-- The settings in the text of a file. -/
def ofText? (s : String) : Option Settings :=
  (Toml.ofText? s).bind ofToml?

end Settings
end Linguist
