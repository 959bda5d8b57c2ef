/-!
# TOML values

Settings are kept in TOML.  A number and a date keep their written form, since no
setting is one; a table keeps its entries in the order in which they came.

## How a table came to be

A table may be written in several pieces, and what may still be added to it
depends on how it came to be.  A header names it and closes the matter: the table
may not be named again.  A header of a deeper table only implies it, and then its
own header may still follow.  A dotted key makes tables that other dotted keys of
the same table may fill.  An inline table is complete as it stands.

## Records

A record is written as a table or as the array of its fields in their order; what
stands in the array beyond the last field is not looked at.  A date is read as a
table that has none of the fields.
-/

namespace Linguist

/-- How a table came to be. -/
inductive Toml.Origin where
  | inline
  | header
  | implied
  | dotted
  deriving DecidableEq, Repr

/-- A TOML value; the items of `tables` are the tables of a repeated header, last
first. -/
inductive Toml where
  | text (s : String)
  | flag (b : Bool)
  | number (literal : String)
  | date (literal : String)
  | array (items : List Toml)
  | table (origin : Toml.Origin) (entries : List (String × Toml))
  | tables (items : List (List (String × Toml)))
  deriving Repr

namespace Toml

/-- The entries of a table. -/
abbrev Entries := List (String × Toml)

/-- The entries with one replaced. -/
def replace (key : String) (v : Toml) (entries : Entries) : Entries :=
  entries.map fun entry => if entry.1 = key then (key, v) else entry

/-! ## Adding to a table -/

/-- Changes the entries of the table at the end of a path, with the tables on the
way made where there are none.  A path of a header passes through any table and
through the last one of a repeated header; a path of a dotted key passes only
through tables that no header has named. -/
def changeAt (way : Origin) (change : Origin → Entries → Option Entries) :
    List String → Origin → Entries → Option Entries
  | [], origin, entries => change origin entries
  | key :: path, _, entries =>
    match entries.lookup key with
    | none =>
      (changeAt way change path way []).map fun sub => entries ++ [(key, .table way sub)]
    | some (.table .inline _) => none
    | some (.table origin sub) =>
      if way = .dotted ∧ origin = .header then none
      else (changeAt way change path origin sub).map fun sub =>
        replace key (.table origin sub) entries
    | some (.tables (last :: before)) =>
      (changeAt way change path .header last).map fun last =>
        replace key (.tables (last :: before)) entries
    | some _ => none

/-- Gives a value to a dotted key of a table.  Each key gets one value, and a key
of several parts ends in a table that dotted keys have made. -/
def assign (path : List String) (v : Toml) (origin : Origin) (entries : Entries) :
    Option Entries :=
  match path.getLast? with
  | none => none
  | some key =>
    changeAt .dotted (fun origin entries =>
      if (origin = .dotted ↔ path.length = 1) ∨ (entries.lookup key).isSome then none
      else some (entries ++ [(key, v)])) path.dropLast origin entries

/-- Names the table at the end of a path; only an implied one may be there. -/
def open? (path : List String) (entries : Entries) : Option Entries :=
  match path.getLast? with
  | none => none
  | some key =>
    changeAt .implied (fun _ entries =>
      match entries.lookup key with
      | none => some (entries ++ [(key, .table .header [])])
      | some (.table .implied sub) => some (replace key (.table .header sub) entries)
      | some _ => none) path.dropLast .header entries

/-- Adds a table to the tables at the end of a path. -/
def openNext? (path : List String) (entries : Entries) : Option Entries :=
  match path.getLast? with
  | none => none
  | some key =>
    changeAt .implied (fun _ entries =>
      match entries.lookup key with
      | none => some (entries ++ [(key, .tables [[]])])
      | some (.tables items) => some (replace key (.tables ([] :: items)) entries)
      | some _ => none) path.dropLast .header entries

/-! ## Reading a value -/

/-- The text of a string. -/
def text? : Toml → Option String
  | .text s => some s
  | _ => none

/-- The value of a Boolean. -/
def flag? : Toml → Option Bool
  | .flag b => some b
  | _ => none

/-- The items of an array. -/
def items? : Toml → Option (List Toml)
  | .array items => some items
  | .tables items => some (items.reverse.map (.table .header))
  | _ => none

/-- The list that an array stands for. -/
def list? {α : Type} (read : Toml → Option α) (v : Toml) : Option (List α) :=
  v.items?.bind (·.mapM read)

/-- The name of a choice: a string, or the only key of a table whose value is an
empty table. -/
def choice? : Toml → Option String
  | .text name => some name
  | .table _ [(name, .table _ [])] => some name
  | _ => none

/-- The values given for the fields of a record, in the order of the fields. -/
def fields? (names : List String) : Toml → Option (List (Option Toml))
  | .table _ entries => some (names.map fun name => entries.lookup name)
  | .date _ => some (names.map fun _ => none)
  | v => v.items?.map fun items =>
    (items.take names.length).map some ++ List.replicate (names.length - items.length) none

/-- Reads a field with a default. -/
def optional {α : Type} (default : α) (read : Toml → Option α) : Option Toml → Option α
  | some v => read v
  | none => some default

end Toml
end Linguist
