import Linguist.Fault

/-!
# Paths

A path is text with slashes, read as a list of parts.  Repeated slashes and a `.`
between others mean nothing; a `.` at the beginning of a relative path is kept,
since it says that the path is relative.  Paths that have equal parts are the same
path.

## Normal form

The normal form of a path is a list of names from the root.  It is found without
looking at any file: `..` takes back the name before it, and at the root it stays
there.  Relative paths start from the names of a directory that is given.

## From one place to another

The relative location of a path goes up from the base to the deepest directory
that both share, and then down.
-/

namespace Linguist

/-- A part of a path. -/
inductive Part where
  | here
  | up
  | name (s : String)
  deriving DecidableEq, Repr

/-- The order of parts: first those that are no names. -/
def Part.order : Part → Part → Ordering
  | here, here => .eq
  | here, _ => .lt
  | up, here => .gt
  | up, up => .eq
  | up, name _ => .lt
  | name a, name b => compare a b
  | name _, _ => .gt

/-- A path as its parts. -/
structure Path where
  isAbsolute : Bool
  parts : List Part
  deriving DecidableEq, Repr

namespace Path

/-- The order of paths, part by part; absolute paths come first. -/
def order (a b : Path) : Ordering :=
  match a.isAbsolute, b.isAbsolute with
  | true, false => .lt
  | false, true => .gt
  | _, _ => orderParts a.parts b.parts
where
  /-- The order of lists of parts. -/
  orderParts : List Part → List Part → Ordering
    | [], [] => .eq
    | [], _ :: _ => .lt
    | _ :: _, [] => .gt
    | p :: ps, q :: qs => (p.order q).then (orderParts ps qs)

/-- The part that a text between slashes stands for. -/
def partOf? (s : List Char) : Option Part :=
  if s.isEmpty || s == ['.'] then none
  else if s == ['.', '.'] then some .up
  else some (.name (String.ofList s))

/-- The path that a text denotes. -/
def ofText (s : String) : Path :=
  let segments := s.toList.splitOn '/'
  let parts := segments.filterMap partOf?
  if s.toList.head? = some '/' then ⟨true, parts⟩
  else ⟨false, if segments.head? = some ['.'] then .here :: parts else parts⟩

/-- The steps that a text asks for, one for each segment; an empty segment is a step
that stays. -/
def steps (s : String) : List Part :=
  (s.toList.splitOn '/').map fun segment => (partOf? segment).getD .here

/-- The text of a path with one more name. -/
def join (path name : String) : String :=
  if path.isEmpty then name
  else if path.toList.getLast? = some '/' then path ++ name
  else path ++ "/" ++ name

/-- The path without its last part; the root and the empty path have none. -/
def parent? (p : Path) : Option Path :=
  if p.parts.isEmpty then none else some { p with parts := p.parts.dropLast }

/-- The name at the end of the path, if it ends with a name. -/
def fileName? (p : Path) : Option String :=
  match p.parts.getLast? with
  | some (.name s) => some s
  | _ => none

/-- What follows the last dot of the name at the end, if the dot does not begin
the name. -/
def extension? (p : Path) : Option String :=
  p.fileName?.bind fun name =>
    match (name.toList.splitOn '.').reverse with
    | last :: second :: more =>
      if second.isEmpty && more.isEmpty then none else some (String.ofList last)
    | _ => none

/-- The names reached from a directory by following the parts. -/
def follow (names : List String) (parts : List Part) : List String :=
  parts.foldl (fun names part =>
    match part with
    | .here => names
    | .up => names.dropLast
    | .name s => names ++ [s]) names

/-- The names from the root, relative paths starting from a directory. -/
def normal (directory : List String) (p : Path) : List String :=
  follow (if p.isAbsolute then [] else directory) p.parts

/-- The way from the names of a directory to others: up, then down. -/
def between : List String → List String → List String
  | a :: base, b :: target =>
    if a = b then between base target
    else List.replicate (base.length + 1) ".." ++ b :: target
  | base, target => List.replicate base.length ".." ++ target

/-- The location of a path as seen from a base, both relative to a directory. -/
def location (directory : List String) (base path : Path) : String :=
  String.intercalate "/" (between (base.normal directory) (path.normal directory))

/-- The location of a path as seen from a base, unless one of them has no text. -/
def relativeLocation (directory : List String) (path base : String) : Except Fault String :=
  if path.isEmpty || base.isEmpty then .error .unreachable
  else .ok (location directory (ofText base) (ofText path))

end Path
end Linguist
