import Linguist.Disk
import Linguist.Disk.Wildcard

/-!
# Finding files

The commands that take many files accept paths and patterns.  A path has to lead to
a file, and a pattern has to find at least one.  All files together are listed in
the order of their paths, each path once; how a path is written is taken from where
it came first.

## Following a pattern

A pattern is followed segment by segment.  A name is added to the path without
looking at other files; any other segment goes through what is in the folder.  What
is found in the working directory itself is named without it.
-/

namespace Linguist
namespace Disk

open Wildcard (Segment)

/-- What is in a folder and below it, each by the names that lead there. -/
def below (d : Disk) (a : Address) : List (List String) :=
  (d.folders ++ d.files.map (·.1)).filterMap fun b =>
    if a.isPrefixOf b ∧ a ≠ b then some (b.drop a.length) else none

/-- Whether a path is that of the working directory. -/
def isHere (path : String) : Bool :=
  Path.ofText path == ⟨false, [.here]⟩

/-- The text of a path with more names. -/
def extend (path : String) : List String → String
  | [] => path
  | name :: names => extend (if isHere path then name else Path.join path name) names

/-- The address of a path, if it is one of a folder. -/
def folder? (d : Disk) (path : String) : Option Address :=
  if d.leadsToFolder path then (d.follow (d.start path) (Path.steps path)).toOption else none

/-- The names below a folder that a path leads to. -/
def namesBelow (d : Disk) (path : String) : List (List String) :=
  match d.folder? path with
  | some a => d.below a
  | none => []

/-- The paths that segments lead to from a path. -/
def search (d : Disk) : List Segment → String → List String
  | [], path => [path]
  | .name s :: rest, path =>
    let next := if isHere path then s else Path.join path s
    if (d.entry? next).isSome then d.search rest next else []
  | .folders :: rest, path =>
    (d.namesBelow path).flatMap fun names => searchFrom d rest (extend path names) names
  | .tokens ts :: rest, path =>
    let segment := Segment.tokens ts
    let special := if segment.hasDot && d.leadsToFolder path then
        [".", ".."].filter segment.fits |>.map (Path.join path)
      else []
    let named := (d.namesBelow path).filterMap fun
      | [name] => if segment.fits name then some (extend path [name]) else none
      | _ => none
    (special ++ named).flatMap fun found => d.search rest found
where
  /-- The paths that segments lead to, the first of which has to fit the last name of
  a path; further segments for any number of folders add nothing to one. -/
  searchFrom (d : Disk) (segments : List Segment) (path : String) (names : List String) :
      List String :=
    match segments with
    | [] => if d.leadsToFolder path then [path] else []
    | .folders :: rest => searchFrom d rest path names
    | segment :: rest =>
      if (names.getLast?.any segment.fits) then d.search rest path else []

/-- The paths that a pattern finds. -/
def matching (d : Disk) (pattern : String) (segments : List Segment) : List String :=
  let found := d.search segments (if pattern.toList.head? = some '/' then "/" else ".")
  if pattern.toList.getLast? = some '/' then found.filter d.leadsToFolder else found

/-- The paths with one more; a path that is there already keeps its text. -/
def insertPath (path : String) : List String → List String
  | [] => [path]
  | p :: rest =>
    match (Path.ofText path).order (Path.ofText p) with
    | .lt => path :: p :: rest
    | .eq => p :: rest
    | .gt => p :: insertPath path rest

/-- Why no files are listed. -/
inductive SearchFault where
  | noFile (path : String)
  | badPattern (pattern : String)
  | nothingFound (pattern : String)
  deriving DecidableEq, Repr

/-- The files that a path or pattern stands for. -/
def filesOf (d : Disk) (input : String) : Except SearchFault (List String) :=
  if Wildcard.isPattern input then
    match Wildcard.segments? input.toList with
    | none => .error (.badPattern input)
    | some segments =>
      match (d.matching input segments).filter fun path => (d.file? path).isSome with
      | [] => .error (.nothingFound input)
      | found => .ok found
  else if (d.file? input).isSome then .ok [input]
  else .error (.noFile input)

/-- The files that paths and patterns stand for, in order and each path once. -/
def findFiles (d : Disk) (inputs : List String) : Except SearchFault (List String) :=
  inputs.foldlM (fun seen input =>
    (d.filesOf input).map fun found => found.foldl (fun seen path => insertPath path seen) seen) []

end Disk
end Linguist
