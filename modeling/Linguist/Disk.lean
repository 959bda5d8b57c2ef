import Linguist.Path

/-!
# Folders and files

A disk is what the commands work on: folders, files with their bytes, and a folder
from which relative paths start.  Every folder and file has an address, the names
that lead to it from the root; the root is a folder of every disk.

## Following a path

A path is followed step by step, and every step has to begin in a folder.  So a
path can go through a folder and back, but not through one that is not there, even
if a later step would leave it again.

## What changes

Files change only by `put`.  Making folders changes no file.
-/

namespace Linguist

/-- The names that lead to a file or folder from the root. -/
abbrev Address := List String

/-- Why a path cannot be used. -/
inductive Obstacle where
  | missing
  | notFolder
  | isFolder
  | notText
  deriving DecidableEq, Repr

/-- The wording of an obstacle. -/
def Obstacle.message : Obstacle → String
  | missing => "No such file or directory (os error 2)"
  | notFolder => "Not a directory (os error 20)"
  | isFolder => "Is a directory (os error 21)"
  | notText => "stream did not contain valid UTF-8"

/-- Folders and files, and the folder from which relative paths start. -/
structure Disk where
  directory : Address := []
  folders : List Address := []
  files : List (Address × List UInt8) := []
  deriving DecidableEq, Repr

/-- What can be at an address. -/
inductive Disk.Entry where
  | folder
  | file (bytes : List UInt8)
  deriving DecidableEq, Repr

namespace Disk

/-- The bytes of the file at an address. -/
def contents? (d : Disk) (a : Address) : Option (List UInt8) :=
  d.files.lookup a

/-- Whether there is a folder at an address. -/
def isFolder (d : Disk) (a : Address) : Bool :=
  a == [] || a == d.directory || d.folders.contains a

/-- What is at an address. -/
def entryAt? (d : Disk) (a : Address) : Option Entry :=
  if d.isFolder a then some .folder else (d.contents? a).map .file

/-- Why an address is not one of a folder. -/
def whyNoFolder (d : Disk) (a : Address) : Obstacle :=
  if (d.contents? a).isSome then .notFolder else .missing

/-- The address that steps lead to. -/
def follow (d : Disk) (a : Address) : List Part → Except Obstacle Address
  | [] => .ok a
  | part :: rest =>
    if d.isFolder a then
      match part with
      | .here => d.follow a rest
      | .up => d.follow a.dropLast rest
      | .name s => d.follow (a ++ [s]) rest
    else .error (d.whyNoFolder a)

/-- Where a path starts. -/
def start (d : Disk) (path : String) : Address :=
  if path.toList.head? = some '/' then [] else d.directory

/-- What is at the end of a path. -/
def entry? (d : Disk) (path : String) : Option Entry :=
  if path.isEmpty then none
  else match d.follow (d.start path) (Path.steps path) with
    | .ok a => d.entryAt? a
    | .error _ => none

/-- Whether a path leads to a folder. -/
def leadsToFolder (d : Disk) (path : String) : Bool :=
  d.entry? path == some .folder

/-- The bytes of the file that a path leads to. -/
def file? (d : Disk) (path : String) : Option (List UInt8) :=
  match d.entry? path with
  | some (.file bytes) => some bytes
  | _ => none

/-! ## Changes -/

/-- The files with one put at an address. -/
def putFile (a : Address) (bytes : List UInt8) :
    List (Address × List UInt8) → List (Address × List UInt8)
  | [] => [(a, bytes)]
  | f :: rest => if f.1 = a then (a, bytes) :: rest else f :: putFile a bytes rest

/-- The disk with a file put at an address. -/
def put (d : Disk) (a : Address) (bytes : List UInt8) : Disk :=
  { d with files := putFile a bytes d.files }

/-- The address at which a path allows to write a file. -/
def target (d : Disk) (path : String) : Except Obstacle Address :=
  if path.isEmpty then .error .missing
  else
    match d.follow (d.start path) (Path.steps path).dropLast, (Path.steps path).getLast? with
    | .error o, _ => .error o
    | .ok a, some (.name s) =>
      if !d.isFolder a then .error (d.whyNoFolder a)
      else if d.isFolder (a ++ [s]) then .error .isFolder
      else .ok (a ++ [s])
    | .ok _, _ => .error .isFolder

/-- Writes a file. -/
def write (d : Disk) (path : String) (bytes : List UInt8) : Except Obstacle Disk :=
  (d.target path).map (d.put · bytes)

/-- Makes the folders on the way that are not there, and says whether all of the
way leads through folders. -/
def makeFolders (d : Disk) (a : Address) : List Part → Disk × Bool
  | [] => (d, true)
  | .here :: rest => d.makeFolders a rest
  | .up :: rest => d.makeFolders a.dropLast rest
  | .name s :: rest =>
    if d.isFolder (a ++ [s]) then d.makeFolders (a ++ [s]) rest
    else if (d.contents? (a ++ [s])).isSome then (d, false)
    else makeFolders { d with folders := d.folders ++ [a ++ [s]] } (a ++ [s]) rest

/-- Makes the folder that a path to a file leads through, unless something is
there. -/
def makeParent (d : Disk) (path : String) : Disk × Bool :=
  match (Path.ofText path).parent? with
  | none => (d, true)
  | some parent =>
    if ((d.follow (d.start path) parent.parts).toOption.bind d.entryAt?).isSome then (d, true)
    else d.makeFolders (d.start path) parent.parts

/-! ## What files there are -/

@[simp] theorem contents?_put_self (d : Disk) (a : Address) (bytes : List UInt8) :
    (d.put a bytes).contents? a = some bytes := by
  unfold put contents?
  induction d.files with
  | nil => simp [putFile]
  | cons f rest ih =>
    obtain ⟨c, old⟩ := f
    unfold putFile
    split
    · simp
    · rename_i h
      have : (a == c) = false := beq_false_of_ne (Ne.symm h)
      simpa [List.lookup_cons, this] using ih

/-- Making folders changes no file. -/
@[simp] theorem files_makeFolders (d : Disk) (a : Address) (parts : List Part) :
    (d.makeFolders a parts).1.files = d.files := by
  fun_induction makeFolders d a parts with
  | case1 => rfl
  | case2 _ _ _ ih => exact ih
  | case3 _ _ _ ih => exact ih
  | case4 _ _ _ _ _ ih => exact ih
  | case5 => rfl
  | case6 _ _ _ _ _ _ ih => exact ih

@[simp] theorem files_makeParent (d : Disk) (path : String) :
    (d.makeParent path).1.files = d.files := by
  unfold makeParent
  split
  · rfl
  · split
    · rfl
    · exact files_makeFolders _ _ _

end Disk
end Linguist
