import Linguist.Command.Run

/-!
# The program

The program takes what a command line names from the disk of the computer, runs the
command line, and puts back what has changed.  All that is decided is decided by
`Command.run`; here are only the ways in and out.

## What is taken

Of the files on the computer only those are read that a command line names or that
its patterns find.  Of the other files below the working directory a pattern needs
no more than the names.
-/

namespace Linguist
namespace Program

/-- How deep folders are searched for what a pattern may find. -/
def searchDepth : Nat := 64

/-- The text of an address. -/
def textOf (a : Address) : String :=
  "/" ++ String.intercalate "/" a

/-- Takes what is at an address. -/
def take (disk : Disk) (a : Address) : IO Disk := do
  let path := (← IO.currentDir) / textOf a
  if disk.isFolder a then return disk
  else if ← path.isDir then return { disk with folders := disk.folders ++ [a] }
  else if ← path.pathExists then return disk.put a (← IO.FS.readBinFile path).toList
  else return disk

/-- Takes what a path leads through and where it ends. -/
def takePath (disk : Disk) (path : String) : IO Disk := do
  let (disk, _) ← (Path.steps path).foldlM (fun (disk, a) part => do
    let b := Path.follow a [part]
    return (← take disk b, b)) (disk, disk.start path)
  return disk

/-- Takes the names of everything in a folder and below it. -/
def takeNames : Nat → Disk → Address → IO Disk
  | 0, disk, _ => return disk
  | depth + 1, disk, a => do
    let folder := (← IO.currentDir) / textOf a
    (← folder.readDir).toList.foldlM (fun disk entry => do
      let b := a ++ [entry.fileName]
      if ← entry.path.isDir then
        takeNames depth { disk with folders := disk.folders ++ [b] } b
      else return disk.put b []) disk

/-- Takes what a request names. -/
def takeRequest (disk : Disk) (request : Command.Request) : IO Disk := do
  let (patterns, paths) := request.paths.partition Wildcard.isPattern
  let named ← if patterns.isEmpty then pure disk else takeNames searchDepth disk disk.directory
  let found := patterns.flatMap fun pattern => ((named.filesOf pattern).toOption.getD [])
  (paths ++ found).foldlM takePath named

/-- Puts back what has changed. -/
def putBack (before after : Disk) : IO Unit := do
  for a in after.folders do
    if !before.isFolder a then IO.FS.createDirAll (textOf a)
  for (a, bytes) in after.files do
    if before.contents? a ≠ some bytes then
      IO.FS.writeBinFile (textOf a) bytes.toByteArray

/-- Runs a command line on the disk of the computer. -/
def run (words : List String) : IO UInt32 := do
  let directory := (Path.ofText (← IO.currentDir).toString).normal []
  let disk : Disk := { directory }
  let disk ← match Command.understand words with
    | .error _ => pure disk
    | .ok invocation =>
      let disk ← takePath disk (invocation.settings?.getD Command.Action.settingsPath)
      takeRequest disk invocation.request
  let outcome := Command.run disk words
  putBack disk outcome.disk
  IO.print outcome.output
  IO.eprint outcome.notes
  match outcome.ending with
  | .done => pure ()
  | .failed failure => IO.eprintln ("Error: " ++ failure.message)
  | .misused fault =>
    if fault.isAnswer then IO.println Command.usageText
    else IO.eprintln ("error: " ++ fault.message ++ "\n\n" ++ Command.usageText)
  return UInt32.ofNat outcome.ending.exitCode

end Program
end Linguist

/-- Runs the words after the program's name. -/
def main (words : List String) : IO UInt32 :=
  Linguist.Program.run words
