import Linguist.Bytes.Utf8
import Linguist.Catalogue
import Linguist.Code.Call
import Linguist.Path

/-!
# Collecting messages from code

The calls of source files make a catalogue without wordings.  A call for a message
that is there already adds a place to it, makes it plural if the call is, and gives
it a note if it has none; any other call appends a message to its context.
-/

namespace Linguist
namespace Collection

/-- The place of a call in a file. -/
def placeOf (file : String) (call : Code.Call) : Place :=
  .inFile file (UInt32.ofNat call.line)

/-- The message that a call asks for. -/
def messageOf (file : String) (call : Code.Call) : Message where
  isPlural := call.isPlural
  places := [placeOf file call]
  source := call.source
  comment? := call.comment?
  extraComment? := call.note?

/-- A message with one more call for it. -/
def addUse (file : String) (call : Code.Call) (m : Message) : Message :=
  { m with
    places := m.places ++ [placeOf file call]
    isPlural := m.isPlural || call.isPlural
    extraComment? := m.extraComment?.or call.note? }

/-- The messages of a context with one more call. -/
def addToMessages (file : String) (call : Code.Call) (messages : List Message) : List Message :=
  match Sequence.changeFirst? (·.isFor call.source call.comment?)
    (some ∘ addUse file call) messages with
  | some messages => messages
  | none => messages ++ [messageOf file call]

/-- The catalogue with one more call. -/
def addCall (file : String) (c : Catalogue) (call : Code.Call) : Catalogue :=
  { c with
    contexts := Catalogue.changeContext call.context
      (fun x => x.withMessages (addToMessages file call x.messages)) c.contexts }

/-- The catalogue with the calls of one more file. -/
def addFile (defaultContext : String) (c : Catalogue) (file code : String) : Catalogue :=
  (Code.calls defaultContext code).foldl (addCall file) c

/-- The catalogue of the calls of some files. -/
def ofFiles (defaultContext : String) (files : List (String × String)) : Catalogue :=
  files.foldl (fun c (file, code) => addFile defaultContext c file code) .empty

end Collection
end Linguist
