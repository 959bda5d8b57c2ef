import Linguist.Catalogue.Json

/-!
# Comparing two catalogues

Two states of a catalogue are compared message by message.  Contexts come in the
order in which they first appear in the earlier and then in the later state, and
messages in the order of their keys.  A message is changed if its target differs;
places and notes do not count.

Where a name or a key repeats, it stands for what a lookup would find or what was
said last: the first context of a name, and in it the last message of a key.
-/

namespace Linguist
namespace Comparison

/-- A message whose target changed. -/
structure Change where
  key : Message.Key
  before : Target
  after : Target
  deriving DecidableEq, Repr

/-- What became of the messages of a context. -/
structure ContextChanges where
  context : String
  added : List Message.Key := []
  removed : List Message.Key := []
  changed : List Change := []
  unchanged : Nat := 0
  deriving DecidableEq, Repr

/-- Whether the context is the same in both states. -/
def ContextChanges.isEmpty (d : ContextChanges) : Bool :=
  d.added.isEmpty && d.removed.isEmpty && d.changed.isEmpty

/-- The target of the last message with a key. -/
def target? (messages : List Message) (key : Message.Key) : Option Target :=
  (messages.reverse.find? (·.key == key)).map (·.target)

/-- The keys of some messages, rising and without repetition. -/
def keys (messages : List Message) : List Message.Key :=
  ((messages.map (·.key)).mergeSort fun a b => (a.order b).isLE).eraseReps

/-- The changes with one more key taken in. -/
def ContextChanges.add (d : ContextChanges) (key : Message.Key) :
    Option Target → Option Target → ContextChanges
  | none, some _ => { d with added := d.added ++ [key] }
  | some _, none => { d with removed := d.removed ++ [key] }
  | some before, some after =>
    if before = after then { d with unchanged := d.unchanged + 1 }
    else { d with changed := d.changed ++ [⟨key, before, after⟩] }
  | none, none => d

/-- What became of the messages of a context. -/
def compareContext (context : String) (before after : List Message) : ContextChanges :=
  (keys (before ++ after)).foldl
    (fun d key => d.add key (target? before key) (target? after key)) { context }

/-- The messages of the first context of a name. -/
def messagesOf (c : Catalogue) (name : String) : List Message :=
  ((c.context? name).map (·.messages)).getD []

/-- The names of the contexts of both states, each once. -/
def contextNames (before after : Catalogue) : List String :=
  Sequence.distinct ((before.contexts ++ after.contexts).map (·.name))

/-- The comparison of two states. -/
structure Report where
  contexts : List ContextChanges
  deriving DecidableEq, Repr

namespace Report

/-- The comparison of two states of a catalogue. -/
def ofCatalogues (before after : Catalogue) : Report where
  contexts := (contextNames before after).map fun name =>
    compareContext name (messagesOf before name) (messagesOf after name)

/-- The number of added messages. -/
def added (r : Report) : Nat := Sequence.total (·.added.length) r.contexts

/-- The number of removed messages. -/
def removed (r : Report) : Nat := Sequence.total (·.removed.length) r.contexts

/-- The number of changed messages. -/
def changed (r : Report) : Nat := Sequence.total (·.changed.length) r.contexts

/-- The number of unchanged messages. -/
def unchanged (r : Report) : Nat := Sequence.total (·.unchanged) r.contexts

/-- Whether the two states differ in any message. -/
def hasDifferences (r : Report) : Bool :=
  0 < r.added + r.removed + r.changed

end Report

/-- The members that name a message. -/
def keyMembers (key : Message.Key) : List (String × Json) :=
  ("source", .string key.source) ::
    if key.comment.isEmpty then [] else [("comment", .string key.comment)]

/-- The change as a record. -/
def Change.toJson (c : Change) : Json :=
  .object (keyMembers c.key ++ [("before", c.before.toJson), ("after", c.after.toJson)])

/-- The changes of a context as a record. -/
def ContextChanges.toJson (d : ContextChanges) : Json :=
  let list (keys : List Message.Key) : Json := .array (keys.map fun key => .object (keyMembers key))
  .object [("context", .string d.context), ("added", list d.added), ("removed", list d.removed),
    ("changed", .array (d.changed.map Change.toJson)), ("unchanged", .ofNat d.unchanged)]

/-- The comparison as a record. -/
def Report.toJson (r : Report) : Json :=
  .object [
    ("summary", .object [("contexts", .ofNat r.contexts.length), ("added", .ofNat r.added),
      ("removed", .ofNat r.removed), ("changed", .ofNat r.changed),
      ("unchanged", .ofNat r.unchanged)]),
    ("contexts", .array (r.contexts.map ContextChanges.toJson))]

end Comparison
end Linguist
