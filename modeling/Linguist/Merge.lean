import Linguist.Catalogue.Json
import Linguist.Catalogue.Places
import Linguist.Plural

/-!
# Bringing a catalogue up to date

The code changes, its messages are collected anew, and the catalogue follows.  The
new catalogue has the collected messages in their order; each takes over what the
old catalogue knows under its key.  What is left of the old catalogue and has a
wording is kept as vanished at the end of its context, since the message may come
back.

## Pools

The old messages of a context form a pool from which they are taken by key.  A key
can be taken once: where a key repeats in a pool, only its first message can ever
be taken, and where it repeats among the collected messages, only the first of
them takes something.  Among pools of one name only the first is taken from.

## Suggestions

A new message has no wording.  If its source text has a finished wording elsewhere
in the old catalogue, of the same kind with respect to plural forms, then that
wording is put into the note of the new message.
-/

namespace Linguist
namespace Merge

/-- How to bring a catalogue up to date. -/
structure Options where
  dropVanished : Bool := false
  suggestSameText : Bool := true
  places : Place.Style := .relative
  deriving DecidableEq, Repr

/-- What became of the messages. -/
structure Report where
  kept : Nat := 0
  added : Nat := 0
  revived : Nat := 0
  sameText : Nat := 0
  vanished : Nat := 0
  pruned : Nat := 0
  deriving DecidableEq, Repr

/-- The report as a record. -/
def Report.toJson (r : Report) : Json :=
  .object [("kept", .ofNat r.kept), ("added", .ofNat r.added), ("revived", .ofNat r.revived),
    ("same_text", .ofNat r.sameText), ("vanished", .ofNat r.vanished),
    ("pruned", .ofNat r.pruned)]

/-! ## Pools -/

/-- The old messages of a context that have not been taken, and the keys that
have. -/
structure Pool where
  name : String
  comment? : Option String
  messages : List Message
  spent : List Message.Key := []
  deriving DecidableEq, Repr

/-- The pool of a context. -/
def Pool.ofContext (c : Context) : Pool :=
  ⟨c.name, c.comment?, c.messages, []⟩

/-- Takes the message with a key. -/
def Pool.take? (p : Pool) (key : Message.Key) : Option (Message × Pool) :=
  if p.spent.contains key then none
  else (p.messages.find? (·.key == key)).map fun m =>
    (m, { p with messages := p.messages.eraseP (·.key == key), spent := key :: p.spent })

/-- Takes the message with a key from the first pool of a name. -/
def take? (name : String) (key : Message.Key) : List Pool → Option (Message × List Pool)
  | [] => none
  | p :: rest =>
    if p.name = name then (p.take? key).map fun (m, p) => (m, p :: rest)
    else (take? name key rest).map fun (m, rest) => (m, p :: rest)

/-! ## Collected messages -/

/-- What the merge of a message looks at besides the pools. -/
structure Setting where
  /-- The number of plural forms of the target language. -/
  formCount : Nat
  /-- The first finished wording of each source text. -/
  suggestions : List (String × Wording)

/-- The state of the merge: what is left in the pools, and the report. -/
structure State where
  pools : List Pool
  report : Report := {}

/-- The target of a new message. -/
def newTarget (formCount : Nat) (isPlural : Bool) : Target :=
  ⟨.unfinished, if isPlural then .plural (List.replicate formCount "") else .plain ""⟩

/-- The status of a message that came back. -/
def revivedStatus (t : Target) : Status :=
  if t.isEmpty then .unfinished else .finished

/-- An old message with what the collected one says about its use. -/
def refresh (old collected : Message) : Message :=
  { old with
    places := collected.places
    extraComment? := collected.extraComment?
    isPlural := collected.isPlural }

/-- Merges an old message with the collected one. -/
def mergeOld (old collected : Message) (r : Report) : Message × Report :=
  let m := refresh old collected
  if old.target.status.isActive then (m, { r with kept := r.kept + 1 })
  else
    ({ m with target := { m.target with status := revivedStatus m.target } },
      { r with revived := r.revived + 1 })

/-- Makes a new message of a collected one. -/
def mergeNew (setting : Setting) (collected : Message) (r : Report) : Message × Report :=
  let m := { collected with target := newTarget setting.formCount collected.isPlural }
  match (setting.suggestions.lookup collected.source).filter (·.isPlural == m.isPlural) with
  | some wording =>
    ({ m with translatorComment? := m.translatorComment?.or (some wording.text) },
      { r with sameText := r.sameText + 1 })
  | none => (m, { r with added := r.added + 1 })

/-- Merges one collected message of a context. -/
def mergeMessage (setting : Setting) (context : String) (s : State) (collected : Message) :
    Message × State :=
  match take? context collected.key s.pools with
  | some (old, pools) =>
    let (m, report) := mergeOld old collected s.report
    (m, ⟨pools, report⟩)
  | none =>
    let (m, report) := mergeNew setting collected s.report
    (m, { s with report })

/-- The comment of a context: the old one, or else the collected one. -/
def contextComment? (pools : List Pool) (collected : Context) : Option String :=
  ((pools.find? (·.name == collected.name)).bind (·.comment?)).or collected.comment?

/-- Merges one collected context. -/
def mergeContext (setting : Setting) (s : State) (collected : Context) : Context × State :=
  let (messages, after) :=
    Sequence.thread (mergeMessage setting collected.name) s collected.messages
  (⟨collected.name, contextComment? s.pools collected, messages⟩, after)

/-! ## What is left -/

/-- A message that is left, unless it goes: without places, and vanished. -/
def retire? (options : Options) (m : Message) : Option Message :=
  if options.dropVanished || m.target.isEmpty then none
  else
    let status := if m.target.status = .obsolete then .obsolete else .vanished
    some { m with places := [], target := { m.target with status } }

/-- Appends messages to the first context of a name, or as a context at the
end. -/
def appendTo (name : String) (comment? : Option String) (messages : List Message) :
    List Context → List Context
  | [] => [⟨name, comment?, messages⟩]
  | c :: rest =>
    if c.name = name then c.withMessages (c.messages ++ messages) :: rest
    else c :: appendTo name comment? messages rest

/-- Retires what is left of a pool. -/
def retirePool (options : Options) (contexts : List Context) (r : Report) (p : Pool) :
    List Context × Report :=
  let left := p.messages.filterMap (retire? options)
  let r := { r with
    vanished := r.vanished + left.length
    pruned := r.pruned + (p.messages.length - left.length) }
  (if left.isEmpty then contexts else appendTo p.name p.comment? left contexts, r)

/-! ## The whole -/

/-- The first finished wording of each source text. -/
def suggestions (c : Catalogue) : List (String × Wording) :=
  c.messages.filterMap fun (_, m) =>
    if m.target.status = .finished ∧ ¬ m.target.isEmpty then some (m.source, m.target.wording)
    else none

/-- What a merge into a catalogue looks at. -/
def settingOf (options : Options) (existing : Catalogue) : Setting where
  formCount := (existing.language?.map fun language =>
    (PluralRule.ofLanguage language).formCount).getD 2
  suggestions := if options.suggestSameText then suggestions existing else []

/-- The contexts of the merged catalogue, and the report. -/
def mergeContexts (options : Options) (existing extracted : Catalogue) :
    List Context × Report :=
  let (contexts, s) := Sequence.thread (mergeContext (settingOf options existing))
    ⟨existing.contexts.map Pool.ofContext, {}⟩ extracted.contexts
  s.pools.foldl (fun (contexts, r) p => retirePool options contexts r p) (contexts, s.report)

/-- The catalogue brought up to date, and what became of its messages. -/
def merge (options : Options) (existing extracted : Catalogue) : Catalogue × Report :=
  let (contexts, report) := mergeContexts options existing extracted
  ({ existing with contexts }.withPlaces options.places, report)

end Merge
end Linguist
