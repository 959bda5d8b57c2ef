import Linguist.Catalogue
import Linguist.Json.Value

/-!
# Progress

How far a catalogue is: its messages counted by status, in all and for each
context, and the part of the active ones that is finished.

## Percentages

A percentage is a whole number of hundredths.  The quotient is taken in binary
floating point with 53 bits and then rounded, halves away from zero; a context
without active messages is complete.
-/

namespace Linguist
namespace Progress

/-- Messages counted by status. -/
structure Counts where
  finished : Nat := 0
  unfinished : Nat := 0
  vanished : Nat := 0
  obsolete : Nat := 0
  deriving DecidableEq, Repr

namespace Counts

/-- The number of messages with a status. -/
def ofMessages (messages : List Message) : Counts :=
  let count (s : Status) := messages.countP fun m => m.target.status == s
  ⟨count .finished, count .unfinished, count .vanished, count .obsolete⟩

/-- The number of messages. -/
def total (n : Counts) : Nat :=
  n.finished + n.unfinished + n.vanished + n.obsolete

/-- The number of messages that still stand in the code. -/
def active (n : Counts) : Nat :=
  n.finished + n.unfinished

/-- The finished part of the active messages, in hundredths of a percent. -/
def hundredths (n : Counts) : Nat :=
  if n.active = 0 then 10000
  else (n.finished.toFloat * 100 / n.active.toFloat * 100).round.toUInt64.toNat

end Counts

/-- Two digits for the hundredths. -/
def twoDigits (n : Nat) : List Char :=
  [Nat.digitChar (n / 10 % 10), Nat.digitChar (n % 10)]

/-- A number of hundredths with two places. -/
def fixedText (hundredths : Nat) : String :=
  String.ofList (Text.decimal (hundredths / 100) ++ '.' :: twoDigits hundredths)

/-- A number of hundredths with as many places as it needs, but at least one. -/
def shortText (hundredths : Nat) : String :=
  String.ofList (Text.decimal (hundredths / 100) ++ '.' ::
    if hundredths % 10 = 0 then [Nat.digitChar (hundredths / 10 % 10)] else twoDigits hundredths)

/-- The counts as members of a record in alphabetical order, with room for one
between the first two. -/
def Counts.members (n : Counts) (extra : List (String × Json)) : List (String × Json) :=
  [("completion_percent", .number (shortText n.hundredths))] ++ extra ++
    [("finished", .ofNat n.finished), ("obsolete", .ofNat n.obsolete),
      ("total", .ofNat n.total), ("unfinished", .ofNat n.unfinished),
      ("vanished", .ofNat n.vanished)]

/-- The progress of a catalogue. -/
structure Report where
  language? : Option String
  summary : Counts
  contexts : List (String × Counts)
  deriving DecidableEq, Repr

namespace Report

/-- The progress of a catalogue. -/
def ofCatalogue (c : Catalogue) : Report where
  language? := c.language?
  summary := .ofMessages (c.contexts.flatMap (·.messages))
  contexts := c.contexts.map fun x => (x.name, .ofMessages x.messages)

/-- The report as a record whose members are in alphabetical order. -/
def toJson (r : Report) : Json :=
  .object <|
    [("contexts", .array (r.contexts.map fun (name, n) =>
      .object (n.members [("context", .string name)])))] ++
    Json.memberOf "language" .string r.language? ++
    [("summary", .object (r.summary.members []))]

end Report
end Progress
end Linguist
