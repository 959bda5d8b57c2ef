import Linguist.Catalogue

/-!
# Absolute and relative places

The places of a catalogue form one sequence, across messages and contexts, and
abbreviations refer to what came before in it.  Resolving walks the sequence once
and writes every abbreviation out; abbreviating resolves first and then walks
again, so that it does not matter which form the places had.

## Lines out of range

Offsets may lead below zero or past 32 bits.  The walk goes on from the true line,
and only the line that is written is clamped to the range of line numbers.

An offset has 64 bits, and so has a sum of them in a program.  Here lines are added
without bounds: what a program does when a sum leaves the range of 64 bits, stop or
wrap around, is left out.
-/

namespace Linguist
namespace Catalogue

/-- What a walk along the places remembers: the file it is in, and the last line
seen in each file. -/
structure Trail where
  file? : Option String := none
  lines : List (String × Int) := []

namespace Trail

/-- The last line seen in a file, zero before the first. -/
def lastLine (t : Trail) (file : String) : Int :=
  (t.lines.lookup file).getD 0

/-- The trail once it has come to a line of a file. -/
def reach (t : Trail) (file : String) (line : Int) : Trail :=
  { t with lines := (file, line) :: t.lines.filter (·.1 != file) }

/-- The trail once it has come to a file. -/
def enter (t : Trail) (file : String) : Trail :=
  { t with file? := some file }

end Trail

/-- The nearest line number of 32 bits. -/
def clampLine (line : Int) : UInt32 :=
  UInt32.ofNat (min line.toNat (UInt32.size - 1))

/-- The line that a line number means after a trail. -/
def lineAfter (t : Trail) (file : String) : LineNumber → Int
  | .absolute line => line.toNat
  | .relative offset => t.lastLine file + offset.toInt

/-- Writes out the abbreviations of one place. -/
def resolvePlace (t : Trail) (p : Place) : Place × Trail :=
  match p.file?.or t.file? with
  | none => (p, t)
  | some file =>
    match p.line? with
    | none => (⟨some file, none⟩, t.enter file)
    | some number =>
      let line := lineAfter t file number
      (⟨some file, some (.absolute (clampLine line))⟩, (t.enter file).reach file line)

/-- Abbreviates one place whose line is absolute. -/
def abbreviatePlace (t : Trail) (p : Place) : Place × Trail :=
  match p.file? with
  | none => (p, t)
  | some file =>
    let file? := if t.file? = some file then none else some file
    match p.line? with
    | some (.absolute line) =>
      (⟨file?, some (.relative (Int64.ofInt (line.toNat - t.lastLine file)))⟩,
        (t.enter file).reach file line.toNat)
    | line? => (⟨file?, line?⟩, t.enter file)

variable (f : Trail → Place → Place × Trail)

/-- A walk along the places of one message. -/
def walkMessage (t : Trail) (m : Message) : Message × Trail :=
  let (places, t) := Sequence.thread f t m.places
  ({ m with places }, t)

/-- A walk along the places of one context. -/
def walkContext (t : Trail) (c : Context) : Context × Trail :=
  let (messages, t) := Sequence.thread (walkMessage f) t c.messages
  (c.withMessages messages, t)

/-- A walk along all places of a catalogue. -/
def walk (c : Catalogue) : Catalogue :=
  { c with contexts := (Sequence.thread (walkContext f) {} c.contexts).1 }

/-- The catalogue with every place written out. -/
def resolve (c : Catalogue) : Catalogue :=
  c.walk resolvePlace

/-- The catalogue with every place in its shortest form. -/
def abbreviate (c : Catalogue) : Catalogue :=
  c.resolve.walk abbreviatePlace

/-- The catalogue without places. -/
def strip (c : Catalogue) : Catalogue :=
  { c with
    contexts := c.contexts.map fun x =>
      x.withMessages (x.messages.map fun m => { m with places := [] }) }

/-- The catalogue with its places in the given style. -/
def withPlaces (c : Catalogue) : Place.Style → Catalogue
  | .relative => c.abbreviate
  | .absolute => c.resolve
  | .none => c.strip

/-! ## Sorting -/

/-- What a place is sorted by: its file, then its line. -/
def placeKey (p : Place) : String × Int :=
  (p.file?.getD "",
    match p.line? with
    | some (.absolute line) => line.toNat
    | some (.relative offset) => offset.toInt
    | none => 0)

/-- The order of first places: a message without any comes first. -/
def placeOrder : Option Place → Option Place → Ordering
  | none, none => .eq
  | none, some _ => .lt
  | some _, none => .gt
  | some a, some b =>
    (compare (placeKey a).1 (placeKey b).1).then (compare (placeKey a).2 (placeKey b).2)

/-- The order of messages: by first place, then by source text. -/
def messageOrder (a b : Message) : Ordering :=
  (placeOrder a.places.head? b.places.head?).then (compare a.source b.source)

/-- The catalogue with contexts sorted by name and messages by place; equals keep
their order. -/
def sort (c : Catalogue) : Catalogue :=
  let c := c.resolve
  { c with
    contexts := (c.contexts.mergeSort fun a b => (compare a.name b.name).isLE).map fun x =>
      x.withMessages (x.messages.mergeSort fun a b => (messageOrder a b).isLE) }

/-- The catalogue as it is written anew: sorted if that is asked for, and with its places in the
given style. -/
def normalize (c : Catalogue) (places : Place.Style) (sort : Bool) : Catalogue :=
  (if sort then c.sort else c).withPlaces places

end Catalogue
end Linguist
