import Mathlib.Data.Prod.Lex
import Mathlib.Data.String.Basic
import Mathlib.Order.WithBot
import Linguist.Proofs.Catalogue.Normalization

/-!
# Sorting only rearranges

A sorted catalogue is the resolved one with its contexts and messages in another order, and the
order can be said without any comparison.  Contexts stand by their names.  A message *ranks* by
its first place and then by its source text, and a message without places below all others
(`Message.rank`).  In both cases equals keep the order they had.

## Why the places are resolved first

A place may lean on the one before it, so a message that is moved would take its places into
another file or to other lines.  Once the first of all places has a file, resolving leaves only
places that stand on their own, and moving these is harmless: the sorted catalogue resolves to
itself, and there is nothing left to sort (`sort_rearranges`).
-/

namespace Linguist

/-! ## The rank of a message -/

/-- The rank of a place: its file, then its line.  A place without a line is at the very start
of its file. -/
def Place.rank (p : Place) : String ×ₗ Nat :=
  toLex (p.file?.getD "",
    match p.line? with
    | some (.absolute line) => line.toNat
    | _ => 0)

namespace Message

/-- The rank of the first place, if there is one. -/
def firstRank (m : Message) : WithBot (String ×ₗ Nat) :=
  match m.places.head? with
  | none => ⊥
  | some p => p.rank

/-- The rank of a message: its first place, then its source text. -/
def rank (m : Message) : WithBot (String ×ₗ Nat) ×ₗ String :=
  toLex (m.firstRank, m.source)

end Message

/-! ## Rearranged contexts and catalogues -/

open Sequence (SortedBy)

/-- The second context is the first one with its messages sorted by rank. -/
structure Context.Rearranged (x y : Context) : Prop where
  eq_withMessages : y = x.withMessages y.messages
  messages : SortedBy Message.rank x.messages y.messages

namespace Catalogue

/-- The second catalogue is the first one with its contexts sorted by name, and the messages of
each by rank. -/
structure Rearranged (c d : Catalogue) : Prop where
  eq_contexts : d = { c with contexts := d.contexts }
  contexts : ∃ xs, SortedBy Context.name c.contexts xs ∧
    List.Forall₂ Context.Rearranged xs d.contexts

/-! ## Comparing is comparing ranks -/

theorem compare_natCast (a b : Nat) : compare (a : Int) (b : Int) = compare a b := by
  rw [Int.compare_eq_ite_lt, Nat.compare_eq_ite_lt]
  simp

/-- Resolved places are compared by their ranks. -/
theorem compare_rank {p q : Place} (hp : p.Resolved) (hq : q.Resolved) :
    (compare (placeKey p).1 (placeKey q).1).then (compare (placeKey p).2 (placeKey q).2) =
      compare p.rank q.rank := by
  have hline : ∀ p : Place, p.Resolved → (placeKey p).2 = (ofLex p.rank).2 := by
    intro p hp
    obtain ⟨file?, line?⟩ := p
    match line? with
    | none => rfl
    | some (.absolute line) => rfl
    | some (.relative offset) => exact absurd rfl (hp.line offset)
  rw [hline p hp, hline q hq, compare_natCast, Prod.Lex.compare_def]
  rfl

variable {a b : Message}

theorem placeOrder_eq_compare (ha : ∀ p ∈ a.places, p.Resolved) (hb : ∀ p ∈ b.places, p.Resolved) :
    placeOrder a.places.head? b.places.head? = compare a.firstRank b.firstRank := by
  symm
  rw [Message.firstRank, Message.firstRank]
  cases hp : a.places.head? with
  | none =>
    cases hq : b.places.head? with
    | none => exact compare_eq_iff_eq.2 rfl
    | some q => exact compare_lt_iff_lt.2 (WithBot.bot_lt_coe _)
  | some p =>
    cases hq : b.places.head? with
    | none => exact compare_gt_iff_gt.2 (WithBot.bot_lt_coe _)
    | some q =>
      have hpq := compare_rank (ha p (List.mem_of_head? hp)) (hb q (List.mem_of_head? hq))
      rw [placeOrder, hpq, compare_iff]
      cases h : compare p.rank q.rank with
      | lt => exact WithBot.coe_lt_coe.2 (compare_lt_iff_lt.1 h)
      | eq => exact congrArg _ (compare_eq_iff_eq.1 h)
      | gt => exact WithBot.coe_lt_coe.2 (compare_gt_iff_gt.1 h)

/-- Messages with resolved places are compared by their ranks. -/
theorem messageOrder_eq_compare (ha : ∀ p ∈ a.places, p.Resolved)
    (hb : ∀ p ∈ b.places, p.Resolved) : messageOrder a b = compare a.rank b.rank := by
  rw [messageOrder, placeOrder_eq_compare ha hb, Prod.Lex.compare_def]
  rfl

/-! ## Sorting -/

variable {c : Catalogue}

theorem rearranged_sortMessages {x : Context} (h : ∀ m ∈ x.messages, ∀ p ∈ m.places, p.Resolved) :
    x.Rearranged (x.sortMessages messageOrder) where
  eq_withMessages := rfl
  messages := Sequence.sortedBy_sort fun a ha b hb => messageOrder_eq_compare (h a ha) (h b hb)

/-- Arranging a catalogue of resolved places rearranges it. -/
theorem rearranged_arrange (h : c.ForallPlaces Place.Resolved) : c.Rearranged c.arrange where
  eq_contexts := rfl
  contexts := by
    have hsorted : SortedBy Context.name c.contexts
        (c.contexts.mergeSort fun a b => (compareOn Context.name a b).isLE) :=
      Sequence.sortedBy_sort fun _ _ _ _ => rfl
    refine ⟨_, hsorted, List.forall₂_map_right_iff.2 (List.forall₂_same.2 fun x hx => ?_)⟩
    exact rearranged_sortMessages (h x (hsorted.perm.mem_iff.1 hx))

/-- **Sorting only rearranges** if the first of all places has a file: contexts stand by name
and messages by rank, equals keep their order, and neither resolving nor sorting changes the
catalogue any more. -/
theorem sort_rearranges (hfirst : ∀ p ∈ c.places.head?, p.file? ≠ none) :
    c.resolve.Rearranged c.sort ∧ c.sort.resolve = c.sort ∧ c.sort.sort = c.sort :=
  ⟨rearranged_arrange (resolved_resolve hfirst), resolve_sort hfirst, sort_sort hfirst⟩

/-- Contexts out of order, one of them in two parts, and messages that lean on each other, one
of them without a place and two at the same one. -/
def jumbled : Catalogue where
  contexts := [
    { name := "Window", messages := [
      { source := "Undo", places := [.inFile "window.cpp" 9] },
      { source := "Open", places := [⟨none, some (.relative (-5))⟩] },
      { source := "Close", places := [⟨none, some (.relative 0)⟩] },
      { source := "Quit" }] },
    { name := "About", messages := [{ source := "Version", places := [.inFile "about.cpp" 2] }] },
    { name := "Window", messages := [{ source := "Redo", places := [⟨none, none⟩] }] }]

theorem jumbled_is_rearranged :
    (∀ p ∈ jumbled.places.head?, p.file? ≠ none) ∧
      jumbled.resolve.Rearranged jumbled.sort ∧ jumbled.sort.resolve = jumbled.sort ∧
      jumbled.sort.sort = jumbled.sort :=
  ⟨by decide, sort_rearranges (by decide)⟩

end Catalogue
end Linguist
