import Linguist.Proofs.Catalogue.Places
import Linguist.Proofs.Sequence.Sorting

/-!
# Catalogues in order

Sorting a catalogue resolves its places and then *arranges* it: contexts by name, and the
messages of each by first place and source text.  Messages are compared by one thing after
another, whether there is a place at all, its file, its line, and the source text, so the
comparison is transitive and an arranged catalogue stays as it is (`arrange_arrange`).

## Places that need nothing before them

A resolved place has a file, and a line that does not count from another one.  Such a place is
the same wherever it stands, so that arranging a catalogue of such places does not change what
they mean (`resolve_of_forallPlaces`).

Resolving leaves nothing but such places if the first of all places has a file
(`resolved_resolve`): from there on each trail is in some file.  Without that, the first places
may be in no file, and an arranged catalogue may put them behind a place that has one.
-/

namespace Linguist

/-! ## Resolved places -/

/-- The place has a file, and its line is absolute if it has one. -/
structure Place.Resolved (p : Place) : Prop where
  file : p.file? ≠ none
  line : ∀ offset, p.line? ≠ some (.relative offset)

namespace Catalogue

open Sequence (thread)

/-- A resolved place stays as it is after any trail. -/
theorem resolvePlace_eq_self (t : Trail) {p : Place} (h : p.Resolved) :
    (resolvePlace t p).1 = p := by
  obtain ⟨file?, line?⟩ := p
  obtain ⟨file, rfl⟩ := Option.ne_none_iff_exists'.1 h.file
  match line? with
  | none => rfl
  | some (.absolute line) =>
    rw [resolvePlace_of_line rfl rfl, lineAfter, clampLine_toNat]
  | some (.relative offset) => exact absurd rfl (h.line offset)

/-- Resolving a place in a file leaves a resolved one, and a trail in that file. -/
theorem resolved_resolvePlace {t : Trail} {p : Place} {file : String}
    (h : p.file?.or t.file? = some file) :
    (resolvePlace t p).1.Resolved ∧ (resolvePlace t p).2.file? = some file := by
  cases hline : p.line? with
  | none =>
    rw [resolvePlace_of_file h hline]
    exact ⟨⟨nofun, nofun⟩, rfl⟩
  | some number =>
    rw [resolvePlace_of_line h hline]
    exact ⟨⟨nofun, nofun⟩, rfl⟩

/-- From a trail in a file, or from a place with one, all places are resolved. -/
theorem resolved_thread {t : Trail} {ps : List Place}
    (h : t.file? ≠ none ∨ ∀ p ∈ ps.head?, p.file? ≠ none) :
    ∀ p ∈ (thread resolvePlace t ps).1, p.Resolved := by
  induction ps generalizing t with
  | nil => exact fun _ hp => absurd hp List.not_mem_nil
  | cons p ps ih =>
    obtain ⟨file, hfile⟩ : ∃ file, p.file?.or t.file? = some file := by
      refine Option.ne_none_iff_exists'.1 fun hnone => ?_
      obtain ⟨hp, ht⟩ := Option.or_eq_none_iff.1 hnone
      rcases h with h | h
      · exact h ht
      · exact h p rfl hp
    obtain ⟨hresolved, htrail⟩ := resolved_resolvePlace hfile
    rw [Sequence.thread_cons, List.forall_mem_cons]
    exact ⟨hresolved, ih (Or.inl (htrail ▸ Option.some_ne_none file))⟩

/-- **Resolving leaves nothing to resolve** if the first of all places has a file. -/
theorem resolved_resolve {c : Catalogue} (h : ∀ p ∈ c.places.head?, p.file? ≠ none) :
    c.resolve.ForallPlaces Place.Resolved := by
  rw [forallPlaces_iff, resolve, places_walk]
  exact resolved_thread (Or.inr h)

theorem resolve_of_forallPlaces {c : Catalogue} (h : c.ForallPlaces Place.Resolved) :
    c.resolve = c :=
  walk_eq_self (fun t _ => resolvePlace_eq_self t) h

/-! ## Comparing messages -/

/-- What a message is compared by before its source text. -/
def firstKey (m : Message) : Bool × String × Int :=
  match m.places.head? with
  | none => (false, "", 0)
  | some p => (true, placeKey p)

/-- Messages are compared by one thing after another. -/
theorem messageOrder_eq : messageOrder =
    compareLex (compareLex (compareLex (compareOn fun m => (firstKey m).1)
      (compareOn fun m => (firstKey m).2.1)) (compareOn fun m => (firstKey m).2.2))
      (compareOn Message.source) := by
  funext a b
  simp only [messageOrder, compareLex, compareOn, firstKey]
  cases a.places.head? <;> cases b.places.head? <;> rfl

instance : Std.TransCmp messageOrder := by
  rw [messageOrder_eq]
  infer_instance

end Catalogue

/-- The context with its messages sorted by a comparison. -/
def Context.sortMessages (cmp : Message → Message → Ordering) (x : Context) : Context :=
  x.withMessages (x.messages.mergeSort fun a b => (cmp a b).isLE)

theorem Context.mem_messages_sortMessages {cmp : Message → Message → Ordering} {x : Context}
    {m : Message} : m ∈ (x.sortMessages cmp).messages ↔ m ∈ x.messages :=
  List.mem_mergeSort

/-! ## Arranged catalogues -/

namespace Catalogue

/-- The catalogue with contexts sorted by name and messages by place, its places as they are. -/
def arrange (c : Catalogue) : Catalogue :=
  { c with
    contexts := (c.contexts.mergeSort fun a b => (compareOn Context.name a b).isLE).map
      (Context.sortMessages messageOrder) }

/-- Sorting is resolving and arranging. -/
theorem sort_eq_arrange (c : Catalogue) : c.sort = c.resolve.arrange := rfl

/-- The contexts stand in the order of their names. -/
def InNameOrder (c : Catalogue) : Prop :=
  c.contexts.Pairwise fun a b => (compareOn Context.name a b).isLE

theorem inNameOrder_arrange (c : Catalogue) : c.arrange.InNameOrder := by
  have hsorted : (c.contexts.mergeSort fun a b => (compareOn Context.name a b).isLE).Pairwise
      fun a b => (compareOn Context.name a b).isLE := Sequence.pairwise_sort c.contexts
  exact List.pairwise_map.2 hsorted

/-- Where the contexts stand in order, each is sorted where it is. -/
theorem InNameOrder.arrange_eq {c : Catalogue} (h : c.InNameOrder) :
    c.arrange = { c with contexts := c.contexts.map (Context.sortMessages messageOrder) } := by
  rw [arrange, List.mergeSort_of_pairwise h]

/-- A catalogue that is in order is not changed by arranging it. -/
theorem arrange_eq_self {c : Catalogue} (hnames : c.InNameOrder)
    (hmessages : ∀ x ∈ c.contexts, x.messages.Pairwise fun a b => (messageOrder a b).isLE) :
    c.arrange = c := by
  rw [hnames.arrange_eq]
  refine congrArg (fun xs => { c with contexts := xs }) (Sequence.map_eq_self_iff.2 fun x hx => ?_)
  exact congrArg x.withMessages (Sequence.sort_eq_self_iff.2 (hmessages x hx))

/-- **Arranging an arranged catalogue changes nothing.** -/
theorem arrange_arrange (c : Catalogue) : c.arrange.arrange = c.arrange := by
  refine arrange_eq_self (inNameOrder_arrange c) fun x hx => ?_
  obtain ⟨y, -, rfl⟩ := List.mem_map.1 hx
  exact Sequence.pairwise_sort y.messages

/-- Arranging makes no places and loses none. -/
theorem ForallPlaces.arrange {P : Place → Prop} {c : Catalogue} (h : c.ForallPlaces P) :
    c.arrange.ForallPlaces P := by
  intro x hx m hm
  obtain ⟨y, hy, rfl⟩ := List.mem_map.1 hx
  exact h y (List.mem_mergeSort.1 hy) m (Context.mem_messages_sortMessages.1 hm)

/-- **Resolving leaves a sorted catalogue as it is** if the first of all places has a file. -/
theorem resolve_sort {c : Catalogue} (h : ∀ p ∈ c.places.head?, p.file? ≠ none) :
    c.sort.resolve = c.sort :=
  resolve_of_forallPlaces (resolved_resolve h).arrange

end Catalogue
end Linguist
