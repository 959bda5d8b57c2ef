import Linguist.Proofs.Catalogue.Alike
import Linguist.Proofs.Catalogue.Order

/-!
# Writing a catalogue anew

A catalogue that was written anew, sorted or not and in any style of places, is not changed by
writing it anew in the same way: whichever form the places have, they resolve to the same ones,
so the order they give is the same, and so is the form they get.

This fails in one case.  If the places are taken away *after* the messages were sorted by them,
then there is nothing left to sort by but the source texts, and the second time the messages are
sorted by these.  It is the only change, and the third time nothing changes
(`normalize_normalize`).
-/

namespace Linguist
namespace Catalogue

variable {c : Catalogue}

/-! ## Catalogues without places -/

/-- There are no places in the catalogue. -/
def Unplaced (c : Catalogue) : Prop :=
  c.ForallPlaces fun _ => False

/-- The catalogue with the messages of each context sorted by their source texts. -/
def sortedBySource (c : Catalogue) : Catalogue :=
  { c with contexts := c.contexts.map (Context.sortMessages (compareOn Message.source)) }

theorem unplaced_strip (c : Catalogue) : c.strip.Unplaced := by
  intro x hx m hm
  obtain ⟨x, -, rfl⟩ := List.mem_map.1 hx
  obtain ⟨m, -, rfl⟩ := List.mem_map.1 hm
  exact fun _ hp => absurd hp List.not_mem_nil

namespace Unplaced

theorem places_eq_nil (h : c.Unplaced) {x : Context} (hx : x ∈ c.contexts) {m : Message}
    (hm : m ∈ x.messages) : m.places = [] :=
  List.eq_nil_iff_forall_not_mem.2 (h x hx m hm)

theorem resolve_eq_self (h : c.Unplaced) : c.resolve = c :=
  walk_eq_self (fun _ _ => False.elim) h

theorem strip_eq_self (h : c.Unplaced) : c.strip = c := by
  have hmessages : ∀ x ∈ c.contexts, x.messages.map Message.bare = x.messages := fun x hx =>
    Sequence.map_eq_self_iff.2 fun m hm => Message.bare_eq_self (h.places_eq_nil hx hm)
  have hcontexts : c.contexts.map (fun x => x.withMessages (x.messages.map Message.bare)) =
      c.contexts :=
    Sequence.map_eq_self_iff.2 fun x hx => congrArg x.withMessages (hmessages x hx)
  exact congrArg (fun xs => { c with contexts := xs }) hcontexts

/-- Without places messages are compared by their source texts. -/
theorem sortMessages_eq (h : c.Unplaced) {x : Context} (hx : x ∈ c.contexts) :
    x.sortMessages messageOrder = x.sortMessages (compareOn Message.source) := by
  refine congrArg x.withMessages (Sequence.sort_congr fun a ha b hb => ?_)
  rw [messageOrder, h.places_eq_nil hx ha, h.places_eq_nil hx hb]
  rfl

theorem arrange_eq (h : c.Unplaced) (hnames : c.InNameOrder) : c.arrange = c.sortedBySource := by
  rw [hnames.arrange_eq, sortedBySource]
  refine congrArg (fun xs => { c with contexts := xs }) (List.map_congr_left fun x hx => ?_)
  exact h.sortMessages_eq hx

/-- Sorting a catalogue without places sorts the messages by their source texts. -/
theorem sort_eq (h : c.Unplaced) (hnames : c.InNameOrder) : c.sort = c.sortedBySource := by
  rw [sort_eq_arrange, h.resolve_eq_self, h.arrange_eq hnames]

end Unplaced

/-- A catalogue is sorted by source texts if each of its contexts is, and only then. -/
theorem sortedBySource_eq_self_iff : c.sortedBySource = c ↔
    ∀ x ∈ c.contexts, x.messages.Pairwise fun a b => (compare a.source b.source).isLE := by
  have hcontexts : c.sortedBySource = c ↔
      c.contexts.map (Context.sortMessages (compareOn Message.source)) = c.contexts :=
    ⟨congrArg Catalogue.contexts, congrArg fun xs => { c with contexts := xs }⟩
  rw [hcontexts, Sequence.map_eq_self_iff]
  refine forall₂_congr fun x _ => ?_
  have hsorted : (x.messages.mergeSort fun a b => (compareOn Message.source a b).isLE) =
      x.messages ↔ x.messages.Pairwise fun a b => (compareOn Message.source a b).isLE :=
    Sequence.sort_eq_self_iff
  exact Iff.trans ⟨congrArg Context.messages, congrArg x.withMessages⟩ hsorted

/-! ## Writing anew twice -/

theorem withPlaces_withPlaces (c : Catalogue) (style : Place.Style) :
    (c.withPlaces style).withPlaces style = c.withPlaces style := by
  obtain ⟨habsolute, -, -, hrelative⟩ := resolve_abbreviate_absorb c
  cases style with
  | relative => exact hrelative
  | absolute => exact habsolute
  | none => exact (unplaced_strip c).strip_eq_self

/-- The places are the same once they are resolved, unless they are gone. -/
theorem resolve_withPlaces (c : Catalogue) {style : Place.Style} (h : style ≠ .none) :
    (c.withPlaces style).resolve = c.resolve := by
  cases style with
  | relative => exact resolve_abbreviate c
  | absolute => exact resolve_resolve c
  | none => exact absurd rfl h

theorem sort_sort (hfirst : ∀ p ∈ c.places.head?, p.file? ≠ none) : c.sort.sort = c.sort := by
  rw [c.sort.sort_eq_arrange, resolve_sort hfirst, sort_eq_arrange, arrange_arrange]

/-- A sorted catalogue is sorted whatever form its places get, unless they are taken away. -/
theorem sort_withPlaces_sort (hfirst : ∀ p ∈ c.places.head?, p.file? ≠ none)
    {style : Place.Style} (h : style ≠ .none) : (c.sort.withPlaces style).sort = c.sort := by
  rw [sort_eq_arrange, resolve_withPlaces _ h, ← sort_eq_arrange, sort_sort hfirst]

theorem inNameOrder_strip_sort (c : Catalogue) : c.sort.strip.InNameOrder :=
  List.pairwise_map.2 (inNameOrder_arrange c.resolve)

/-- The second time, what was sorted and stripped is sorted by source texts. -/
theorem sort_strip_sort (c : Catalogue) : c.sort.strip.sort = c.sort.strip.sortedBySource :=
  (unplaced_strip _).sort_eq (inNameOrder_strip_sort c)

theorem unplaced_sort_strip_sort (c : Catalogue) : c.sort.strip.sort.Unplaced := by
  rw [sort_eq_arrange, (unplaced_strip _).resolve_eq_self]
  exact (unplaced_strip _).arrange

/-- The third time, nothing changes. -/
theorem sort_sort_strip_sort (c : Catalogue) : c.sort.strip.sort.sort = c.sort.strip.sort := by
  rw [sort_eq_arrange, (unplaced_sort_strip_sort c).resolve_eq_self, c.sort.strip.sort_eq_arrange,
    arrange_arrange]

theorem normalize_normalize_none_sorted (c : Catalogue) :
    (c.normalize .none true).normalize .none true = c.sort.strip.sort :=
  (unplaced_sort_strip_sort c).strip_eq_self

/-- **A catalogue that was written anew is not changed by writing it anew in the same way,**
unless it was sorted and its places were then taken away.  In that case the messages of each
context are sorted by their source texts the second time, which changes nothing just when they
were in this order already.  The third time nothing changes in any case. -/
theorem normalize_normalize (hfirst : ∀ p ∈ c.places.head?, p.file? ≠ none)
    (style : Place.Style) (sort : Bool) :
    let once := c.normalize style sort
    let twice := once.normalize style sort
    (style ≠ .none ∨ sort = false → twice = once) ∧
      (style = .none → sort = true → twice = once.sortedBySource ∧
        (twice = once ↔ ∀ x ∈ once.contexts,
          x.messages.Pairwise fun a b => (compare a.source b.source).isLE)) ∧
      twice.normalize style sort = twice := by
  intro once twice
  cases sort with
  | false =>
    have htwice : twice = once := withPlaces_withPlaces c style
    exact ⟨fun _ => htwice, fun _ => nofun, congrArg (normalize · style false) htwice⟩
  | true =>
    by_cases hstyle : style = .none
    · subst hstyle
      have htwice : twice = c.sort.strip.sort := normalize_normalize_none_sorted c
      have hbysource : twice = once.sortedBySource := htwice.trans (sort_strip_sort c)
      refine ⟨fun h => h.elim (absurd rfl) nofun, fun _ _ => ⟨hbysource, ?_⟩, ?_⟩
      · rw [hbysource, sortedBySource_eq_self_iff]
      · show twice.sort.strip = twice
        rw [htwice, sort_sort_strip_sort, (unplaced_sort_strip_sort c).strip_eq_self]
    · have htwice : twice = once := by
        show (c.sort.withPlaces style).sort.withPlaces style = _
        rw [sort_withPlaces_sort hfirst hstyle]
        rfl
      exact ⟨fun _ => htwice, fun h => absurd h hstyle, congrArg (normalize · style true) htwice⟩

/-- Two messages whose places and source texts are in opposite orders. -/
def crossed : Catalogue where
  contexts := [{ name := "Window", messages := [
    { source := "Open", places := [.inFile "window.cpp" 1] },
    { source := "Close", places := [.inFile "window.cpp" 2] }] }]

/-- Both cases occur. -/
theorem normalize_crossed :
    (crossed.normalize .relative true).normalize .relative true =
        crossed.normalize .relative true ∧
      (crossed.normalize .none true).normalize .none true =
        (crossed.normalize .none true).sortedBySource :=
  ⟨(normalize_normalize (by decide) .relative true).1 (Or.inl (by decide)),
    ((normalize_normalize (by decide) .none true).2.1 rfl rfl).1⟩

theorem sort_crossed : crossed.sort = crossed := by
  have hresolve : crossed.resolve = crossed := by decide
  rw [sort_eq_arrange, hresolve]
  exact arrange_eq_self (List.pairwise_singleton _ _) (by decide)

/-- What was sorted by its places is sorted by its source texts when they are gone. -/
theorem not_normalize_none :
    ¬ ∀ (c : Catalogue) (style : Place.Style) (sort : Bool),
      (∀ p ∈ c.places.head?, p.file? ≠ none) →
      (c.normalize style sort).normalize style sort = c.normalize style sort := by
  intro h
  have hcrossed : crossed.sort.strip.sortedBySource = crossed.sort.strip := by
    rw [← sort_strip_sort, ← normalize_normalize_none_sorted]
    exact h crossed .none true (by decide)
  rw [sort_crossed, sortedBySource_eq_self_iff] at hcrossed
  exact absurd (hcrossed _ List.mem_cons_self) (by decide)

end Catalogue
end Linguist
