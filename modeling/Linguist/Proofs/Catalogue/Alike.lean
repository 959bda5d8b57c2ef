import Linguist.Catalogue.Places
import Linguist.Proofs.Sequence.Relating

/-!
# What a change of places leaves alone

The places of a catalogue are rewritten as a whole: resolved, abbreviated, or taken
away.  Whatever the style, every context and every message stays where it is and keeps
everything but its places, and a message without places gets none.  Two messages that
differ in no other way are *alike*, and so are two contexts made of such messages; a
catalogue and the one with its places rewritten are alike throughout
(`Catalogue.alike_withPlaces`).

Nothing here looks at what the walks do to a single place.
-/

namespace Linguist

/-! ## Messages -/

namespace Message

/-- The message without its places. -/
def bare (m : Message) : Message :=
  { m with places := [] }

@[simp] theorem bare_key (m : Message) : m.bare.key = m.key := rfl

@[simp] theorem bare_target (m : Message) : m.bare.target = m.target := rfl

theorem bare_eq_self {m : Message} (h : m.places = []) : m.bare = m := by
  cases m
  cases h
  rfl

/-- The second message is the first with other places, and has none where the first has
none. -/
structure Alike (m m' : Message) : Prop where
  bare : m'.bare = m.bare
  places : m.places = [] → m'.places = []

namespace Alike

variable {m m' m'' : Message}

protected theorem trans (h : m.Alike m') (h' : m'.Alike m'') : m.Alike m'' :=
  ⟨h'.bare.trans h.bare, fun hm => h'.places (h.places hm)⟩

theorem key (h : m.Alike m') : m'.key = m.key := by
  rw [← bare_key, h.bare, bare_key]

theorem target (h : m.Alike m') : m'.target = m.target := by
  rw [← bare_target, h.bare, bare_target]

/-- A message without places is only like itself. -/
theorem eq_of_places (h : m.Alike m') (hm : m.places = []) : m' = m := by
  rw [← bare_eq_self hm, ← h.bare, bare_eq_self (h.places hm)]

end Alike
end Message

/-! ## Contexts -/

namespace Context

/-- The second context is the first with other places. -/
structure Alike (x y : Context) : Prop where
  name : y.name = x.name
  comment? : y.comment? = x.comment?
  messages : List.Forall₂ Message.Alike x.messages y.messages

protected theorem Alike.trans {x y z : Context} (h : x.Alike y) (h' : y.Alike z) :
    x.Alike z :=
  ⟨h'.name.trans h.name, h'.comment?.trans h.comment?,
    Sequence.forall₂_comp h.messages h'.messages fun _ _ _ => Message.Alike.trans⟩

theorem Alike.map_key {x y : Context} (h : x.Alike y) :
    y.messages.map Message.key = x.messages.map Message.key :=
  (Sequence.map_eq_map (h.messages.imp fun _ _ hm => hm.key.symm)).symm

theorem alike_withMessages {x : Context} {ms : List Message}
    (h : List.Forall₂ Message.Alike x.messages ms) : x.Alike (x.withMessages ms) :=
  ⟨rfl, rfl, h⟩

theorem map_name_of_alike {xs ys : List Context} (h : List.Forall₂ Alike xs ys) :
    ys.map name = xs.map name :=
  (Sequence.map_eq_map (h.imp fun _ _ hx => hx.name.symm)).symm

end Context

/-! ## Catalogues -/

namespace Catalogue

theorem alike_walkMessage (f : Trail → Place → Place × Trail) (t : Trail) (m : Message) :
    m.Alike (walkMessage f t m).1 := by
  refine ⟨rfl, fun h => ?_⟩
  show (Sequence.thread f t m.places).1 = []
  rw [h]
  rfl

theorem alike_walkContext (f : Trail → Place → Place × Trail) (t : Trail) (x : Context) :
    x.Alike (walkContext f t x).1 :=
  Context.alike_withMessages (Sequence.forall₂_thread (alike_walkMessage f) t x.messages)

theorem alike_walk (f : Trail → Place → Place × Trail) (c : Catalogue) :
    List.Forall₂ Context.Alike c.contexts (c.walk f).contexts :=
  Sequence.forall₂_thread (alike_walkContext f) {} c.contexts

theorem alike_strip (c : Catalogue) :
    List.Forall₂ Context.Alike c.contexts c.strip.contexts := by
  rw [strip, List.forall₂_map_right_iff, List.forall₂_same]
  intro x _
  refine Context.alike_withMessages ?_
  rw [List.forall₂_map_right_iff, List.forall₂_same]
  exact fun m _ => ⟨rfl, fun _ => rfl⟩

/-- **Rewriting the places changes nothing else,** whatever their style. -/
theorem alike_withPlaces (c : Catalogue) (style : Place.Style) :
    List.Forall₂ Context.Alike c.contexts (c.withPlaces style).contexts := by
  cases style with
  | absolute => exact alike_walk resolvePlace c
  | none => exact alike_strip c
  | relative =>
    have hresolve : List.Forall₂ Context.Alike c.contexts c.resolve.contexts :=
      alike_walk resolvePlace c
    have hwalk : List.Forall₂ Context.Alike c.resolve.contexts c.abbreviate.contexts :=
      alike_walk abbreviatePlace c.resolve
    exact Sequence.forall₂_comp hresolve hwalk fun _ _ _ => Context.Alike.trans

/-- The style of the places says nothing about the other parts of a catalogue. -/
theorem withPlaces_with_contexts (c : Catalogue) (style : Place.Style) (xs : List Context) :
    { c.withPlaces style with contexts := xs } = { c with contexts := xs } := by
  cases style <;> rfl

end Catalogue
end Linguist
