import Linguist.Proofs.Merge.Retirement

/-!
# A merge does not look at old places

An old message that is taken gets the places of the collected one, and one that is left
over loses its own.  So the places of the old catalogue have no influence on the merge,
neither on the merged contexts nor on the counters (`mergeContexts_strip`); they may be
rewritten before it, or taken away.

The proof carries this through the merge from the inside out: every function of the
merge that is given a state without places gives what it gives otherwise, and a state
without places.
-/

namespace Linguist

namespace Sequence

variable {α β σ τ : Type}

/-- If a step does not see what a change of the state takes away, the walk does not see
it. -/
theorem thread_change {change : σ → τ} {f : σ → α → β × σ} {f' : τ → α → β × τ}
    (h : ∀ s a, f' (change s) a = ((f s a).1, change (f s a).2)) (s : σ) (as : List α) :
    thread f' (change s) as = ((thread f s as).1, change (thread f s as).2) := by
  induction as generalizing s with
  | nil => rfl
  | cons a rest ih => rw [thread_cons, h, ih, thread_cons]

end Sequence

namespace Context

/-- The context without places. -/
def bare (x : Context) : Context :=
  x.withMessages (x.messages.map Message.bare)

theorem Alike.bare_eq {x y : Context} (h : x.Alike y) : y.bare = x.bare := by
  obtain ⟨name, comment?, ms⟩ := x
  obtain ⟨name', comment?', ms'⟩ := y
  obtain ⟨hname, hcomment, hmessages⟩ := h
  have hbare : ms'.map Message.bare = ms.map Message.bare :=
    (Sequence.map_eq_map (hmessages.imp fun _ _ hm => hm.bare.symm)).symm
  rw [show name' = name from hname, show comment?' = comment? from hcomment, bare, bare,
    withMessages, withMessages, hbare]

end Context

namespace Catalogue

/-- Catalogues that differ in their places only are the same without places. -/
theorem strip_withPlaces (c : Catalogue) (style : Place.Style) :
    (c.withPlaces style).strip = c.strip := by
  have hcontexts : (c.withPlaces style).contexts.map Context.bare =
      c.contexts.map Context.bare :=
    (Sequence.map_eq_map ((c.alike_withPlaces style).imp fun _ _ hx => hx.bare_eq.symm)).symm
  calc (c.withPlaces style).strip
      = { c.withPlaces style with
          contexts := (c.withPlaces style).contexts.map Context.bare } := rfl
    _ = { c with contexts := c.contexts.map Context.bare } := by
        rw [withPlaces_with_contexts, hcontexts]

theorem messages_strip (c : Catalogue) :
    c.strip.messages = c.messages.map fun p => (p.1, p.2.bare) := by
  show (c.contexts.map Context.bare).flatMap Context.listing =
    (c.contexts.flatMap Context.listing).map fun p => (p.1, p.2.bare)
  rw [List.flatMap_map, List.map_flatMap]
  refine congrArg (List.flatMap · c.contexts) (funext fun x => ?_)
  rw [Context.listing, Context.listing, Context.bare, Context.withMessages, List.map_map,
    List.map_map]
  rfl

end Catalogue

namespace Merge

variable (setting : Setting) (options : Options)

/-! ## Taking -/

/-- The pool without places. -/
def Pool.bare (p : Pool) : Pool :=
  { p with messages := p.messages.map Message.bare }

/-- The state without places in its pools. -/
def State.bare (s : State) : State :=
  { s with pools := s.pools.map Pool.bare }

theorem Pool.take?_bare (p : Pool) (key : Message.Key) :
    p.bare.take? key = (p.take? key).map fun (m, p) => (m.bare, p.bare) := by
  rw [Pool.take?, Pool.take?]
  show (if p.spent.contains key then none else _) = _
  split
  · rfl
  · show ((p.messages.map Message.bare).find? (·.key == key)).map _ = _
    rw [List.find?_map, Option.map_map, Option.map_map]
    refine congrArg (Option.map · (p.messages.find? (·.key == key))) (funext fun m => ?_)
    show (m.bare, { p with
      messages := (p.messages.map Message.bare).eraseP (·.key == key), spent := _ }) = _
    rw [List.eraseP_map]
    rfl

theorem take?_bare (name : String) (key : Message.Key) (pools : List Pool) :
    take? name key (pools.map Pool.bare) =
      (take? name key pools).map fun (m, pools) => (m.bare, pools.map Pool.bare) := by
  induction pools with
  | nil => rfl
  | cons p rest ih =>
    rw [List.map_cons, take?, take?]
    show (if p.name = name then _ else _) = _
    split
    · rw [Pool.take?_bare, Option.map_map, Option.map_map]
      rfl
    · rw [ih, Option.map_map, Option.map_map]
      rfl

/-! ## Merging -/

theorem mergeOld_bare (old collected : Message) (r : Report) :
    mergeOld old.bare collected r = mergeOld old collected r := rfl

theorem mergeMessage_bare (context : String) (s : State) (collected : Message) :
    mergeMessage setting context s.bare collected =
      ((mergeMessage setting context s collected).1,
        (mergeMessage setting context s collected).2.bare) := by
  have htake := take?_bare context collected.key s.pools
  cases h : take? context collected.key s.pools with
  | none =>
    rw [h] at htake
    rw [mergeMessage_of_none setting context s collected h,
      mergeMessage_of_none setting context s.bare collected htake]
    rfl
  | some taken =>
    obtain ⟨old, pools⟩ := taken
    rw [h] at htake
    rw [mergeMessage_of_some setting context s collected h,
      mergeMessage_of_some setting context s.bare collected htake, mergeOld_bare]
    rfl

theorem contextComment?_bare (pools : List Pool) (collected : Context) :
    contextComment? (pools.map Pool.bare) collected = contextComment? pools collected := by
  rw [contextComment?, contextComment?, List.find?_map, Option.bind_map]
  rfl

theorem mergeContext_bare (s : State) (collected : Context) :
    mergeContext setting s.bare collected =
      ((mergeContext setting s collected).1, (mergeContext setting s collected).2.bare) := by
  have hthread := Sequence.thread_change (mergeMessage_bare setting collected.name) s
    collected.messages
  have hcomment := contextComment?_bare s.pools collected
  rw [mergeContext, hthread]
  show ((⟨collected.name, contextComment? (s.pools.map Pool.bare) collected, _⟩ : Context), _) = _
  rw [hcomment]
  rfl

/-! ## Retiring -/

theorem retirePool_bare (xs : List Context) (r : Report) (p : Pool) :
    retirePool options xs r p.bare = retirePool options xs r p := by
  have hleft : p.bare.messages.filterMap (retire? options) =
      p.messages.filterMap (retire? options) := List.filterMap_map
  have hlength : p.bare.messages.length = p.messages.length := List.length_map _
  rw [retirePool, hleft, hlength]
  rfl

theorem retirePools_bare (pools : List Pool) (xs : List Context) (r : Report) :
    retirePools options (pools.map Pool.bare) xs r = retirePools options pools xs r := by
  induction pools generalizing xs r with
  | nil => rfl
  | cons p pools ih =>
    rw [List.map_cons, retirePools_cons, retirePools_cons, retirePool_bare, ih]

/-! ## The whole -/

theorem suggestions_strip (c : Catalogue) : suggestions c.strip = suggestions c := by
  rw [suggestions, suggestions, Catalogue.messages_strip, List.filterMap_map]
  rfl

theorem walked_strip (existing extracted : Catalogue) :
    walked options existing.strip extracted =
      ((walked options existing extracted).1, (walked options existing extracted).2.bare) := by
  have hsetting : settingOf options existing.strip = settingOf options existing := by
    rw [settingOf, settingOf, suggestions_strip]
    rfl
  have hpools : existing.strip.contexts.map Pool.ofContext =
      (existing.contexts.map Pool.ofContext).map Pool.bare := by
    rw [List.map_map]
    exact List.map_map
  rw [walked, hsetting, hpools]
  exact Sequence.thread_change (mergeContext_bare (settingOf options existing))
    ⟨existing.contexts.map Pool.ofContext, {}⟩ extracted.contexts

/-- **A merge does not look at old places.** -/
theorem mergeContexts_strip (existing extracted : Catalogue) :
    mergeContexts options existing.strip extracted = mergeContexts options existing extracted := by
  rw [mergeContexts_eq, mergeContexts_eq, walked_strip]
  exact retirePools_bare options _ _ _

/-- **Places can be rewritten before a merge** without any effect on it. -/
theorem mergeContexts_withPlaces (existing extracted : Catalogue) (style : Place.Style) :
    mergeContexts options (existing.withPlaces style) extracted =
      mergeContexts options existing extracted := by
  rw [← mergeContexts_strip, Catalogue.strip_withPlaces, mergeContexts_strip]

end Merge
end Linguist
