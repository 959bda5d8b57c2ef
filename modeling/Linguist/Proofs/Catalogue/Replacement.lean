import Linguist.Proofs.Catalogue.Lookup
import Linguist.Proofs.Catalogue.Survival
import Linguist.Proofs.Sequence

/-!
# A replaced target in the file

A target is replaced in a catalogue, and the catalogue is written and read again.  The
wordings of other messages may be taken for other ones then, where they do not fit, but the
replaced target is read as what it is (`exists_read_of_setTarget`).

Neither a replacement nor reading again changes the names of contexts and the keys of
messages, the *outline* of a catalogue.  So a message that had its address for itself has
it for itself in the end.  And a replacement brings no text into a catalogue but those of
the target, so that the file can be read if these can stand in elements.
-/

namespace Linguist

open Markup (IsContent)

/-! ## Outlines -/

namespace Context

/-- The name of a context and the keys of its messages. -/
def outline (x : Context) : String × List Message.Key :=
  (x.name, x.messages.map Message.key)

theorem outline_reread (x : Context) : x.reread.outline = x.outline := by
  rw [outline, outline, reread, withMessages, List.map_map]
  rfl

end Context

/-- Distinctness is a matter of outlines. -/
theorem Distinct.of_outlines {xs ys : List Context}
    (h : ys.map Context.outline = xs.map Context.outline) (hxs : Distinct xs) : Distinct ys := by
  have houtlines : ∀ zs : List Context, Distinct zs ↔
      ((zs.map Context.outline).map Prod.fst).Nodup ∧ ∀ o ∈ zs.map Context.outline, o.2.Nodup := by
    intro zs
    rw [List.map_map, List.forall_mem_map]
    exact Iff.rfl
  rw [houtlines] at hxs ⊢
  rwa [h]

namespace Catalogue

variable {c c' : Catalogue} {name source : String} {comment? : Option String} {t : Target}
  {m : Message}

theorem outlines_reread (c : Catalogue) :
    c.reread.contexts.map Context.outline = c.contexts.map Context.outline := by
  rw [reread, List.map_map]
  exact List.map_congr_left fun x _ => x.outline_reread

/-- **A replacement keeps the outline.** -/
theorem outlines_setTarget (h : c.setTarget name source comment? t = .ok c') :
    c'.contexts.map Context.outline = c.contexts.map Context.outline := by
  obtain ⟨xs, hxs, rfl⟩ := exists_of_setTarget h
  refine Sequence.map_of_changeFirst? (fun x y hy => ?_) hxs
  obtain ⟨ms, hms, rfl⟩ := exists_of_changeMessage? hy
  have hkeys := Sequence.map_of_changeFirst? (g := Message.key)
    (fun _ _ => key_of_retarget) hms
  exact congrArg (x.name, ·) hkeys

/-! ## Texts -/

/-- **A replacement brings in no texts but those of the target.** -/
theorem forall_contents_setTarget {P : String → Prop} (ht : ∀ s ∈ t.wording.all, P s)
    (h : c.setTarget name source comment? t = .ok c') (hc : ∀ s ∈ c.contents, P s) :
    ∀ s ∈ c'.contents, P s := by
  have hmessage : ∀ m : Message, (∀ s ∈ m.contents, P s) →
      ∀ s ∈ ({ m with target := t } : Message).contents, P s := by
    intro m hm
    rw [Message.forall_contents_iff] at hm ⊢
    obtain ⟨hsource, holdSource, hcomment, holdComment, hextra, htranslator, -⟩ := hm
    exact ⟨hsource, holdSource, hcomment, holdComment, hextra, htranslator, ht⟩
  have hcontext : ∀ x y : Context,
      (x.changeMessage? source comment? fun m => { m with target := t }) = some y →
        (∀ s ∈ x.contents, P s) → ∀ s ∈ y.contents, P s := by
    intro x y hy hx
    obtain ⟨ms, hms, rfl⟩ := exists_of_changeMessage? hy
    obtain ⟨hhead, hmessages⟩ := List.forall_mem_append.1 hx
    rw [List.forall_mem_flatMap] at hmessages
    refine List.forall_mem_append.2 ⟨hhead, List.forall_mem_flatMap.2 ?_⟩
    refine Sequence.forall_of_changeFirst? (fun m _ m' hm' hm => ?_) hms hmessages
    rw [← Option.some.inj hm']
    exact hmessage m hm
  obtain ⟨xs, hxs, rfl⟩ := exists_of_setTarget h
  rw [contents, List.forall_mem_flatMap] at hc ⊢
  exact Sequence.forall_of_changeFirst? (fun x _ y hy => hcontext x y hy) hxs hc

/-! ## Written and read -/

/-- A replaced target is found where the message was. -/
theorem mem_messages_setTarget (h : c.setTarget name source comment? t = .ok c')
    (hm : c.find? name source comment? = some m) :
    (name, { m with target := t }) ∈ c'.messages := by
  have hlookup := lookup_setTarget h (name, .of source comment?)
  rw [if_pos rfl, ← c.find?_eq_lookup, hm] at hlookup
  exact mem_of_lookup hlookup

/-- A message whose wording fits is read as itself. -/
theorem mem_messages_reread (h : (name, m) ∈ c.messages)
    (hfits : m.target.wording.Fits m.isPlural) : (name, m) ∈ c.reread.messages := by
  obtain ⟨x, hx, rfl, hm⟩ := exists_of_mem_listing h
  have hreread : m ∈ x.reread.messages :=
    List.mem_map.2 ⟨m, hm, Message.reread_eq_self_iff.2 hfits⟩
  have hcontext : x.reread ∈ c.reread.contexts := List.mem_map_of_mem hx
  exact mem_listing (x := x.reread) hcontext hreread

/-- **A replaced target is in the catalogue that is read back,** at an address that nothing
else has, if it fits its message and no text contains U+0000. -/
theorem exists_read_of_setTarget [Bytes.Registry] (h : c.setTarget name source comment? t = .ok c')
    (hm : c.find? name source comment? = some m) (hc : Distinct c.contexts)
    (htexts : ∀ s ∈ c.contents, IsContent s) (ht : ∀ s ∈ t.wording.all, IsContent s)
    (hfits : t.wording.Fits m.isPlural) :
    ∃ d, ofFileText c'.fileText = .ok d ∧ Distinct d.contexts ∧
      (name, { m with target := t }) ∈ d.messages := by
  refine ⟨c'.reread, ?_, ?_, mem_messages_reread (mem_messages_setTarget h hm) hfits⟩
  · rw [ofFileText_fileText_eq]
    exact ofNodes_toNodes_reread (forall_contents_setTarget ht h htexts)
  · exact hc.of_outlines ((outlines_reread c').trans (outlines_setTarget h))

end Catalogue
end Linguist
