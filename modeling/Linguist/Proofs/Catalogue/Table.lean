import Linguist.Proofs.Catalogue.Address
import Linguist.Proofs.Catalogue.Elements
import Linguist.Proofs.Catalogue.Rows
import Linguist.Proofs.Csv.Places
import Linguist.Proofs.Csv.Row

/-!
# What a table keeps of a catalogue

A table that is read as a catalogue of its own gives back the catalogue it was written
from, as far as a table goes (`Catalogue.ofRows_readRows`).  There are no cells for the
version, the source language, the comments of contexts, and some of the notes of a message:
what is left without them is `Catalogue.tabulated`.

The texts are quoted in their cells, so they may be anything.  What a table cannot tell
apart is excluded by `Catalogue.Tabular`: places that are no items of a list, comments that
are present and empty, contexts of one name, and contexts without messages.  The plural mark
has no cell either and is read off the wording.

A message is added to the last context of its name, and new names are put at the end.  So
the messages of one context, which follow each other in the table, come to stand in one
context again (`foldl_addMessage_messages`), and the contexts in their order
(`foldl_addMessage_listing`).
-/

namespace Linguist

open Markup (foldlM_eq_ok)

namespace Message

/-- What a table keeps of a message. -/
def tabulated (m : Message) : Message :=
  { m with id? := none, oldSource? := none, oldComment? := none, translatorComment? := none }

/-- The message can be told from its row. -/
structure Tabular (m : Message) : Prop where
  isPlural : m.isPlural = m.target.wording.isPlural
  comment? : m.comment? ≠ some ""
  extraComment? : m.extraComment? ≠ some ""

theorem Alike.tabular_iff {m m' : Message} (h : m.Alike m') : m.Tabular ↔ m'.Tabular := by
  have hbare : ∀ m : Message, m.bare.Tabular ↔ m.Tabular := fun m =>
    ⟨fun h => ⟨h.1, h.2, h.3⟩, fun h => ⟨h.1, h.2, h.3⟩⟩
  rw [← hbare m, ← hbare m', h.bare]

end Message

/-- **A message reads back from its row,** as far as a row goes. -/
theorem Csv.Row.toMessage_ofMessage {m : Message} (context : String) (hm : m.Tabular)
    (hplaces : ∀ p ∈ m.places, p.Tabular) :
    (ofMessage context m).toMessage = .ok m.tabulated := by
  have hextra : (if (ofMessage context m).extraComment.isEmpty then none
      else some (ofMessage context m).extraComment) = m.extraComment? :=
    absent_if_empty hm.extraComment?
  rw [toMessage, readWording_ofMessage, Markup.ok_bind, readStatus_ofMessage, Markup.ok_bind,
    readPlaces_of_tabular rfl hplaces, Markup.ok_bind, comment?_ofMessage context m hm.comment?,
    hextra, ← hm.isPlural]
  rfl

namespace Context

/-- What a table keeps of a context. -/
def tabulated (x : Context) : Context :=
  { x with comment? := none, messages := x.messages.map Message.tabulated }

theorem Alike.messages_eq_nil_iff {x y : Context} (h : x.Alike y) :
    x.messages = [] ↔ y.messages = [] := by
  rw [← List.length_eq_zero_iff, ← List.length_eq_zero_iff, h.messages.length_eq]

end Context

namespace Catalogue

/-- What a table keeps of a catalogue: the places are written out, the version is the usual
one, and there is neither source language nor context comment. -/
def tabulated (c : Catalogue) : Catalogue where
  language? := c.language?
  contexts := c.resolve.contexts.map Context.tabulated

/-- The catalogue can be told from its table. -/
structure Tabular (c : Catalogue) : Prop where
  names : (c.contexts.map Context.name).Nodup
  inhabited : ∀ x ∈ c.contexts, x.messages ≠ []
  messages : ∀ x ∈ c.contexts, ∀ m ∈ x.messages, m.Tabular
  places : ∀ x ∈ c.resolve.contexts, ∀ m ∈ x.messages, ∀ p ∈ m.places, p.Tabular

instance (m : Message) : Decidable m.Tabular :=
  decidable_of_iff (_ ∧ _ ∧ _) ⟨fun h => ⟨h.1, h.2.1, h.2.2⟩, fun h => ⟨h.1, h.2, h.3⟩⟩

instance (c : Catalogue) : Decidable c.Tabular :=
  decidable_of_iff (_ ∧ _ ∧ _ ∧ _)
    ⟨fun h => ⟨h.1, h.2.1, h.2.2.1, h.2.2.2⟩, fun h => ⟨h.1, h.2, h.3, h.4⟩⟩

/-! ## Contexts in the order of their first messages -/

theorem changeContext_append {name : String} (f : Context → Context) {ys : List Context}
    (h : name ∉ ys.map Context.name) (zs : List Context) :
    changeContext name f (ys ++ zs) = ys ++ changeContext name f zs := by
  induction ys with
  | nil => rfl
  | cons y ys ih =>
    rw [List.map_cons, List.mem_cons, not_or] at h
    rw [List.cons_append, changeContext, if_neg (by simpa using Ne.symm h.1), ih h.2,
      List.cons_append]

/-- A further message of the last context. -/
theorem addMessage_last (c : Catalogue) {ys : List Context} {name : String}
    (h : name ∉ ys.map Context.name) (ms : List Message) (m : Message) :
    ({ c with contexts := ys ++ [{ name, messages := ms }] } : Catalogue).addMessage name m =
      { c with contexts := ys ++ [{ name, messages := ms ++ [m] }] } := by
  rw [addMessage, changeContext_append _ h, changeContext, if_pos (beq_self_eq_true name)]
  rfl

/-- The messages of one name come to stand in one context. -/
theorem foldl_addMessage_last (c : Catalogue) {ys : List Context} {name : String}
    (h : name ∉ ys.map Context.name) (ms more : List Message) :
    more.foldl (fun c m => c.addMessage name m)
        ({ c with contexts := ys ++ [{ name, messages := ms }] } : Catalogue) =
      { c with contexts := ys ++ [{ name, messages := ms ++ more }] } := by
  induction more generalizing ms with
  | nil => rw [List.foldl_nil, List.append_nil]
  | cons m more ih =>
    rw [List.foldl_cons, addMessage_last c h, ih, List.append_assoc, List.singleton_append]

/-- So do the messages of a new name, unless there are none. -/
theorem foldl_addMessage_new (c : Catalogue) {ys : List Context} {name : String}
    (h : name ∉ ys.map Context.name) {ms : List Message} (hms : ms ≠ []) :
    ms.foldl (fun c m => c.addMessage name m) ({ c with contexts := ys } : Catalogue) =
      { c with contexts := ys ++ [{ name, messages := ms }] } := by
  cases ms with
  | nil => exact absurd rfl hms
  | cons m ms =>
    have hfirst : ({ c with contexts := ys } : Catalogue).addMessage name m =
        { c with contexts := ys ++ [{ name, messages := [m] }] } := by
      have hend := changeContext_append (fun x => x.withMessages (x.messages ++ [m])) h []
      rw [List.append_nil] at hend
      rw [addMessage, hend]
      rfl
    rw [List.foldl_cons, hfirst, foldl_addMessage_last c h, List.singleton_append]

/-- **The contexts come to stand in their order,** if no name repeats and none is empty. -/
theorem foldl_addMessage_listing (c : Catalogue) {ys xs : List Context}
    (hnames : ((ys ++ xs).map Context.name).Nodup) (hxs : ∀ x ∈ xs, x.messages ≠ []) :
    (listing xs).foldl (fun c p => c.addMessage p.1 p.2.tabulated)
        ({ c with contexts := ys } : Catalogue) =
      { c with contexts := ys ++ xs.map Context.tabulated } := by
  induction xs generalizing ys with
  | nil => rw [listing_nil, List.foldl_nil, List.map_nil, List.append_nil]
  | cons x xs ih =>
    obtain ⟨hx, hxs⟩ := List.forall_mem_cons.1 hxs
    have hname : x.name ∉ ys.map Context.name := notMem_of_nodup_append hnames
    have hcontext : x.listing.foldl (fun c p => c.addMessage p.1 p.2.tabulated)
        ({ c with contexts := ys } : Catalogue) = { c with contexts := ys ++ [x.tabulated] } := by
      have hmessages : x.messages.map Message.tabulated ≠ [] := by simpa using hx
      rw [Context.listing, List.foldl_map, ← List.foldl_map (f := Message.tabulated)
        (g := fun c m => addMessage c x.name m), foldl_addMessage_new c hname hmessages]
      rfl
    have hnames' : ((ys ++ [x.tabulated] ++ xs).map Context.name).Nodup := by
      simpa [Context.tabulated] using hnames
    rw [listing_cons, List.foldl_append, hcontext, ih hnames' hxs, List.map_cons,
      List.append_assoc, List.singleton_append]

/-! ## The table of a catalogue -/

/-- **The table of a catalogue reads as the catalogue,** as far as a table goes. -/
theorem ofRows_readRows {c : Catalogue} (h : c.Tabular) :
    (Csv.readRows (Bytes.ofText (Csv.renderRows c.toRows)) >>= ofRows c.language?) =
      .ok c.tabulated := by
  have halike : List.Forall₂ Context.Alike c.contexts c.resolve.contexts :=
    alike_walk resolvePlace c
  have hnames : (([] ++ c.resolve.contexts).map Context.name).Nodup := by
    rw [List.nil_append, Context.map_name_of_alike halike]
    exact h.names
  have hinhabited : ∀ x ∈ c.resolve.contexts, x.messages ≠ [] :=
    (Sequence.forall_iff_of_forall₂ (fun _ _ hx => not_congr hx.messages_eq_nil_iff) halike).1
      h.inhabited
  have hmessages : ∀ x ∈ c.resolve.contexts, ∀ m ∈ x.messages, m.Tabular :=
    (Sequence.forall_iff_of_forall₂ (fun _ _ hx => Sequence.forall_iff_of_forall₂
      (fun _ _ hm => Message.Alike.tabular_iff hm) hx.messages) halike).1 h.messages
  have hrow : ∀ d : Catalogue, ∀ p ∈ c.resolve.messages,
      (Csv.Row.ofMessage p.1 p.2).toMessage.map (d.addMessage (Csv.Row.ofMessage p.1 p.2).context) =
        .ok (d.addMessage p.1 p.2.tabulated) := by
    intro d p hp
    obtain ⟨x, hx, -, hm⟩ := exists_of_mem_listing hp
    rw [Csv.Row.toMessage_ofMessage p.1 (hmessages x hx p.2 hm) (h.places x hx p.2 hm)]
    rfl
  rw [Csv.readRows_renderRows, Markup.ok_bind, ofRows, toRows, List.foldlM_map,
    foldlM_eq_ok hrow]
  exact congrArg Except.ok
    (foldl_addMessage_listing { language? := c.language? } hnames hinhabited)

/-- A catalogue whose texts hold whatever separates cells, lines, forms and items. -/
def handout : Catalogue where
  language? := some "uk"
  contexts := [
    { name := "a,\"b\"", messages := [
      { places := [⟨some "C:/a.cpp", some (.absolute 3)⟩, ⟨none, some (.relative 4)⟩]
        source := "x\r\n;\x00", comment? := some "[\"", target := ⟨.finished, .plain " \\u0041"⟩ },
      { isPlural := true, source := "%n", extraComment? := some ","
        target := ⟨.unfinished, .plural ["\"", "],[", "\x1b\n"]⟩ }] },
    { name := "", messages := [
      { places := [⟨some "a b.cpp", none⟩], source := "x", target := ⟨.obsolete, .lengths []⟩ }] }]

set_option maxRecDepth 20000 in
theorem handout_reads_back : handout.Tabular ∧
    (Csv.readRows (Bytes.ofText (Csv.renderRows handout.toRows)) >>= ofRows handout.language?) =
      .ok handout.tabulated := by
  have htabular : handout.Tabular := by decide
  exact ⟨htabular, ofRows_readRows htabular⟩

end Catalogue
end Linguist
