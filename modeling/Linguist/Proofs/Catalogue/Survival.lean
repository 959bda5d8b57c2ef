import Linguist.Proofs.Catalogue.Address
import Linguist.Proofs.Catalogue.FileForm

/-!
# Which catalogues survive their file

A catalogue survives its file if it is what its file reads as.  Two things stand in the
way, and nothing else (`Catalogue.survives_iff`): a text in the content of an element may
contain U+0000, and then the file cannot be read at all; or a wording may not fit the
plural mark of its message, and then the file reads as another catalogue.

That these are obstacles is shown from the inside out, as reading goes.  An element is
read only if each of its nodes is (`Markup.exists_of_foldlM`), so that a file that is read
has no text with U+0000 anywhere; and such a file reads as the catalogue with each wording
as what it is taken for, which is the catalogue itself only if every wording fits.

Both obstacles are in the head of a context or in a message, so that survival can be seen
from the heads and the listing (`Catalogue.survives_iff_messages`).  Places are none
(`Catalogue.survives_withPlaces_iff`).
-/

namespace Linguist

open Markup (Node Tag lines present visit readText content)

namespace Markup

variable {σ α β : Type}

/-! ## What it takes not to be refused -/

theorem exists_of_bind {x : Except Fault α} {f : α → Except Fault β} {b : β}
    (h : x >>= f = .ok b) : ∃ a, x = .ok a ∧ f a = .ok b := by
  cases x with
  | ok a => exact ⟨a, rfl, h⟩
  | error e => cases h

theorem exists_of_map {x : Except Fault α} {f : α → β} {b : β} (h : x.map f = .ok b) :
    ∃ a, x = .ok a ∧ f a = b := by
  cases x with
  | ok a => exact ⟨a, rfl, Except.ok.inj h⟩
  | error e => cases h

/-- What is visited to the end has every node taken in and its end in order. -/
theorem exists_of_visit {element : String} {step : σ → Node → Except Fault σ} {s s' : σ}
    {children : List Node} {ending : Ending} (h : visit element step s children ending = .ok s') :
    children.foldlM step s = .ok s' := by
  obtain ⟨t, hfold, h⟩ := exists_of_bind h
  obtain ⟨_, _, h⟩ := exists_of_bind h
  rw [hfold, Except.ok.inj h]

/-- **Every element of a walk that is not refused is taken in** at some time. -/
theorem exists_of_foldlM {step : σ → α → Except Fault σ} {as : List α} {s s' : σ}
    (h : as.foldlM step s = .ok s') {a : α} (ha : a ∈ as) : ∃ t t', step t a = .ok t' := by
  induction as generalizing s with
  | nil => cases ha
  | cons b as ih =>
    rw [List.foldlM_cons] at h
    obtain ⟨t, hb, hrest⟩ := exists_of_bind h
    rcases List.mem_cons.1 ha with rfl | ha
    · exact ⟨s, t, hb⟩
    · exact ih hrest ha

/-! ## Texts -/

/-- A text that can stand in the content of an element. -/
def IsContent (s : String) : Prop :=
  '\x00' ∉ s.toList

instance (s : String) : Decidable (IsContent s) :=
  inferInstanceAs (Decidable ('\x00' ∉ s.toList))

theorem isContent_of_readRaw {s : String} {cs : List Char}
    (h : readRaw (protect s.toList) = .ok cs) : IsContent s := by
  intro hmem
  rw [readRaw, unescape?_protect_of_mem hmem] at h
  cases h

/-- What is read from a text without characters is no obstacle. -/
theorem isContent_of_isEmpty {s : String} (h : s.isEmpty = true) : IsContent s := by
  rw [String.isEmpty_iff.1 h]
  decide

theorem isContent_of_readText {element s t : String}
    (h : readText element (content s) .closed = .ok t) : IsContent s := by
  obtain ⟨cs, hvisit, _⟩ := exists_of_map h
  have hfold := exists_of_visit hvisit
  unfold content at hfold
  split at hfold
  · rename_i hempty
    exact isContent_of_isEmpty hempty
  · obtain ⟨_, _, hstep⟩ := exists_of_foldlM hfold List.mem_cons_self
    obtain ⟨_, hraw, _⟩ := exists_of_map hstep
    exact isContent_of_readRaw hraw

/-- The node of an element is one of its lines. -/
theorem mem_lines (indent : Nat) (node : α → Node) {as : List α} {a : α} (h : a ∈ as) :
    node a ∈ lines indent node as :=
  List.mem_flatMap.2 ⟨a, h, List.mem_cons_of_mem _ List.mem_cons_self⟩

end Markup

open Markup (IsContent exists_of_bind exists_of_map exists_of_visit exists_of_foldlM
  isContent_of_readText isContent_of_readRaw isContent_of_isEmpty mem_lines ok_bind)

namespace Target

theorem isContent_of_addPart_numerusform {s : String} {p p' : Parts}
    (h : addPart p (.ofText "numerusform" s) = .ok p') : IsContent s := by
  change addPart p (.element (.plain "numerusform") (content s) .closed) = _ at h
  rw [addPart, if_pos (by rfl), Tag.attribute?_plain, ok_bind] at h
  obtain ⟨t, hread, _⟩ := exists_of_bind h
  exact isContent_of_readText hread

theorem isContent_of_addPart_lengthvariant {s : String} {p p' : Parts}
    (h : addPart p (.ofText "lengthvariant" s) = .ok p') : IsContent s := by
  change addPart p (.element (.plain "lengthvariant") (content s) .closed) = _ at h
  rw [addPart, if_neg (by decide), if_pos (by rfl)] at h
  obtain ⟨t, hread, _⟩ := exists_of_map h
  exact isContent_of_readText hread

/-- The texts of a wording that is read can stand in elements. -/
theorem isContent_of_toNodes {w : Wording} {p p' : Parts}
    (h : w.toNodes.foldlM addPart p = .ok p') : ∀ s ∈ w.all, IsContent s := by
  intro s hs
  cases w with
  | plain text =>
    obtain rfl : s = text := List.mem_singleton.1 hs
    by_cases hempty : s.isEmpty = true
    · exact isContent_of_isEmpty hempty
    · rw [Wording.toNodes, if_neg hempty] at h
      obtain ⟨_, _, hstep⟩ := exists_of_foldlM h List.mem_cons_self
      obtain ⟨_, htext, _⟩ := exists_of_map hstep
      obtain ⟨_, hraw, _⟩ := exists_of_map htext
      exact isContent_of_readRaw hraw
  | plural forms =>
    have hmem : Node.ofText "numerusform" s ∈ (Wording.plural forms).toNodes :=
      List.mem_append_left _ (mem_lines 12 (Node.ofText "numerusform") hs)
    obtain ⟨_, _, hstep⟩ := exists_of_foldlM h hmem
    exact isContent_of_addPart_numerusform hstep
  | lengths variants =>
    have hmem : Node.ofText "lengthvariant" s ∈ (Wording.lengths variants).toNodes :=
      List.mem_append_left _ (mem_lines 12 (Node.ofText "lengthvariant") hs)
    obtain ⟨_, _, hstep⟩ := exists_of_foldlM h hmem
    exact isContent_of_addPart_lengthvariant hstep

end Target

namespace Message

/-- A message that reads back: its texts can stand in elements, and its wording fits its
plural mark. -/
structure Writable (m : Message) : Prop where
  texts : ∀ s ∈ m.contents, IsContent s
  fits : m.target.wording.Fits m.isPlural

theorem writable_iff (m : Message) : m.Writable ↔
    (∀ s ∈ m.contents, IsContent s) ∧ m.target.wording.Fits m.isPlural :=
  ⟨fun h => ⟨h.texts, h.fits⟩, fun h => ⟨h.1, h.2⟩⟩

instance (m : Message) : Decidable m.Writable :=
  decidable_of_iff' _ m.writable_iff

theorem isContent_of_addNode {d d' : Draft} {name text : String} (hname : name ∈ textElements)
    (h : addNode d (.ofText name text) = .ok d') : IsContent text := by
  have hother : ∀ name ∈ textElements, name ≠ "location" ∧ name ≠ "translation" := by decide
  change addNode d (.element (.plain name) (content text) .closed) = _ at h
  rw [addNode, Tag.name_plain, if_neg (hother name hname).1, if_neg (hother name hname).2,
    if_pos (List.contains_iff_mem.2 hname)] at h
  obtain ⟨_, hread, _⟩ := exists_of_map h
  exact isContent_of_readText hread

/-- The texts of a message that is read can stand in elements. -/
theorem isContent_of_ofElement {m m' : Message}
    (h : ofElement (Tag.ofOptions "message" m.attributes) m.children .closed = .ok m') :
    ∀ s ∈ m.contents, IsContent s := by
  obtain ⟨_, _, h⟩ := exists_of_bind h
  obtain ⟨_, _, h⟩ := exists_of_bind h
  obtain ⟨_, hvisit, _⟩ := exists_of_bind h
  have hnode : ∀ n ∈ m.children, ∃ d d', addNode d n = .ok d' := fun n hn =>
    exists_of_foldlM (exists_of_visit hvisit) hn
  intro s hs
  rcases List.mem_append.1 hs with hs | hs
  · rcases List.mem_cons.1 hs with rfl | hs
    · obtain ⟨_, _, hstep⟩ := hnode (.ofText "source" m.source) (by simp [children])
      exact isContent_of_addNode (by decide) hstep
    · rw [← Markup.map_snd_present] at hs
      obtain ⟨a, ha, rfl⟩ := List.mem_map.1 hs
      have hnames : ∀ name ∈ m.notes.map Prod.fst, name ∈ textElements := by
        show ∀ name ∈ ["oldsource", "comment", "oldcomment", "extracomment",
          "translatorcomment"], name ∈ textElements
        decide
      have hname := hnames a.1
        ((Markup.map_fst_present_sublist m.notes).subset (List.mem_map_of_mem ha))
      have hline : namedNode a ∈ m.children :=
        List.mem_append_right _ (List.mem_cons_of_mem _ (List.mem_cons_of_mem _
          (List.mem_append_left _ (mem_lines 8 _ ha))))
      obtain ⟨_, _, hstep⟩ := hnode _ hline
      exact isContent_of_addNode hname hstep
  · obtain ⟨d, _, hstep⟩ := hnode m.target.toNode (by simp [children])
    rw [m.target.toNode_eq, Node.ofTag, addNode, Tag.name_ofOptions, if_neg (by decide),
      if_pos rfl] at hstep
    obtain ⟨_, htarget, _⟩ := exists_of_map hstep
    obtain ⟨_, _, htarget⟩ := exists_of_bind htarget
    obtain ⟨_, _, htarget⟩ := exists_of_bind htarget
    obtain ⟨_, hparts, _⟩ := exists_of_bind htarget
    exact Target.isContent_of_toNodes (exists_of_visit hparts) s hs

end Message

namespace Context

/-- A context that reads back: its name, its comment and its messages do. -/
structure Writable (x : Context) : Prop where
  texts : ∀ s ∈ x.texts.filterMap Prod.snd, IsContent s
  messages : ∀ m ∈ x.messages, m.Writable

theorem writable_iff (x : Context) : x.Writable ↔
    (∀ s ∈ x.texts.filterMap Prod.snd, IsContent s) ∧ ∀ m ∈ x.messages, m.Writable :=
  ⟨fun h => ⟨h.texts, h.messages⟩, fun h => ⟨h.1, h.2⟩⟩

instance (x : Context) : Decidable x.Writable :=
  decidable_of_iff' _ x.writable_iff

/-- The texts of a context that is read can stand in elements. -/
theorem isContent_of_ofElement {x x' : Context} (h : ofElement x.children .closed = .ok x') :
    ∀ s ∈ x.contents, IsContent s := by
  obtain ⟨_, hvisit, _⟩ := exists_of_bind h
  have hnode : ∀ n ∈ x.children, ∃ d d', addNode d n = .ok d' := fun n hn =>
    exists_of_foldlM (exists_of_visit hvisit) hn
  intro s hs
  rcases List.mem_append.1 hs with hs | hs
  · rw [← Markup.map_snd_present] at hs
    obtain ⟨a, ha, rfl⟩ := List.mem_map.1 hs
    have hnames : ∀ name ∈ x.texts.map Prod.fst, name = "name" ∨ name = "comment" := by
      show ∀ name ∈ ["name", "comment"], name = "name" ∨ name = "comment"
      decide
    have hname := hnames a.1
      ((Markup.map_fst_present_sublist x.texts).subset (List.mem_map_of_mem ha))
    obtain ⟨d, d', hstep⟩ := hnode (namedNode a) (List.mem_append_left _ (mem_lines _ _ ha))
    change addNode d (.element (.plain a.1) (content a.2) .closed) = _ at hstep
    rcases hname with hname | hname
    · rw [hname, addNode, Tag.name_plain, if_pos rfl] at hstep
      obtain ⟨_, hread, _⟩ := exists_of_map hstep
      exact isContent_of_readText hread
    · rw [hname, addNode, Tag.name_plain, if_neg (by decide), if_pos rfl] at hstep
      obtain ⟨_, hread, _⟩ := exists_of_map hstep
      exact isContent_of_readText hread
  · obtain ⟨m, hm, hs⟩ := List.mem_flatMap.1 hs
    obtain ⟨d, d', hstep⟩ := hnode m.toNode
      (List.mem_append_right _ (List.mem_append_left _ (mem_lines _ _ hm)))
    rw [m.toNode_eq, Node.ofTag, addNode, Tag.name_ofOptions, if_neg (by decide),
      if_neg (by decide), if_pos rfl] at hstep
    obtain ⟨_, hmessage, _⟩ := exists_of_map hstep
    exact Message.isContent_of_ofElement hmessage s hs

end Context

namespace Catalogue

/-- The texts of a catalogue that is read can stand in elements. -/
theorem isContent_of_ofNodes {c c' : Catalogue} (h : ofNodes c.toNodes .endOfFile = .ok c') :
    ∀ s ∈ c.contents, IsContent s := by
  rw [toNodes, toNode_eq] at h
  change (checkRoot (Tag.ofOptions "TS" c.attributes) >>= fun _ =>
    ofTag (Tag.ofOptions "TS" c.attributes) >>= fun d =>
      visit "TS" addNode d c.children .closed) = _ at h
  obtain ⟨_, _, h⟩ := exists_of_bind h
  obtain ⟨_, _, hvisit⟩ := exists_of_bind h
  intro s hs
  obtain ⟨x, hx, hs⟩ := List.mem_flatMap.1 hs
  obtain ⟨d, d', hstep⟩ := exists_of_foldlM (exists_of_visit hvisit) (a := x.toNode)
    (List.mem_append_left _ (mem_lines _ _ hx))
  rw [x.toNode_eq, Node.ofTag, addNode, Tag.name_plain, if_pos rfl] at hstep
  obtain ⟨_, hcontext, _⟩ := exists_of_map hstep
  exact Context.isContent_of_ofElement hcontext s hs

/-- Reading a written file is reading the nodes that were written. -/
theorem ofFileText_fileText_eq [Bytes.Registry] (c : Catalogue) :
    ofFileText c.fileText = ofNodes c.toNodes .endOfFile := by
  rw [ofFileText, ofFile, c.decodeFile_fileText, ok_bind, ofMarkup, c.nodesOfFile_fileText]

/-- A catalogue survives its file if it is what its file reads as. -/
def Survives [Bytes.Registry] (c : Catalogue) : Prop :=
  ofFileText c.fileText = .ok c

/-- **A catalogue survives its file if and only if each of its contexts reads back.** -/
theorem survives_iff [Bytes.Registry] (c : Catalogue) :
    c.Survives ↔ ∀ x ∈ c.contexts, x.Writable := by
  rw [Survives, ofFileText_fileText_eq]
  constructor
  · intro h x hx
    have htexts := isContent_of_ofNodes h
    have hreread : c.reread = c := by
      rw [ofNodes_toNodes_reread htexts] at h
      exact Except.ok.inj h
    have hcontexts : c.contexts.map Context.reread = c.contexts.map id :=
      (congrArg contexts hreread).trans (List.map_id _).symm
    have hmessages : x.messages.map Message.reread = x.messages.map id :=
      (congrArg Context.messages (List.map_inj_left.1 hcontexts x hx)).trans (List.map_id _).symm
    refine ⟨fun s hs => htexts s (List.mem_flatMap.2 ⟨x, hx, List.mem_append_left _ hs⟩),
      fun m hm => ⟨fun s hs => htexts s (List.mem_flatMap.2 ⟨x, hx, ?_⟩), ?_⟩⟩
    · exact List.mem_append_right _ (List.mem_flatMap.2 ⟨m, hm, hs⟩)
    · exact Message.reread_eq_self_iff.1 (List.map_inj_left.1 hmessages m hm)
  · intro h
    refine ofNodes_toNodes (fun x hx m hm => ((h x hx).messages m hm).fits) fun s hs => ?_
    obtain ⟨x, hx, hs⟩ := List.mem_flatMap.1 hs
    rcases List.mem_append.1 hs with hs | hs
    · exact (h x hx).texts s hs
    · obtain ⟨m, hm, hs⟩ := List.mem_flatMap.1 hs
      exact ((h x hx).messages m hm).texts s hs

instance [Bytes.Registry] (c : Catalogue) : Decidable c.Survives :=
  decidable_of_iff' _ c.survives_iff

end Catalogue

/-! ## Message by message -/

namespace Message

variable {m m' : Message}

/-- The texts of a message, one by one. -/
theorem forall_contents_iff (P : String → Prop) (m : Message) :
    (∀ s ∈ m.contents, P s) ↔ P m.source ∧ (∀ s ∈ m.oldSource?, P s) ∧ (∀ s ∈ m.comment?, P s) ∧
      (∀ s ∈ m.oldComment?, P s) ∧ (∀ s ∈ m.extraComment?, P s) ∧
      (∀ s ∈ m.translatorComment?, P s) ∧ ∀ s ∈ m.target.wording.all, P s := by
  have hnotes : (∀ s ∈ m.notes.filterMap Prod.snd, P s) ↔ ∀ a ∈ m.notes, ∀ s ∈ a.2, P s := by
    simp only [List.mem_filterMap, Option.mem_def]
    exact ⟨fun h a ha s hs => h s ⟨a, ha, hs⟩, fun h s ⟨a, ha, hs⟩ => h a ha s hs⟩
  rw [contents, List.forall_mem_append, List.forall_mem_cons, hnotes, notes]
  simp only [List.forall_mem_cons, List.not_mem_nil, false_implies, implies_true, and_true,
    and_assoc]

/-- Places are no obstacle. -/
theorem Alike.writable_iff (h : m.Alike m') : m.Writable ↔ m'.Writable := by
  have hbare : ∀ m : Message, m.bare.Writable ↔ m.Writable := fun m =>
    ⟨fun h => ⟨h.texts, h.fits⟩, fun h => ⟨h.texts, h.fits⟩⟩
  rw [← hbare m, ← hbare m', h.bare]

end Message

namespace Context

variable {x y : Context}

/-- The name and the comment of a context can stand in elements. -/
def Headed (x : Context) : Prop :=
  ∀ s ∈ x.texts.filterMap Prod.snd, IsContent s

theorem headed_iff (x : Context) :
    x.Headed ↔ IsContent x.name ∧ ∀ s ∈ x.comment?, IsContent s := by
  obtain ⟨name, comment?, messages⟩ := x
  cases comment? <;> simp [Headed, texts]

theorem Headed.withMessages (h : x.Headed) (ms : List Message) : (x.withMessages ms).Headed := h

theorem Alike.headed_iff (h : x.Alike y) : x.Headed ↔ y.Headed := by
  rw [x.headed_iff, y.headed_iff, h.name, h.comment?]

theorem Alike.writable_iff (h : x.Alike y) : x.Writable ↔ y.Writable := by
  have hmessages := Sequence.forall_iff_of_forall₂ (fun _ _ hm => hm.writable_iff) h.messages
  rw [x.writable_iff, y.writable_iff, hmessages]
  exact and_congr_left fun _ => h.headed_iff

end Context

namespace Catalogue

/-- A catalogue survives if the heads of its contexts and all its messages are written. -/
theorem survives_iff_messages [Bytes.Registry] (c : Catalogue) :
    c.Survives ↔ (∀ x ∈ c.contexts, x.Headed) ∧ ∀ p ∈ listing c.contexts, p.2.Writable := by
  rw [survives_iff]
  constructor
  · intro h
    refine ⟨fun x hx => (h x hx).texts, fun p hp => ?_⟩
    obtain ⟨x, hx, _, hm⟩ := exists_of_mem_listing hp
    exact (h x hx).messages p.2 hm
  · exact fun h x hx => ⟨h.1 x hx, fun m hm => h.2 _ (mem_listing hx hm)⟩

/-- **The style of the places is no obstacle.** -/
theorem survives_withPlaces_iff [Bytes.Registry] (c : Catalogue) (style : Place.Style) :
    (c.withPlaces style).Survives ↔ c.Survives := by
  rw [survives_iff, survives_iff]
  exact (Sequence.forall_iff_of_forall₂ (fun _ _ hx => hx.writable_iff)
    (c.alike_withPlaces style)).symm

end Catalogue

end Linguist
