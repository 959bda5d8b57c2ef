import Linguist.Catalogue.Elements
import Linguist.Proofs.Markup.Node

/-!
# The layout of a catalogue file

What is written for a catalogue are lines: an indentation and then an element, over and
over, with an indentation alone before the end tag.  So no text follows another, and
every list of nodes here is read as it was written (`Catalogue.areWritten_toNodes`),
whatever the texts and attributes of the catalogue are.

The optional parts of an element leave a line or nothing.  They are listed with their
names, and those `present` among them are the lines; the same is done for attributes,
so that the tags here are all `Tag.ofOptions` of a fixed list of names.
-/

namespace Linguist

open Markup (Node Tag IsWord AreWritten present Opens)

namespace Markup

/-- Elements after an indentation each. -/
def lines {α : Type} (indent : Nat) (node : α → Node) (as : List α) : List Node :=
  as.flatMap fun a => [.newline indent, node a]

theorem isWritten_newline (indent : Nat) : (Node.newline indent).IsWritten := by
  rw [Node.newline, Node.isWritten_text]
  refine ⟨List.cons_ne_nil _ _, ?_⟩
  simp [List.mem_replicate]

theorem areWritten_newline (indent : Nat) : AreWritten [.newline indent] :=
  areWritten_cons.2 ⟨isWritten_newline indent, by simp, areWritten_nil⟩

/-- One line in front of written nodes. -/
theorem areWritten_line (indent : Nat) {n : Node} {rest : List Node} (hn : n.IsWritten)
    (htext : n.isText = false) (hrest : AreWritten rest) :
    AreWritten (.newline indent :: n :: rest) :=
  areWritten_cons.2 ⟨isWritten_newline indent, by simp [htext],
    areWritten_cons.2 ⟨hn, by simp [htext], hrest⟩⟩

/-- Lines in front of written nodes. -/
theorem areWritten_lines {α : Type} (indent : Nat) {node : α → Node} {as : List α}
    (hnode : ∀ a ∈ as, (node a).IsWritten ∧ (node a).isText = false) {rest : List Node}
    (hrest : AreWritten rest) : AreWritten (lines indent node as ++ rest) := by
  induction as with
  | nil => exact hrest
  | cons a as ih =>
    obtain ⟨hn, htext⟩ := hnode a List.mem_cons_self
    exact areWritten_line indent hn htext (ih fun b hb => hnode b (List.mem_cons_of_mem a hb))

/-- The content of an element with a text: no node if the text is empty. -/
def content (text : String) : List Node :=
  if text.isEmpty then [] else [.text (protect text.toList)]

theorem areWritten_content (text : String) : AreWritten (content text) := by
  unfold content
  split
  · exact areWritten_nil
  · rename_i h
    have hne : text.toList ≠ [] := fun hnil => h (by simp [String.toList_eq_nil_iff.1 hnil])
    exact areWritten_cons.2
      ⟨Node.isWritten_text.2 ⟨protect_ne_nil hne, bracket_notMem_protect _⟩, by simp,
        areWritten_nil⟩

theorem isWritten_ofText {name : String} (hname : IsWord name) (text : String) :
    (Node.ofText name text).IsWritten :=
  Node.isWritten_element.2 ⟨Tag.isWritten_plain hname, areWritten_content text, rfl⟩

end Markup

open Markup (lines areWritten_line areWritten_lines areWritten_newline areWritten_nil
  areWritten_cons areWritten_content isWritten_ofText isWritten_newline)

/-! ## Tags -/

namespace Place

/-- The attributes of a place. -/
def attributes (p : Place) : List (String × Option String) :=
  [("filename", p.file?), ("line", p.line?.map LineNumber.text)]

theorem toNode_eq (p : Place) : p.toNode = .empty (Tag.ofOptions "location" p.attributes) := rfl

theorem isWritten_toNode (p : Place) : p.toNode.IsWritten := by
  have hwords : ∀ name ∈ ["filename", "line"], IsWord name := by decide
  rw [toNode_eq]
  exact Markup.Node.isWritten_empty.2 (Tag.isWritten_ofOptions (by decide) hwords)

end Place

namespace Target

/-- The attributes of a target. -/
def attributes (t : Target) : List (String × Option String) :=
  [("type", t.status.typeAttribute?), ("variants", t.wording.mark?)]

theorem toNode_eq (t : Target) :
    t.toNode = .ofTag (Tag.ofOptions "translation" t.attributes) t.wording.toNodes := rfl

end Target

namespace Message

/-- The attributes of a message. -/
def attributes (m : Message) : List (String × Option String) :=
  [("id", m.id?), ("numerus", if m.isPlural then some "yes" else none)]

theorem tag_eq (m : Message) : m.tag = Tag.ofOptions "message" m.attributes := rfl

/-- The optional texts of a message, in the order of the file. -/
def notes (m : Message) : List (String × Option String) :=
  [("oldsource", m.oldSource?), ("comment", m.comment?), ("oldcomment", m.oldComment?),
    ("extracomment", m.extraComment?), ("translatorcomment", m.translatorComment?)]

end Message

namespace Context

/-- The texts of a context, in the order of the file. -/
def texts (c : Context) : List (String × Option String) :=
  [("name", some c.name), ("comment", c.comment?)]

end Context

namespace Catalogue

/-- The attributes of a catalogue. -/
def attributes (c : Catalogue) : List (String × Option String) :=
  [("version", some c.version), ("language", c.language?), ("sourcelanguage", c.sourceLanguage?)]

theorem tag_eq (c : Catalogue) : c.tag = Tag.ofOptions "TS" c.attributes := rfl

end Catalogue

/-! ## Lines -/

/-- The element of a text that has a name. -/
def namedNode (a : String × String) : Node :=
  .ofText a.1 a.2

theorem lines_present (indent : Nat) (as : List (String × Option String)) :
    lines indent namedNode (present as) = as.flatMap fun (name, text?) =>
      match text? with
      | some text => [.newline indent, .ofText name text]
      | none => [] := by
  induction as with
  | nil => rfl
  | cons a as ih =>
    obtain ⟨name, text?⟩ := a
    rw [List.flatMap_cons, ← ih]
    cases text? <;> rfl

theorem areWritten_present (indent : Nat) (as : List (String × Option String))
    (hword : ∀ name ∈ as.map Prod.fst, IsWord name) {rest : List Node} (hrest : AreWritten rest) :
    AreWritten (lines indent namedNode (present as) ++ rest) := by
  refine areWritten_lines indent (fun a ha => ⟨isWritten_ofText ?_ a.2, rfl⟩) hrest
  exact hword a.1 ((Markup.map_fst_present_sublist as).subset (List.mem_map_of_mem ha))

namespace Wording

theorem areWritten_formNodes {element : String} (h : IsWord element) (texts : List String) :
    AreWritten (formNodes element texts) := by
  refine areWritten_lines 12 (fun s _ => ⟨isWritten_ofText h s, rfl⟩) ?_
  split
  · exact areWritten_nil
  · exact areWritten_newline 8

theorem areWritten_toNodes (w : Wording) : AreWritten w.toNodes := by
  cases w with
  | plain text => exact areWritten_content text
  | plural forms => exact areWritten_formNodes (by decide) forms
  | lengths variants => exact areWritten_formNodes (by decide) variants

end Wording

namespace Target

theorem isWritten_toNode (t : Target) : t.toNode.IsWritten := by
  have hwords : ∀ name ∈ ["type", "variants"], IsWord name := by decide
  rw [toNode_eq]
  exact Markup.Node.isWritten_element.2
    ⟨Tag.isWritten_ofOptions (by decide) hwords, t.wording.areWritten_toNodes, rfl⟩

end Target

namespace Message

theorem noteNodes_eq (m : Message) : m.noteNodes = lines 8 namedNode (present m.notes) :=
  (lines_present 8 m.notes).symm

/-- The nodes inside the element of a message. -/
def children (m : Message) : List Node :=
  lines 8 Place.toNode m.places ++
    (.newline 8 :: .ofText "source" m.source :: (lines 8 namedNode (present m.notes) ++
      [.newline 8, m.target.toNode, .newline 4]))

theorem toNode_eq (m : Message) : m.toNode = .ofTag (Tag.ofOptions "message" m.attributes)
    m.children := by
  rw [toNode, noteNodes_eq, children, tag_eq]
  simp [lines]

theorem areWritten_children (m : Message) : AreWritten m.children := by
  have hwords : ∀ name ∈ ["oldsource", "comment", "oldcomment", "extracomment",
      "translatorcomment"], IsWord name := by decide
  exact areWritten_lines 8 (fun p _ => ⟨p.isWritten_toNode, rfl⟩)
    (areWritten_line 8 (isWritten_ofText (by decide) m.source) rfl
      (areWritten_present 8 m.notes hwords
        (areWritten_line 8 m.target.isWritten_toNode rfl (areWritten_newline 4))))

theorem isWritten_toNode (m : Message) : m.toNode.IsWritten := by
  have hwords : ∀ name ∈ ["id", "numerus"], IsWord name := by decide
  rw [toNode_eq]
  exact Markup.Node.isWritten_element.2
    ⟨Tag.isWritten_ofOptions (by decide) hwords, m.areWritten_children, rfl⟩

end Message

namespace Context

/-- The nodes inside the element of a context. -/
def children (c : Context) : List Node :=
  lines 4 namedNode (present c.texts) ++ (lines 4 Message.toNode c.messages ++ [.newline 0])

theorem toNode_eq (c : Context) : c.toNode = .ofTag (.plain "context") c.children := by
  rw [toNode, children, lines_present]
  cases h : c.comment? <;> simp [texts, lines, h]

theorem areWritten_children (c : Context) : AreWritten c.children := by
  have hwords : ∀ name ∈ ["name", "comment"], IsWord name := by decide
  exact areWritten_present 4 c.texts hwords
    (areWritten_lines 4 (fun m _ => ⟨m.isWritten_toNode, rfl⟩) (areWritten_newline 0))

theorem isWritten_toNode (c : Context) : c.toNode.IsWritten := by
  rw [toNode_eq]
  exact Markup.Node.isWritten_element.2
    ⟨Tag.isWritten_plain (by decide), c.areWritten_children, rfl⟩

end Context

namespace Catalogue

/-- The nodes inside the element of a catalogue. -/
def children (c : Catalogue) : List Node :=
  lines 0 Context.toNode c.contexts ++ [.newline 0]

theorem toNode_eq (c : Catalogue) :
    c.toNode = .ofTag (Tag.ofOptions "TS" c.attributes) c.children := by
  have hshift : ∀ xs : List Context,
      .newline 0 :: (xs.flatMap fun x => [x.toNode, .newline 0]) =
        lines 0 Context.toNode xs ++ [.newline 0] := by
    intro xs
    induction xs with
    | nil => rfl
    | cons x xs ih =>
      rw [List.flatMap_cons, List.cons_append, List.cons_append, List.nil_append, ih]
      rfl
  rw [toNode, hshift, children, tag_eq]

theorem isWritten_toNode (c : Catalogue) : c.toNode.IsWritten := by
  have hwords : ∀ name ∈ ["version", "language", "sourcelanguage"], IsWord name := by decide
  have hchildren : AreWritten c.children :=
    areWritten_lines 0 (fun x _ => ⟨x.isWritten_toNode, rfl⟩) (areWritten_newline 0)
  rw [toNode_eq]
  exact Markup.Node.isWritten_element.2
    ⟨Tag.isWritten_ofOptions (by decide) hwords, hchildren, rfl⟩

/-! ## The file -/

theorem readsAsAside_declaration :
    Markup.ReadsAsAside "<?xml version=\"1.0\" encoding=\"utf-8\"?>".toList :=
  ⟨rfl, fun _ => Markup.events_bracket rfl⟩

theorem readsAsAside_doctype : Markup.ReadsAsAside "<!DOCTYPE TS>".toList :=
  ⟨rfl, fun _ => Markup.events_bracket rfl⟩

/-- **Every catalogue file is laid out so that its nodes can be told apart.** -/
theorem areWritten_toNodes (c : Catalogue) : AreWritten c.toNodes := by
  have haside {raw : List Char} (h : Markup.ReadsAsAside raw) : (Node.aside raw).IsWritten :=
    Markup.Node.isWritten_aside.2 h
  exact areWritten_cons.2 ⟨haside readsAsAside_declaration, by simp [Node.isText],
    areWritten_line 0 (haside readsAsAside_doctype) rfl
      (areWritten_line 0 c.isWritten_toNode rfl (areWritten_newline 0))⟩

/-- **The nodes of a catalogue file are those that were written.** -/
theorem nodesOfFile_fileText (c : Catalogue) :
    Markup.nodesOfFile c.fileText.toList = (c.toNodes, .endOfFile) := by
  rw [fileText, String.toList_ofList]
  exact Markup.nodesOfFile_renderAll c.areWritten_toNodes rfl

end Catalogue
end Linguist
