import Linguist.Proofs.Catalogue.Survival
import Linguist.Proofs.Markup.Ignorable

/-!
# Files with more in them than was written

Other tools leave comments and elements of their own in a catalogue file, and lay it out anew.
Such a file is *padded*: between the elements of the root, of each context and of each message
it has any text that is ignorable there.  What is ignorable differs from level to level, as the
elements do that a reader knows: a `<source>` in a context means nothing, and one in a message
does.  A padded file reads as the file that was written (`Catalogue.ofFileText_padded`), whatever
that reads as, so that a catalogue that survives its own file survives every padded one.

## Inside out

A padded message is read as an element with more nodes in it than were written, and a context
takes it in as it takes in the element that was written (`Message.Padded.exists_readsAsNode`).
That is all the context asks of it, so it does not have to be the same element.  The same goes for
a context in the root.  The elements inside a message are not padded: in a text, a comment would
be passed over as well, but other text would not.

## Layout

The line breaks of a written file are ignorable text themselves, and so the written file is the
first of the padded ones (`Catalogue.padded_fileText`).  Nothing has to be said about where in a
line break something is inserted.
-/

namespace Linguist

open Markup (Node Tag Ignorable Spaced ReadsAs ReadsAsNode elementsOf visit
  spaced_renderAll readsAsNode_enclose ok_bind)

namespace Markup

/-- A visit is determined by what it makes of the nodes. -/
theorem visit_congr {σ : Type} {element : String} {step : σ → Node → Except Fault σ}
    {ns ms : List Node} (h : ∀ d, ns.foldlM step d = ms.foldlM step d) (d : σ) (ending : Ending) :
    visit element step d ns ending = visit element step d ms ending := by
  rw [visit, visit, h]

theorem forall_isWritten {ns : List Node} (h : AreWritten ns) : ∀ n ∈ ns, n.IsWritten := by
  induction ns with
  | nil => exact fun _ hn => absurd hn List.not_mem_nil
  | cons n ns ih =>
    obtain ⟨hn, -, hns⟩ := areWritten_cons.1 h
    exact List.forall_mem_cons.2 ⟨hn, ih hns⟩

theorem isReadable_of_isWritten {tag : Tag} {ns : List Node} (h : (Node.ofTag tag ns).IsWritten) :
    tag.IsReadable :=
  (Node.isWritten_element.1 h).1.isReadable

/-- An element that was written is read as itself. -/
theorem readsAsNode_of_mem {ns : List Node} (h : AreWritten ns) {n : Node}
    (hn : n ∈ elementsOf ns) : ReadsAsNode n.render n := by
  obtain ⟨hmem, htext⟩ := List.mem_filter.1 hn
  exact (forall_isWritten h n hmem).readsAsNode (by simpa using htext)

end Markup

open Markup (visit_congr readsAsNode_of_mem isReadable_of_isWritten)

/-! ## Messages -/

namespace Message

/-- The names of the elements that mean something in a message. -/
def knownNames : List String :=
  "location" :: "translation" :: textElements

/-- The padded texts of a message. -/
def Padded (m : Message) (s : List Char) : Prop :=
  ∃ inner, Spaced knownNames (fun n t => t = n.render) (elementsOf m.children) inner ∧
    s = m.tag.enclose inner []

theorem setText_of_notMem {element : String} (h : element ∉ textElements) (d : Draft)
    (text : String) : d.setText element text = d := by
  unfold Draft.setText
  split
  all_goals first | rfl | exact absurd (by decide) h

theorem addNode_of_isPassedOver (d : Draft) (n : Node) (h : n.IsPassedOver knownNames) :
    addNode d n = .ok d := by
  cases n with
  | text raw => rfl
  | literal content => rfl
  | aside raw => rfl
  | empty tag =>
    obtain ⟨hlocation, h⟩ := not_or.1 (mt List.mem_cons.2 h)
    obtain ⟨htranslation, htexts⟩ := not_or.1 (mt List.mem_cons.2 h)
    rw [addNode, if_neg hlocation, if_neg htranslation, setText_of_notMem htexts]
  | element tag children ending =>
    obtain ⟨h, rfl⟩ := h
    obtain ⟨hlocation, h⟩ := not_or.1 (mt List.mem_cons.2 h)
    obtain ⟨htranslation, htexts⟩ := not_or.1 (mt List.mem_cons.2 h)
    rw [addNode, if_neg hlocation, if_neg htranslation, if_neg (by simpa using htexts)]
    rfl

theorem isReadable_tag (m : Message) : m.tag.IsReadable :=
  isReadable_of_isWritten (m.toNode_eq ▸ m.isWritten_toNode)

/-- **A padded message** is taken in as the one that was written. -/
theorem Padded.exists_readsAsNode {m : Message} {s : List Char} (h : m.Padded s) :
    ∃ n, ReadsAsNode s n ∧ ∀ d, Context.addNode d n = Context.addNode d m.toNode := by
  obtain ⟨inner, hinner, rfl⟩ := h
  have hwritten : ∀ n ∈ elementsOf m.children, ∀ t, t = n.render →
      ∃ n', ReadsAsNode t n' ∧ ∀ d, addNode d n' = addNode d n := by
    rintro n hn t rfl
    exact ⟨n, readsAsNode_of_mem m.areWritten_children hn, fun _ => rfl⟩
  obtain ⟨ns, hread, hvisit⟩ := hinner.exists_readsAs_children addNode_of_isPassedOver hwritten
  have helement : ofElement m.tag ns .closed = ofElement m.tag m.children .closed := by
    simp only [ofElement, visit_congr hvisit]
  have hname : m.tag.name = "message" := Tag.name_ofOptions "message" m.attributes
  have htaken : ∀ (d : Context.Draft) (ns : List Node),
      Context.addNode d (.element m.tag ns .closed) = (ofElement m.tag ns .closed).map fun m =>
        { d with messages := d.messages ++ [m] } := by
    intro d ns
    rw [Context.addNode, if_neg (by rw [hname]; decide), if_neg (by rw [hname]; decide),
      if_pos hname]
  refine ⟨_, readsAsNode_enclose m.isReadable_tag hread (by simp), fun d => ?_⟩
  rw [m.toNode_eq, ← tag_eq, Node.ofTag, htaken, htaken, helement]

end Message

/-! ## Contexts -/

namespace Context

/-- The names of the elements that mean something in a context. -/
def knownNames : List String :=
  ["name", "comment", "message"]

/-- The padded texts of a context, whose messages may be padded themselves. -/
def Padded (x : Context) (s : List Char) : Prop :=
  ∃ inner, Spaced knownNames
      (fun n t => t = n.render ∨ ∃ m ∈ x.messages, n = m.toNode ∧ m.Padded t)
      (elementsOf x.children) inner ∧
    s = (Tag.plain "context").enclose inner []

theorem addNode_of_isPassedOver (d : Draft) (n : Node) (h : n.IsPassedOver knownNames) :
    addNode d n = .ok d := by
  have hnames : ∀ tag : Tag, tag.name ∉ knownNames →
      tag.name ≠ "name" ∧ tag.name ≠ "comment" ∧ tag.name ≠ "message" := by
    intro tag htag
    simpa [knownNames] using htag
  cases n with
  | text raw => rfl
  | literal content => rfl
  | aside raw => rfl
  | empty tag =>
    obtain ⟨hname, hcomment, hmessage⟩ := hnames tag h
    rw [addNode, if_neg hname, if_neg hcomment, if_neg hmessage]
  | element tag children ending =>
    obtain ⟨h, rfl⟩ := h
    obtain ⟨hname, hcomment, hmessage⟩ := hnames tag h
    rw [addNode, if_neg hname, if_neg hcomment, if_neg hmessage]
    rfl

/-- The written text of a context is one of its padded texts. -/
theorem padded_render (x : Context) : x.Padded x.toNode.render := by
  refine ⟨_, spaced_renderAll x.areWritten_children fun n _ => .inl rfl, ?_⟩
  rw [x.toNode_eq, Node.ofTag, ← Tag.enclose_renderAll]

/-- **A padded context** is taken in as the one that was written. -/
theorem Padded.exists_readsAsNode {x : Context} {s : List Char} (h : x.Padded s) :
    ∃ n, ReadsAsNode s n ∧ ∀ c, Catalogue.addNode c n = Catalogue.addNode c x.toNode := by
  obtain ⟨inner, hinner, rfl⟩ := h
  have hwritten : ∀ n ∈ elementsOf x.children, ∀ t,
      (t = n.render ∨ ∃ m ∈ x.messages, n = m.toNode ∧ m.Padded t) →
        ∃ n', ReadsAsNode t n' ∧ ∀ d, addNode d n' = addNode d n := by
    rintro n hn t (rfl | ⟨m, -, rfl, ht⟩)
    · exact ⟨n, readsAsNode_of_mem x.areWritten_children hn, fun _ => rfl⟩
    · exact ht.exists_readsAsNode
  obtain ⟨ns, hread, hvisit⟩ := hinner.exists_readsAs_children addNode_of_isPassedOver hwritten
  have helement : ofElement ns .closed = ofElement x.children .closed := by
    simp only [ofElement, visit_congr hvisit]
  have htag : (Tag.plain "context").IsReadable := (Tag.isWritten_plain (by decide)).isReadable
  refine ⟨_, readsAsNode_enclose htag hread (by simp), fun c => ?_⟩
  rw [x.toNode_eq, Node.ofTag, Catalogue.addNode, Catalogue.addNode, helement]

end Context

/-! ## Catalogues -/

namespace Catalogue

/-- The names of the elements that mean something in the root. -/
def knownNames : List String :=
  ["context", "message"]

/-- The nodes in front of the root. -/
def preamble : List Node :=
  [.aside Markup.declaration, .newline 0, .aside "<!DOCTYPE TS>".toList, .newline 0]

theorem areWritten_preamble : Markup.AreWritten preamble :=
  Markup.areWritten_cons.2 ⟨Markup.Node.isWritten_aside.2 readsAsAside_declaration,
    by simp [Markup.Node.isText],
    Markup.areWritten_line 0 (Markup.Node.isWritten_aside.2 readsAsAside_doctype) rfl
      (Markup.areWritten_newline 0)⟩

/-- The padded files of a catalogue, whose contexts are padded too. -/
def Padded (c : Catalogue) (s : String) : Prop :=
  ∃ inner, Spaced knownNames (fun n t => ∃ x ∈ c.contexts, n = x.toNode ∧ x.Padded t)
      (elementsOf c.children) inner ∧
    s.toList = Markup.renderAll preamble ++ (c.tag.enclose inner [] ++ ['\n'])

theorem addNode_of_isPassedOver (c : Catalogue) (n : Node) (h : n.IsPassedOver knownNames) :
    addNode c n = .ok c := by
  cases n with
  | text raw => rfl
  | literal content => rfl
  | aside raw => rfl
  | empty tag => rfl
  | element tag children ending =>
    obtain ⟨h, rfl⟩ := h
    have hnames : tag.name ≠ "context" ∧ tag.name ≠ "message" := by simpa [knownNames] using h
    rw [addNode, if_neg hnames.1, if_neg hnames.2]
    rfl

theorem isReadable_tag (c : Catalogue) : c.tag.IsReadable :=
  isReadable_of_isWritten (c.toNode_eq ▸ c.isWritten_toNode)

/-- The elements in the root are those of the contexts. -/
theorem exists_of_mem_elementsOf {c : Catalogue} {n : Node} (h : n ∈ elementsOf c.children) :
    ∃ x ∈ c.contexts, n = x.toNode := by
  obtain ⟨hmem, htext⟩ := List.mem_filter.1 h
  have hnewline : n ≠ .newline 0 := by
    rintro rfl
    cases htext
  rcases List.mem_append.1 hmem with hline | hlast
  · obtain ⟨x, hx, hline⟩ := List.mem_flatMap.1 hline
    rcases List.mem_cons.1 hline with rfl | hnode
    · exact absurd rfl hnewline
    · exact ⟨x, hx, List.mem_singleton.1 hnode⟩
  · exact absurd (List.mem_singleton.1 hlast) hnewline

/-- The written file of a catalogue is one of its padded files. -/
theorem padded_fileText (c : Catalogue) : c.Padded c.fileText := by
  have hwritten : ∀ n ∈ elementsOf c.children,
      ∃ x ∈ c.contexts, n = x.toNode ∧ x.Padded n.render := by
    intro n hn
    obtain ⟨x, hx, rfl⟩ := exists_of_mem_elementsOf hn
    exact ⟨x, hx, rfl, x.padded_render⟩
  have hroot := c.isWritten_toNode
  rw [c.toNode_eq] at hroot
  refine ⟨_, spaced_renderAll (Markup.Node.isWritten_element.1 hroot).2.1 hwritten, ?_⟩
  have htoNodes : c.toNodes = preamble ++ [c.toNode, .newline 0] := rfl
  rw [fileText, String.toList_ofList, htoNodes, Markup.renderAll_append, c.toNode_eq, Node.ofTag,
    Markup.renderAll_cons, ← Tag.enclose_renderAll, ← tag_eq]
  rfl

/-- **A padded file is read as the nodes that were written,** but for the content of the root. -/
theorem Padded.exists_nodesOfFile {c : Catalogue} {s : String} (h : c.Padded s) :
    ∃ ns, Markup.nodesOfFile s.toList =
        (preamble ++ [.element c.tag ns .closed, .newline 0], .endOfFile) ∧
      ∀ d, ns.foldlM addNode d = c.children.foldlM addNode d := by
  obtain ⟨inner, hinner, htext⟩ := h
  have hwritten : ∀ n ∈ elementsOf c.children, ∀ t,
      (∃ x ∈ c.contexts, n = x.toNode ∧ x.Padded t) →
        ∃ n', ReadsAsNode t n' ∧ ∀ d, addNode d n' = addNode d n := by
    rintro n - t ⟨x, -, rfl, ht⟩
    exact ht.exists_readsAsNode
  obtain ⟨ns, hread, hvisit⟩ := hinner.exists_readsAs_children addNode_of_isPassedOver hwritten
  refine ⟨ns, ?_, hvisit⟩
  have hroot := readsAsNode_enclose c.isReadable_tag hread (List.forall_mem_nil _)
  have hbehind := hroot.append (Markup.areWritten_newline 0).readsAs
  rw [htext]
  exact (areWritten_preamble.readsAs.append hbehind (hroot.opens_append _)).nodesOfFile_eq rfl

/-- **A padded file reads as the one that was written.** -/
theorem ofFileText_padded [Bytes.Registry] {c : Catalogue} {s : String} (h : c.Padded s) :
    ofFileText s = ofFileText c.fileText := by
  obtain ⟨ns, hnodes, hvisit⟩ := h.exists_nodesOfFile
  have hfile : ∃ rest, s.toList = Markup.declaration ++ rest := by
    obtain ⟨inner, -, htext⟩ := h
    exact ⟨_, htext⟩
  obtain ⟨rest, hrest⟩ := hfile
  have hdecode : Markup.decodeFile (Bytes.ofText s) = .ok s.toList := by
    rw [Bytes.ofText, hrest]
    exact Markup.decodeFile_declaration rest
  rw [ofFileText_fileText_eq, ofFileText, ofFile, hdecode, ok_bind, ofMarkup, hnodes, toNodes,
    c.toNode_eq]
  show (checkRoot c.tag >>= fun _ => ofTag c.tag >>= fun d => visit "TS" addNode d ns .closed) =
    checkRoot c.tag >>= fun _ => ofTag c.tag >>= fun d => visit "TS" addNode d c.children .closed
  simp only [visit_congr hvisit]

/-- **What a reader does not know does not matter:** a catalogue that survives its file survives
every padded file, and the file as it was written is one of them. -/
theorem survives_padding [Bytes.Registry] {c : Catalogue} (hc : c.Survives) :
    c.Padded c.fileText ∧ ∀ s, c.Padded s → ofFileText s = .ok c :=
  ⟨c.padded_fileText, fun _ hs => (ofFileText_padded hs).trans hc⟩

/-- A comment, an instruction, and an element with a quoted bracket in its tag, a known name and
its own name inside, and a blank in its end tag. -/
def clutter : List Char :=
  "<!--".toList ++ (" <TS> > ".toList ++ "-->".toList) ++
    ("<?".toList ++ ('n' :: "ote > ".toList ++ "?>".toList) ++
      (Tag.mk "extra" " a='/>'".toList).enclose ('<' :: (Tag.plain "message").text ++ ['/', '>'] ++
        (Tag.plain "extra").enclose ("<![CDATA[".toList ++ ("</TS>".toList ++ "]]>".toList)) [])
        [' '])

theorem ignorable_clutter {known : List String} (h : "extra" ∉ known) :
    Ignorable known clutter := by
  have hplain : ∀ name : String, Markup.IsTagName name → (Tag.plain name).IsWellFormed :=
    fun name hname => ⟨hname, .nil, by simp [Tag.plain], by simp [Tag.plain]⟩
  have hattribute : (Tag.mk "extra" " a='/>'".toList).IsWellFormed := by
    refine ⟨by decide, ?_, fun c hc => ?_, fun c hc => ?_⟩
    · exact .char (by decide) <| .char (by decide) <| .char (by decide) <|
        @Markup.Balanced.quoted '\'' ['/', '>'] [] (by decide) (by decide) .nil
    · rw [← Option.some.inj hc]
      rfl
    · rw [← Option.some.inj hc]
      decide
  have hliteral := @Ignorable.literal [] "</TS>".toList [] (by decide) .nil
  rw [List.append_nil] at hliteral
  have hnested := @Ignorable.element [] (.plain "extra") _ [] [] (hplain "extra" (by decide))
    List.not_mem_nil hliteral (List.forall_mem_nil _) .nil
  rw [List.append_nil] at hnested
  have hinner := Ignorable.empty (hplain "message" (by decide)) List.not_mem_nil hnested
  have hextra := @Ignorable.element known _ _ [' '] [] hattribute h hinner
    (List.forall_mem_singleton.2 rfl) .nil
  rw [List.append_nil] at hextra
  have hnote := @Ignorable.instruction known 'n' "ote > ".toList _ (by decide) (by decide) hextra
  rw [clutter]
  exact @Ignorable.comment known " <TS> > ".toList _ (by decide +kernel) hnote

/-- Texts with clutter in front of them, between them and behind them. -/
def strew : List (List Char) → List Char
  | [] => clutter
  | t :: ts => clutter ++ (t ++ strew ts)

/-- One message in one context. -/
def brief : Catalogue where
  contexts := [{ name := "C", messages := [{ source := "a", target := ⟨.finished, .plain "b"⟩ }] }]

/-- Its file with clutter in place of every line break between elements. -/
def cluttered : String :=
  let target : Target := ⟨.finished, .plain "b"⟩
  let message := (Tag.plain "message").enclose
    (strew [(Node.ofText "source" "a").render, target.toNode.render]) []
  let context := (Tag.plain "context").enclose
    (strew [(Node.ofText "name" "C").render, message]) []
  String.ofList (Markup.renderAll preamble ++ (brief.tag.enclose (strew [context]) [] ++ ['\n']))

theorem padded_cluttered : brief.Padded cluttered := by
  have hmessage := ignorable_clutter (by decide : "extra" ∉ Message.knownNames)
  have hcontext := ignorable_clutter (by decide : "extra" ∉ Context.knownNames)
  have hroot := ignorable_clutter (by decide : "extra" ∉ knownNames)
  refine ⟨strew [_], .cons hroot ⟨_, List.mem_singleton_self _, rfl, strew [_, _], ?_, rfl⟩
    (.nil hroot), String.toList_ofList⟩
  refine .cons hcontext (.inl rfl) (.cons hcontext (.inr ?_) (.nil hcontext))
  exact ⟨_, List.mem_singleton_self _, rfl, strew [_, _],
    .cons hmessage rfl (.cons hmessage rfl (.nil hmessage)), rfl⟩

theorem survives_padding_cluttered :
    brief.Survives ∧ brief.Padded cluttered ∧ ofFileText cluttered = .ok brief := by
  have hbrief : brief.Survives := by decide
  exact ⟨hbrief, padded_cluttered, (survives_padding hbrief).2 cluttered padded_cluttered⟩

end Catalogue
end Linguist
