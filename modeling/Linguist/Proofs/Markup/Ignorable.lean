import Linguist.Proofs.Markup.Node
import Linguist.Proofs.Sequence

/-!
# Text that is passed over

Between the elements that a reader knows there may be text, comments, instructions and elements
that it does not know, with anything inside.  `Ignorable` says which texts these are, by a
grammar of what may stand in a file and not by what a reader makes of it.  That such a text is
passed over then has two parts: it is read as nodes none of which is known
(`Ignorable.exists_readsAs`), and a visit of nodes that passes over what it does not know comes
out of them as it went in (`foldlM_of_isPassedOver`).

## Names are asked for once

Which names are known is asked of the outermost elements only.  What is inside an element that
is not known is ignorable where nothing is known: it may have elements of known names, and of
the name of the element itself.  So `Ignorable` takes the known names as an index and not as a
parameter, and one induction goes through all depths.

## Text that joins

A character in front of a text is read together with it, so that adding one to a file changes a
node and does not add one.  What the characters in front are read as is therefore left open
until a bracket ends them (`ReadsAsPassedOver`).  Everything else begins with an opening bracket
and ends with a closing one, and is read as a node of its own wherever it stands
(`ReadsAsNode`).
-/

namespace Linguist
namespace Markup

/-! ## Tags as they may stand in a file -/

/-- The texts whose quotes are closed and that have closing brackets only inside quotes. -/
inductive Balanced : List Char → Prop
  | nil : Balanced []
  | char {c : Char} {rest : List Char} (hc : c ∉ ['>', '"', '\'']) (hrest : Balanced rest) :
      Balanced (c :: rest)
  | quoted {quote : Char} {value rest : List Char} (hquote : quote ∈ ['"', '\''])
      (hvalue : quote ∉ value) (hrest : Balanced rest) :
      Balanced ((quote :: value ++ [quote]) ++ rest)

theorem Balanced.passes {cs : List Char} (h : Balanced cs) : Passes cs := by
  induction h with
  | nil => exact passes_nil
  | char hc _ ih =>
    simp only [List.mem_cons, List.not_mem_nil, or_false, not_or] at hc
    exact (passes_singleton hc.1 hc.2.1 hc.2.2).append ih
  | quoted hquote hvalue _ ih => exact (passes_quoted hquote hvalue).append ih

/-- A tag as it may stand in a file: a name and, behind a blank, a list of attributes that
does not end with the slash of an empty tag. -/
structure Tag.IsWellFormed (tag : Tag) : Prop where
  name : IsTagName tag.name
  balanced : Balanced tag.list
  blank : ∀ c ∈ tag.list.head?, Text.isMarkupBlank c = true
  last : ∀ c ∈ tag.list.getLast?, c ≠ '/'

theorem Tag.IsWellFormed.isReadable {tag : Tag} (h : tag.IsWellFormed) : tag.IsReadable :=
  ⟨h.name, h.balanced.passes, h.blank, h.last⟩

/-- The text of an element with a content: its tag in front, and behind it the end tag, in which
blanks may follow the name. -/
def Tag.enclose (tag : Tag) (content blanks : List Char) : List Char :=
  '<' :: tag.text ++ '>' :: content ++ '<' :: '/' :: (tag.name.toList ++ blanks) ++ ['>']

theorem Tag.enclose_renderAll (tag : Tag) (children : List Node) (ending : Ending) :
    tag.enclose (renderAll children) [] = (Node.element tag children ending).render := by
  rw [enclose, List.append_nil, Node.render_element]

/-! ## Ignorable text -/

/-- The texts that are passed over where elements of some names are known: any text without
elements, comments, instructions, literal texts, and elements of other names. -/
inductive Ignorable : List String → List Char → Prop
  | nil {known : List String} : Ignorable known []
  | char {known : List String} {c : Char} {rest : List Char} (hc : c ≠ '<')
      (hrest : Ignorable known rest) : Ignorable known (c :: rest)
  | comment {known : List String} {content rest : List Char}
      (hcontent : ¬ "-->".toList <:+: content) (hrest : Ignorable known rest) :
      Ignorable known ("<!--".toList ++ (content ++ "-->".toList) ++ rest)
  | literal {known : List String} {content rest : List Char}
      (hcontent : ¬ "]]>".toList <:+: content) (hrest : Ignorable known rest) :
      Ignorable known ("<![CDATA[".toList ++ (content ++ "]]>".toList) ++ rest)
  | instruction {known : List String} {c : Char} {content rest : List Char} (hc : InName c)
      (hcontent : ¬ "?>".toList <:+: c :: content) (hrest : Ignorable known rest) :
      Ignorable known ("<?".toList ++ (c :: content ++ "?>".toList) ++ rest)
  | empty {known : List String} {tag : Tag} {rest : List Char} (htag : tag.IsWellFormed)
      (hname : tag.name ∉ known) (hrest : Ignorable known rest) :
      Ignorable known ('<' :: tag.text ++ ['/', '>'] ++ rest)
  | element {known : List String} {tag : Tag} {content blanks rest : List Char}
      (htag : tag.IsWellFormed) (hname : tag.name ∉ known) (hcontent : Ignorable [] content)
      (hblanks : ∀ c ∈ blanks, Text.isMarkupBlank c = true) (hrest : Ignorable known rest) :
      Ignorable known (tag.enclose content blanks ++ rest)

namespace Ignorable

variable {known : List String} {s t : List Char}

/-- A text without elements, as between two lines. -/
theorem of_notMem (h : '<' ∉ s) : Ignorable known s := by
  induction s with
  | nil => exact .nil
  | cons c s ih =>
    rw [List.mem_cons, not_or] at h
    exact .char (Ne.symm h.1) (ih h.2)

theorem append (hs : Ignorable known s) (ht : Ignorable known t) : Ignorable known (s ++ t) := by
  induction hs with
  | nil => exact ht
  | char hc _ ih => exact .char hc (ih ht)
  | comment hcontent _ ih =>
    rw [List.append_assoc]
    exact .comment hcontent (ih ht)
  | literal hcontent _ ih =>
    rw [List.append_assoc]
    exact .literal hcontent (ih ht)
  | instruction hc hcontent _ ih =>
    rw [List.append_assoc]
    exact .instruction hc hcontent (ih ht)
  | empty htag hname _ ih =>
    rw [List.append_assoc]
    exact .empty htag hname (ih ht)
  | element htag hname hcontent hblanks _ _ ih =>
    rw [List.append_assoc]
    exact .element htag hname hcontent hblanks (ih ht)

end Ignorable

/-! ## Texts that are read as one node -/

/-- A text between brackets that is read as one node wherever it stands. -/
structure ReadsAsNode (s : List Char) (n : Node) : Prop where
  head : s.head? = some '<'
  closed : n.IsClosed
  pieces : ∀ rest, events (s ++ rest) = n.pieces ++ events rest

section

variable {s t content blanks : List Char} {n : Node} {ns ms : List Node} {tag : Tag}

theorem opens_append (hs : Opens s) (ht : Opens t) : Opens (s ++ t) := by
  cases s with
  | nil => exact ht
  | cons c s => exact fun d hd => hs d hd

theorem opens_of_head? (h : s.head? = some '<') : Opens s := by
  intro c hc
  rw [h] at hc
  exact (Option.some.inj hc).symm

theorem readsAs_nil : ReadsAs [] [] :=
  ⟨areClosed_nil, fun _ _ => rfl⟩

theorem ReadsAs.append (hs : ReadsAs s ns) (ht : ReadsAs t ms) (hopens : Opens t) :
    ReadsAs (s ++ t) (ns ++ ms) := by
  refine ⟨areClosed_append hs.closed ht.closed, fun rest hrest => ?_⟩
  rw [List.append_assoc, hs.pieces _ (opens_append hopens hrest), ht.pieces rest hrest,
    piecesAll_append, List.append_assoc]

theorem ReadsAsNode.append (hs : ReadsAsNode s n) (ht : ReadsAs t ns) :
    ReadsAs (s ++ t) (n :: ns) := by
  refine ⟨areClosed_cons.2 ⟨hs.closed, ht.closed⟩, fun rest hrest => ?_⟩
  rw [List.append_assoc, hs.pieces, ht.pieces rest hrest, piecesAll, List.append_assoc]

theorem ReadsAsNode.opens_append (hs : ReadsAsNode s n) (t : List Char) : Opens (s ++ t) := by
  refine opens_of_head? ?_
  rw [List.head?_append, hs.head, Option.some_or]

theorem Node.IsWritten.readsAsNode (h : n.IsWritten) (htext : n.isText = false) :
    ReadsAsNode n.render n := by
  refine ⟨?_, h.isClosed, fun rest => ?_⟩
  · cases n with
    | text raw => exact absurd htext (by simp [Node.isText])
    | literal content => exact absurd h Node.not_isWritten_literal
    | aside raw => exact (Node.isWritten_aside.1 h).head
    | empty tag => rfl
    | element tag children ending => rfl
  · exact events_render n h rest fun hyes => absurd hyes (by simp [htext])

/-- A text whose first piece is known is read as the node of this piece. -/
theorem readsAsNode_of_readBracket? {opening : List Char} {e : Event} (hclosed : n.IsClosed)
    (hpieces : n.pieces = [e])
    (h : ∀ rest, readBracket? (opening ++ rest) = some (e, rest)) :
    ReadsAsNode ('<' :: opening) n := by
  refine ⟨rfl, hclosed, fun rest => ?_⟩
  rw [hpieces, List.singleton_append]
  exact events_bracket (h rest)

theorem readsAsNode_comment (h : ¬ "-->".toList <:+: content) :
    ReadsAsNode ("<!--".toList ++ (content ++ "-->".toList))
      (.aside ("<!--".toList ++ content ++ "-->".toList)) := by
  refine readsAsNode_of_readBracket? (Node.isClosed_aside _) rfl fun rest => ?_
  have hsplit := Sequence.splitMark_concat (by decide : '>' ∉ ['-', '-']) h rest
  show Option.map _ (Sequence.splitMark "-->".toList (content ++ "-->".toList ++ rest)) = _
  rw [List.append_assoc]
  exact congrArg (Option.map _) hsplit

theorem readsAsNode_literal (h : ¬ "]]>".toList <:+: content) :
    ReadsAsNode ("<![CDATA[".toList ++ (content ++ "]]>".toList)) (.literal content) := by
  refine readsAsNode_of_readBracket? (Node.isClosed_literal _) rfl fun rest => ?_
  have hsplit := Sequence.splitMark_concat (by decide : '>' ∉ [']', ']']) h rest
  show Option.map _ (Sequence.splitMark "]]>".toList (content ++ "]]>".toList ++ rest)) = _
  rw [List.append_assoc]
  exact congrArg (Option.map _) hsplit

theorem readsAsNode_instruction {c : Char} (hc : InName c) (h : ¬ "?>".toList <:+: c :: content) :
    ReadsAsNode ("<?".toList ++ (c :: content ++ "?>".toList))
      (.aside ("<?".toList ++ (c :: content) ++ "?>".toList)) := by
  refine readsAsNode_of_readBracket? (Node.isClosed_aside _) rfl fun rest => ?_
  have hsplit := Sequence.splitMark_concat (by decide : '>' ∉ ['?']) h rest
  have hhead : (c :: content ++ "?>".toList ++ rest).head? ≠ some '>' := fun hhead =>
    hc.ne (by decide) (Option.some.inj hhead)
  show readInstruction? (c :: content ++ "?>".toList ++ rest) = _
  rw [readInstruction?, if_neg hhead, List.append_assoc]
  exact congrArg (Option.map _) hsplit

theorem readsAsNode_empty (htag : tag.IsReadable) :
    ReadsAsNode ('<' :: tag.text ++ ['/', '>']) (.empty tag) :=
  ⟨rfl, Node.isClosed_empty tag, htag.events_empty⟩

/-- An element whose content is read as some nodes is read as the element of these nodes. -/
theorem readsAsNode_enclose (htag : tag.IsReadable) (hcontent : ReadsAs content ns)
    (hblanks : ∀ c ∈ blanks, Text.isMarkupBlank c = true) :
    ReadsAsNode (tag.enclose content blanks) (.element tag ns .closed) := by
  refine ⟨rfl, Node.isClosed_element.2 ⟨hcontent.closed, rfl⟩, fun rest => ?_⟩
  have htext : tag.enclose content blanks ++ rest = '<' :: tag.text ++ '>' ::
      (content ++ ('<' :: '/' :: (tag.name.toList ++ blanks) ++ '>' :: rest)) := by
    simp [Tag.enclose]
  rw [htext, htag.events_start, hcontent.pieces _ (by simp [Opens]),
    events_finish htag.name hblanks]
  simp [Node.pieces]

end

/-! ## Ignorable text is read as nodes that are not known -/

/-- The nodes that are passed over where elements of some names are known. -/
def Node.IsPassedOver (known : List String) : Node → Prop
  | .text _ => True
  | .literal _ => True
  | .aside _ => True
  | .empty tag => tag.name ∉ known
  | .element tag _ ending => tag.name ∉ known ∧ ending = .closed

/-- A text that is read as such nodes from its first bracket on.  What is before the bracket is
read as one text, but how long that is cannot be said while characters may still come in front
of it. -/
def ReadsAsPassedOver (known : List String) (s : List Char) : Prop :=
  ∃ raw t ns, s = raw ++ t ∧ '<' ∉ raw ∧ Opens t ∧ ReadsAs t ns ∧ ∀ n ∈ ns, n.IsPassedOver known

namespace ReadsAsPassedOver

variable {known : List String} {s t : List Char} {n : Node}

theorem nil : ReadsAsPassedOver known [] :=
  ⟨[], [], [], rfl, List.not_mem_nil, by simp [Opens], readsAs_nil, by simp⟩

theorem char {c : Char} (hc : c ≠ '<') (h : ReadsAsPassedOver known s) :
    ReadsAsPassedOver known (c :: s) := by
  obtain ⟨raw, t, ns, rfl, hraw, hrest⟩ := h
  refine ⟨c :: raw, t, ns, rfl, ?_, hrest⟩
  rw [List.mem_cons, not_or]
  exact ⟨Ne.symm hc, hraw⟩

/-- The text is read as a whole. -/
theorem exists_readsAs (h : ReadsAsPassedOver known s) :
    ∃ ns, ReadsAs s ns ∧ ∀ n ∈ ns, n.IsPassedOver known := by
  obtain ⟨raw, t, ns, rfl, hraw, hopens, hread, hpassed⟩ := h
  by_cases hne : raw = []
  · rw [hne, List.nil_append]
    exact ⟨ns, hread, hpassed⟩
  · have htext : ReadsAs raw [.text raw] :=
      ⟨areClosed_cons.2 ⟨Node.isClosed_text raw, areClosed_nil⟩,
        fun rest hrest => events_text hne hraw hrest⟩
    exact ⟨.text raw :: ns, htext.append hread hopens, List.forall_mem_cons.2 ⟨trivial, hpassed⟩⟩

theorem node (hs : ReadsAsNode s n) (hn : n.IsPassedOver known) (ht : ReadsAsPassedOver known t) :
    ReadsAsPassedOver known (s ++ t) := by
  obtain ⟨ns, hread, hpassed⟩ := ht.exists_readsAs
  exact ⟨[], s ++ t, n :: ns, rfl, List.not_mem_nil, hs.opens_append t, hs.append hread,
    List.forall_mem_cons.2 ⟨hn, hpassed⟩⟩

end ReadsAsPassedOver

/-- **Ignorable text is read as nodes that are passed over.** -/
theorem Ignorable.exists_readsAs {known : List String} {s : List Char} (h : Ignorable known s) :
    ∃ ns, ReadsAs s ns ∧ ∀ n ∈ ns, n.IsPassedOver known := by
  suffices hread : ReadsAsPassedOver known s from hread.exists_readsAs
  induction h with
  | nil => exact .nil
  | char hc _ ih => exact .char hc ih
  | comment hcontent _ ih => exact .node (readsAsNode_comment hcontent) trivial ih
  | literal hcontent _ ih => exact .node (readsAsNode_literal hcontent) trivial ih
  | instruction hc hcontent _ ih => exact .node (readsAsNode_instruction hc hcontent) trivial ih
  | empty htag hname _ ih => exact .node (readsAsNode_empty htag.isReadable) hname ih
  | element htag hname _ hblanks _ ihcontent ih =>
    obtain ⟨ns, hread, -⟩ := ihcontent.exists_readsAs
    exact .node (readsAsNode_enclose htag.isReadable hread hblanks) ⟨hname, rfl⟩ ih

/-! ## Elements with ignorable text between them -/

/-- The nodes that are not text. -/
def elementsOf (ns : List Node) : List Node :=
  ns.filter fun n => !n.isText

/-- The texts of elements that are written in one of some ways each, with ignorable text in front
of them, between them and behind them. -/
inductive Spaced (known : List String) (written : Node → List Char → Prop) :
    List Node → List Char → Prop
  | nil {gap : List Char} (hgap : Ignorable known gap) : Spaced known written [] gap
  | cons {gap s rest : List Char} {n : Node} {ns : List Node} (hgap : Ignorable known gap)
      (hn : written n s) (hrest : Spaced known written ns rest) :
      Spaced known written (n :: ns) (gap ++ (s ++ rest))

section

variable {known : List String} {written : Node → List Char → Prop} {ns : List Node}
  {s gap : List Char}

theorem Spaced.prepend (hgap : Ignorable known gap) (h : Spaced known written ns s) :
    Spaced known written ns (gap ++ s) := by
  cases h with
  | nil hrest => exact .nil (hgap.append hrest)
  | cons hfirst hn hrest =>
    rw [← List.append_assoc]
    exact .cons (hgap.append hfirst) hn hrest

/-- **Elements as they are laid out** have ignorable text between them. -/
theorem spaced_renderAll (hns : AreWritten ns) (h : ∀ n ∈ elementsOf ns, written n n.render) :
    Spaced known written (elementsOf ns) (renderAll ns) := by
  induction ns with
  | nil => exact .nil .nil
  | cons n ns ih =>
    obtain ⟨hn, -, hothers⟩ := areWritten_cons.1 hns
    cases htext : n.isText with
    | true =>
      have helements : elementsOf (n :: ns) = elementsOf ns :=
        List.filter_cons_of_neg (by simp [htext])
      rw [helements] at h ⊢
      cases n with
      | text raw => exact (ih hothers h).prepend (.of_notMem (Node.isWritten_text.1 hn).2)
      | _ => cases htext
    | false =>
      have helements : elementsOf (n :: ns) = n :: elementsOf ns :=
        List.filter_cons_of_pos (by simp [htext])
      rw [helements] at h ⊢
      obtain ⟨hfirst, hrest⟩ := List.forall_mem_cons.1 h
      exact .cons .nil hfirst (ih hothers hrest)

end

/-! ## Visits -/

section

variable {σ : Type} {known : List String} {step : σ → Node → Except Fault σ} {ns ms : List Node}

/-- A visit that passes over what it does not know comes out of it as it went in. -/
theorem foldlM_of_isPassedOver (hstep : ∀ d n, n.IsPassedOver known → step d n = .ok d)
    (hns : ∀ n ∈ ns, n.IsPassedOver known) (d : σ) : ns.foldlM step d = .ok d := by
  induction ns with
  | nil => rfl
  | cons n ns ih =>
    obtain ⟨hn, hns⟩ := List.forall_mem_cons.1 hns
    rw [List.foldlM_cons, hstep d n hn]
    exact ih hns

/-- Such a visit sees the elements only. -/
theorem foldlM_elementsOf (hstep : ∀ d n, n.IsPassedOver known → step d n = .ok d)
    (ns : List Node) (d : σ) : (elementsOf ns).foldlM step d = ns.foldlM step d := by
  induction ns generalizing d with
  | nil => rfl
  | cons n ns ih =>
    cases htext : n.isText with
    | true =>
      have helements : elementsOf (n :: ns) = elementsOf ns :=
        List.filter_cons_of_neg (by simp [htext])
      have hpassed : n.IsPassedOver known := by
        cases n with
        | text raw => trivial
        | _ => cases htext
      rw [helements, List.foldlM_cons, hstep d n hpassed]
      exact ih d
    | false =>
      have helements : elementsOf (n :: ns) = n :: elementsOf ns :=
        List.filter_cons_of_pos (by simp [htext])
      rw [helements, List.foldlM_cons, List.foldlM_cons]
      exact congrArg _ (funext ih)

/-- **Ignorable text between elements changes no visit,** if every element is read as one that is
taken in alike. -/
theorem Spaced.exists_readsAs {written : Node → List Char → Prop} {s : List Char}
    (h : Spaced known written ns s) (hstep : ∀ d n, n.IsPassedOver known → step d n = .ok d)
    (hwritten : ∀ n ∈ ns, ∀ t, written n t → ∃ m, ReadsAsNode t m ∧ ∀ d, step d m = step d n) :
    ∃ ms, ReadsAs s ms ∧ ∀ d, ms.foldlM step d = ns.foldlM step d := by
  induction h with
  | nil hgap =>
    obtain ⟨ms, hread, hpassed⟩ := hgap.exists_readsAs
    exact ⟨ms, hread, foldlM_of_isPassedOver hstep hpassed⟩
  | @cons gap t rest n ns hgap hn _ ih =>
    obtain ⟨before, hbefore, hpassed⟩ := hgap.exists_readsAs
    obtain ⟨hfirst, hothers⟩ := List.forall_mem_cons.1 hwritten
    obtain ⟨m, hm, htaken⟩ := hfirst t hn
    obtain ⟨ms, hms, hvisit⟩ := ih hothers
    refine ⟨before ++ m :: ms, hbefore.append (hm.append hms) (hm.opens_append rest), fun d => ?_⟩
    rw [List.foldlM_append, foldlM_of_isPassedOver hstep hpassed, List.foldlM_cons]
    show (step d m >>= fun d => ms.foldlM step d) = step d n >>= fun d => ns.foldlM step d
    rw [htaken]
    exact congrArg _ (funext hvisit)

/-- So it is for the elements of a list of nodes, laid out in whatever way. -/
theorem Spaced.exists_readsAs_children {written : Node → List Char → Prop} {children : List Node}
    {s : List Char} (h : Spaced known written (elementsOf children) s)
    (hstep : ∀ d n, n.IsPassedOver known → step d n = .ok d)
    (hwritten : ∀ n ∈ elementsOf children, ∀ t, written n t →
      ∃ m, ReadsAsNode t m ∧ ∀ d, step d m = step d n) :
    ∃ ms, ReadsAs s ms ∧ ∀ d, ms.foldlM step d = children.foldlM step d := by
  obtain ⟨ms, hread, hvisit⟩ := h.exists_readsAs hstep hwritten
  exact ⟨ms, hread, fun d => (hvisit d).trans (foldlM_elementsOf hstep children d)⟩

end

end Markup
end Linguist
