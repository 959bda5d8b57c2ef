import Linguist.Markup.Node
import Linguist.Proofs.Markup.Tag

/-!
# Reading back a tree

A tree is written as one text, cut into pieces at the brackets, and folded again.  The
pieces of a tree are known beforehand (`Node.pieces`), so the round trip is two
statements: cutting the written text gives the pieces (`events_renderAll`), and folding
the pieces gives the nodes (`grow_piecesAll`).  Both are an induction over the tree, and
both are about a tree in front of an arbitrary rest.  The second asks only that every element
is closed, so that it holds of trees that nobody wrote as well.

## Which trees

`Node.IsWritten` says which nodes are read as they were written.  Apart from the tags,
there are two conditions on texts: a text contains no opening bracket, and it is not
empty.  That no text follows another, which would be read as a single one, is a
condition on lists of nodes.
-/

namespace Linguist
namespace Markup

/-! ## The pieces of a tree -/

mutual

/-- The pieces that the text of a node is cut into. -/
def Node.pieces : Node → List Event
  | .text raw => [.text raw]
  | .literal content => [.literal content]
  | .aside raw => [.aside raw]
  | .empty tag => [.empty tag]
  | .element tag children _ => .start tag :: piecesAll children ++ [.finish tag.name]

/-- The pieces that the text of a list of nodes is cut into. -/
def piecesAll : List Node → List Event
  | [] => []
  | n :: rest => n.pieces ++ piecesAll rest

end

/-- Whether a node is a text. -/
def Node.isText : Node → Bool
  | .text _ => true
  | _ => false

/-- A text that reads as one aside, whatever follows it. -/
structure ReadsAsAside (raw : List Char) : Prop where
  head : raw.head? = some '<'
  events : ∀ rest, events (raw ++ rest) = .aside raw :: events rest

mutual

/-- The nodes that are read as they were written. -/
def Node.IsWritten : Node → Prop
  | .text raw => raw ≠ [] ∧ '<' ∉ raw
  | .literal _ => False
  | .aside raw => ReadsAsAside raw
  | .empty tag => tag.IsWritten
  | .element tag children ending => tag.IsWritten ∧ AreWritten children ∧ ending = .closed

/-- The lists of nodes that are read as they were written: no text follows another. -/
def AreWritten : List Node → Prop
  | [] => True
  | n :: rest =>
    n.IsWritten ∧ (n.isText = true → ∀ m ∈ rest.head?, m.isText = false) ∧ AreWritten rest

end

theorem Node.isWritten_text {raw : List Char} :
    (Node.text raw).IsWritten ↔ raw ≠ [] ∧ '<' ∉ raw := by
  rw [Node.IsWritten]

theorem Node.not_isWritten_literal {content : List Char} : ¬ (Node.literal content).IsWritten := by
  rw [Node.IsWritten]
  exact not_false

theorem Node.isWritten_aside {raw : List Char} :
    (Node.aside raw).IsWritten ↔ ReadsAsAside raw := by
  rw [Node.IsWritten]

theorem Node.isWritten_empty {tag : Tag} : (Node.empty tag).IsWritten ↔ tag.IsWritten := by
  rw [Node.IsWritten]

theorem Node.isWritten_element {tag : Tag} {children : List Node} {ending : Ending} :
    (Node.element tag children ending).IsWritten ↔
      tag.IsWritten ∧ AreWritten children ∧ ending = .closed := by
  rw [Node.IsWritten]

theorem areWritten_nil : AreWritten [] := by
  rw [AreWritten]
  trivial

theorem areWritten_cons {n : Node} {rest : List Node} :
    AreWritten (n :: rest) ↔ n.IsWritten ∧
      (n.isText = true → ∀ m ∈ rest.head?, m.isText = false) ∧ AreWritten rest := by
  rw [AreWritten]

/-! ## One piece -/

/-- A text that cannot prolong a text before it. -/
def Opens (cs : List Char) : Prop :=
  ∀ c ∈ cs.head?, c = '<'

theorem events_bracket {cs more : List Char} {e : Event} (h : readBracket? cs = some (e, more)) :
    events ('<' :: cs) = e :: events more := by
  rw [events]
  split
  · rename_i e' more' h'
    rw [h] at h'
    obtain ⟨rfl, rfl⟩ := Prod.mk.inj (Option.some.inj h')
    rfl
  · rename_i h'
    rw [h] at h'
    exact absurd h' (Option.some_ne_none _)

theorem events_text {raw rest : List Char} (hne : raw ≠ []) (hraw : '<' ∉ raw)
    (hrest : Opens rest) : events (raw ++ rest) = .text raw :: events rest := by
  obtain ⟨c, cs, rfl⟩ := List.exists_cons_of_ne_nil hne
  rw [List.mem_cons, not_or] at hraw
  have hcs : ∀ d ∈ cs, (d != '<') = true := fun d hd => by
    rw [bne_iff_ne]
    rintro rfl
    exact hraw.2 hd
  have hstop : rest.takeWhile (· != '<') = [] ∧ rest.dropWhile (· != '<') = rest := by
    cases rest with
    | nil => exact ⟨rfl, rfl⟩
    | cons d rest =>
      obtain rfl : d = '<' := hrest d rfl
      exact ⟨rfl, rfl⟩
  rw [List.cons_append, events]
  · rw [List.takeWhile_append_of_pos hcs, List.dropWhile_append_of_pos hcs, hstop.1, hstop.2,
      List.append_nil]
  · exact fun h => hraw.1 h.symm

/-- The text after an opening bracket that begins like a name is a tag. -/
theorem readBracket?_tag {c : Char} (hc : InName c) (cs : List Char) :
    readBracket? (c :: cs) =
      (splitTag none (c :: cs)).map fun (tag, rest) => (tagEvent tag, rest) := by
  unfold readBracket?
  split
  · rename_i h
    exact absurd (List.cons.inj h).1 (hc.ne (by decide))
  · rename_i h
    exact absurd (List.cons.inj h).1 (hc.ne (by decide))
  · rename_i h
    exact absurd (List.cons.inj h).1 (hc.ne (by decide))
  · rfl

/-- A name in an end tag is read without the blanks behind it. -/
theorem finishName_append {name : String} (hname : IsTagName name) {blanks : List Char}
    (hblanks : ∀ c ∈ blanks, Text.isMarkupBlank c = true) :
    finishName (name.toList ++ blanks) = name := by
  obtain ⟨init, c, hlast⟩ : ∃ init c, name.toList = init ++ [c] := by
    rcases List.eq_nil_or_concat name.toList with hnil | ⟨init, c, hlast⟩
    · exact absurd hnil hname.1
    · exact ⟨init, c, hlast.trans (List.concat_eq_append ..)⟩
  have hc : Text.isMarkupBlank c = false := (hname.2 c (by simp [hlast])).1
  have hstop : (name.toList ++ blanks).reverse.dropWhile Text.isMarkupBlank =
      name.toList.reverse := by
    rw [List.reverse_append, List.dropWhile_append_of_pos fun d hd =>
      hblanks d (List.mem_reverse.1 hd), hlast, List.reverse_concat,
      List.dropWhile_cons_of_neg (by simp [hc])]
  unfold finishName
  rw [if_neg (by simp [hlast, hc]), hstop, List.reverse_reverse, String.ofList_toList]

/-- An end tag is read as one. -/
theorem events_finish {name : String} (hname : IsTagName name) {blanks : List Char}
    (hblanks : ∀ c ∈ blanks, Text.isMarkupBlank c = true) (rest : List Char) :
    events ('<' :: '/' :: (name.toList ++ blanks) ++ '>' :: rest) =
      .finish name :: events rest := by
  have hpasses : Passes (name.toList ++ blanks) :=
    hname.passes.append <| passes_of_forall fun c hc => by
      refine ⟨?_, ?_, ?_⟩ <;>
        · rintro rfl
          exact absurd (hblanks _ hc) (by decide)
  rw [List.cons_append]
  refine events_bracket ?_
  show (splitTag none (name.toList ++ blanks ++ '>' :: rest)).map
    (fun (name, rest) => (Event.finish (finishName name), rest)) = _
  rw [hpasses, splitTag, if_pos rfl, Option.map_some, Option.map_some]
  dsimp only
  rw [List.append_nil, finishName_append hname hblanks]

namespace Tag

variable {tag : Tag} (h : tag.IsReadable) (rest : List Char)

include h

theorem IsReadable.readBracket?_text (more : List Char) :
    readBracket? (tag.text ++ more) =
      (splitTag none more).map fun (cs, rest) => (tagEvent (tag.text ++ cs), rest) := by
  obtain ⟨c, cs, htext, hc⟩ := h.exists_text_eq_cons
  have hsplit := h.splitTag_text more
  rw [htext, List.cons_append] at hsplit ⊢
  rw [readBracket?_tag hc, hsplit, Option.map_map]
  rfl

/-- A start tag is read as one. -/
theorem IsReadable.events_start :
    events ('<' :: tag.text ++ '>' :: rest) = .start tag :: events rest := by
  have hevent : tagEvent tag.text = .start tag := by
    rw [tagEvent, if_neg h.getLast?_text, h.ofText_text]
  rw [List.cons_append]
  refine events_bracket ?_
  rw [h.readBracket?_text, splitTag, if_pos rfl, Option.map_some]
  dsimp only
  rw [List.append_nil, hevent]

/-- An empty tag is read as one. -/
theorem IsReadable.events_empty :
    events ('<' :: tag.text ++ ['/', '>'] ++ rest) = .empty tag :: events rest := by
  have hslash : splitTag none (['/', '>'] ++ rest) = some (['/'], rest) := rfl
  have hevent : tagEvent (tag.text ++ ['/']) = .empty tag := by
    rw [tagEvent, if_pos List.getLast?_concat, List.dropLast_concat, h.ofText_text]
  rw [List.append_assoc, List.cons_append]
  refine events_bracket ?_
  rw [h.readBracket?_text, hslash, Option.map_some]
  dsimp only
  rw [hevent]

end Tag

/-! ## A tree is cut into its pieces -/

theorem renderAll_append (ns ms : List Node) :
    renderAll (ns ++ ms) = renderAll ns ++ renderAll ms := by
  induction ns with
  | nil => rfl
  | cons n ns ih => rw [List.cons_append, renderAll_cons, renderAll_cons, ih, List.append_assoc]

theorem piecesAll_append (ns ms : List Node) :
    piecesAll (ns ++ ms) = piecesAll ns ++ piecesAll ms := by
  induction ns with
  | nil => rfl
  | cons n ns ih => rw [List.cons_append, piecesAll, piecesAll, ih, List.append_assoc]

theorem opens_render {n : Node} (h : n.IsWritten) (htext : n.isText = false) (rest : List Char) :
    Opens (n.render ++ rest) := by
  cases n with
  | text raw => exact absurd htext (by simp [Node.isText])
  | literal content => exact absurd h Node.not_isWritten_literal
  | aside raw =>
    intro c hc
    rw [Node.render_aside, List.head?_append, (Node.isWritten_aside.1 h).head] at hc
    exact (Option.some.inj hc).symm
  | empty tag => simp [Opens]
  | element tag children ending => simp [Opens]

mutual

theorem events_render : ∀ (n : Node), n.IsWritten → ∀ rest : List Char,
    (n.isText = true → Opens rest) → events (n.render ++ rest) = n.pieces ++ events rest
  | .text _, h, _, hrest =>
    events_text (Node.isWritten_text.1 h).1 (Node.isWritten_text.1 h).2 (hrest rfl)
  | .literal _, h, _, _ => absurd h Node.not_isWritten_literal
  | .aside _, h, rest, _ => (Node.isWritten_aside.1 h).events rest
  | .empty _, h, rest, _ => (Node.isWritten_empty.1 h).isReadable.events_empty rest
  | .element tag children ending, h, rest, _ => by
    obtain ⟨htag, hchildren, -⟩ := Node.isWritten_element.1 h
    have hinner := events_renderAll children hchildren
      ('<' :: '/' :: (tag.name.toList ++ []) ++ '>' :: rest) (by simp [Opens])
    have htext : Node.render (.element tag children ending) ++ rest = '<' :: tag.text ++ '>' ::
        (renderAll children ++ ('<' :: '/' :: (tag.name.toList ++ []) ++ '>' :: rest)) := by
      simp
    rw [htext, htag.isReadable.events_start, hinner,
      events_finish htag.isReadable.name (by simp)]
    simp [Node.pieces]

theorem events_renderAll : ∀ (ns : List Node), AreWritten ns → ∀ rest : List Char,
    Opens rest → events (renderAll ns ++ rest) = piecesAll ns ++ events rest
  | [], _, _, _ => rfl
  | n :: ns, h, rest, hrest => by
    obtain ⟨hn, hnext, hns⟩ := areWritten_cons.1 h
    have hopens : n.isText = true → Opens (renderAll ns ++ rest) := by
      intro htext
      cases ns with
      | nil => exact hrest
      | cons m ns =>
        rw [renderAll_cons, List.append_assoc]
        exact opens_render (areWritten_cons.1 hns).1 (hnext htext m rfl) _
    rw [renderAll_cons, List.append_assoc, events_render n hn _ hopens, events_renderAll ns hns rest hrest,
      piecesAll, List.append_assoc]

end

/-! ## The pieces are folded into the tree -/

mutual

/-- The nodes in which every element ended with its end tag. -/
def Node.IsClosed : Node → Prop
  | .text _ => True
  | .literal _ => True
  | .aside _ => True
  | .empty _ => True
  | .element _ children ending => AreClosed children ∧ ending = .closed

/-- The lists of such nodes. -/
def AreClosed : List Node → Prop
  | [] => True
  | n :: rest => n.IsClosed ∧ AreClosed rest

end

theorem Node.isClosed_text (raw : List Char) : (Node.text raw).IsClosed := by
  rw [Node.IsClosed]
  trivial

theorem Node.isClosed_literal (content : List Char) : (Node.literal content).IsClosed := by
  rw [Node.IsClosed]
  trivial

theorem Node.isClosed_aside (raw : List Char) : (Node.aside raw).IsClosed := by
  rw [Node.IsClosed]
  trivial

theorem Node.isClosed_empty (tag : Tag) : (Node.empty tag).IsClosed := by
  rw [Node.IsClosed]
  trivial

theorem Node.isClosed_element {tag : Tag} {children : List Node} {ending : Ending} :
    (Node.element tag children ending).IsClosed ↔ AreClosed children ∧ ending = .closed := by
  rw [Node.IsClosed]

theorem areClosed_nil : AreClosed [] := by
  rw [AreClosed]
  trivial

theorem areClosed_cons {n : Node} {rest : List Node} :
    AreClosed (n :: rest) ↔ n.IsClosed ∧ AreClosed rest := by
  rw [AreClosed]

theorem areClosed_append {ns ms : List Node} (hns : AreClosed ns) (hms : AreClosed ms) :
    AreClosed (ns ++ ms) := by
  induction ns with
  | nil => exact hms
  | cons n ns ih =>
    obtain ⟨hn, hns⟩ := areClosed_cons.1 hns
    exact areClosed_cons.2 ⟨hn, ih hns⟩

mutual

theorem Node.IsWritten.isClosed : ∀ {n : Node}, n.IsWritten → n.IsClosed
  | .text raw, _ => Node.isClosed_text raw
  | .literal content, _ => Node.isClosed_literal content
  | .aside raw, _ => Node.isClosed_aside raw
  | .empty tag, _ => Node.isClosed_empty tag
  | .element _ _ _, h =>
    have hparts := Node.isWritten_element.1 h
    Node.isClosed_element.2 ⟨hparts.2.1.areClosed, hparts.2.2⟩

theorem AreWritten.areClosed : ∀ {ns : List Node}, AreWritten ns → AreClosed ns
  | [], _ => areClosed_nil
  | _ :: _, h =>
    have hparts := areWritten_cons.1 h
    areClosed_cons.2 ⟨hparts.1.isClosed, hparts.2.2.areClosed⟩

end

mutual

theorem grow_pieces : ∀ (n : Node), n.IsClosed → ∀ (stack : List Frame) (seen : List Node)
    (es : List Event), grow stack seen (n.pieces ++ es) = grow stack (n :: seen) es
  | .text _, _, stack, _, _ => by cases stack <;> rfl
  | .literal _, _, stack, _, _ => by cases stack <;> rfl
  | .aside _, _, stack, _, _ => by cases stack <;> rfl
  | .empty _, _, stack, _, _ => by cases stack <;> rfl
  | .element tag children _, h, stack, seen, es => by
    obtain ⟨hchildren, rfl⟩ := Node.isClosed_element.1 h
    have hinner := grow_piecesAll children hchildren (⟨tag, seen⟩ :: stack) []
      (.finish tag.name :: es)
    have hclose : grow (⟨tag, seen⟩ :: stack) (children.reverse ++ []) (.finish tag.name :: es) =
        grow stack (.element tag children .closed :: seen) es := by
      rw [grow, if_pos rfl, List.append_nil, List.reverse_reverse]
    have hpieces : Node.pieces (.element tag children .closed) ++ es =
        .start tag :: (piecesAll children ++ .finish tag.name :: es) := by
      simp [Node.pieces]
    have hopen : grow stack seen (.start tag :: (piecesAll children ++ .finish tag.name :: es)) =
        grow (⟨tag, seen⟩ :: stack) [] (piecesAll children ++ .finish tag.name :: es) := by
      cases stack <;> rfl
    rw [hpieces, hopen, hinner, hclose]

theorem grow_piecesAll : ∀ (ns : List Node), AreClosed ns → ∀ (stack : List Frame)
    (seen : List Node) (es : List Event),
    grow stack seen (piecesAll ns ++ es) = grow stack (ns.reverse ++ seen) es
  | [], _, _, _, _ => rfl
  | n :: ns, h, stack, seen, es => by
    obtain ⟨hn, hns⟩ := areClosed_cons.1 h
    rw [piecesAll, List.append_assoc, grow_pieces n hn, grow_piecesAll ns hns, List.reverse_cons,
      List.append_assoc, List.singleton_append]

end

/-! ## Texts and the nodes they are read as -/

/-- A text that is read as these nodes in front of whatever does not prolong it. -/
structure ReadsAs (s : List Char) (ns : List Node) : Prop where
  closed : AreClosed ns
  pieces : ∀ rest, Opens rest → events (s ++ rest) = piecesAll ns ++ events rest

theorem AreWritten.readsAs {ns : List Node} (h : AreWritten ns) : ReadsAs (renderAll ns) ns :=
  ⟨h.areClosed, events_renderAll ns h⟩

/-- A file is read as the nodes of its text, and ends where they do. -/
theorem ReadsAs.nodesOfFile_eq {s : List Char} {ns : List Node} (h : ReadsAs s ns)
    (hfirst : s.head? = some '<') : nodesOfFile s = (ns, .endOfFile) := by
  have hevents : events s = piecesAll ns := by
    have hall := h.pieces [] (by simp [Opens])
    rwa [List.append_nil, show events [] = [] by rw [events], List.append_nil] at hall
  have hfile : eventsOfFile s = events s := by
    unfold eventsOfFile
    split
    · exact absurd hfirst (by simp)
    · rfl
  have hgrow := grow_piecesAll ns h.closed [] [] []
  rw [List.append_nil, List.append_nil] at hgrow
  rw [nodesOfFile, hfile, hevents, hgrow]
  simp [grow, wrapUp]

/-- **A written tree reads back,** and the file ends where it does. -/
theorem nodesOfFile_renderAll {ns : List Node} (h : AreWritten ns)
    (hfirst : (renderAll ns).head? = some '<') :
    nodesOfFile (renderAll ns) = (ns, .endOfFile) :=
  h.readsAs.nodesOfFile_eq hfirst

end Markup
end Linguist
