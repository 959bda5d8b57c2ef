import Linguist.Catalogue.OfElements
import Linguist.Proofs.Catalogue.Layout

/-!
# Reading back the elements of a catalogue

Each reader of `Catalogue.OfElements` visits the nodes of one element in order and
collects them in a draft.  Here each is run on the nodes that the writer leaves, from
the innermost element outwards: texts, wordings, targets, messages, contexts, and the
catalogue itself (`Catalogue.ofNodes_toNodes`).

The readers pass over the indentation between elements, except the one for targets,
which collects it as text.  So the wording of a target is the one place where it is not
enough that every part reads back: what the collected parts are taken for depends on the
plural mark of the message.  `Wording.reread` says what a wording is taken for, and
`Wording.Fits` for which wordings that is the wording itself.

## Visiting lines

A visit of lines that passes over indentations is a visit of the elements
(`foldlM_lines`), and one in which no element is refused is an ordinary fold
(`foldlM_eq_ok`).
-/

namespace Linguist

open Markup (Node Tag lines present visit readText content)

namespace Markup

variable {σ α : Type}

theorem ok_bind {β : Type} (s : σ) (f : σ → Except Fault β) : (Except.ok s >>= f) = f s := rfl

/-- A visit that passes over indentations sees the elements only. -/
theorem foldlM_lines {step : σ → Node → Except Fault σ} {indent : Nat}
    (hnewline : ∀ s, step s (.newline indent) = .ok s) (node : α → Node) (as : List α) (s : σ) :
    (lines indent node as).foldlM step s = as.foldlM (fun s a => step s (node a)) s := by
  induction as generalizing s with
  | nil => rfl
  | cons a as ih =>
    show (step s (.newline indent) >>= fun s => step s (node a) >>= fun s =>
      (lines indent node as).foldlM step s) = _
    rw [hnewline, ok_bind, List.foldlM_cons]
    exact congrArg _ (funext ih)

/-- A visit in which nothing is refused. -/
theorem foldlM_eq_ok {step : σ → α → Except Fault σ} {next : σ → α → σ} {as : List α}
    (h : ∀ s, ∀ a ∈ as, step s a = .ok (next s a)) (s : σ) :
    as.foldlM step s = .ok (as.foldl next s) := by
  induction as generalizing s with
  | nil => rfl
  | cons a as ih =>
    rw [List.foldlM_cons, h s a List.mem_cons_self, ok_bind,
      ih fun s b hb => h s b (List.mem_cons_of_mem a hb)]
    rfl

/-- A visit of nodes that are closed by their end tag. -/
theorem visit_closed {element : String} {step : σ → Node → Except Fault σ} {s s' : σ}
    {children : List Node} (h : children.foldlM step s = .ok s') :
    visit element step s children .closed = .ok s' := by
  rw [visit, h]
  rfl

/-! ## Texts -/

/-- The text of an element with a text is read back. -/
theorem foldlM_addText_content {text : String} (h : '\x00' ∉ text.toList) :
    (content text).foldlM addText [] = .ok text.toList := by
  unfold content
  split
  · rename_i hempty
    rw [String.isEmpty_iff.1 hempty]
    rfl
  · rw [List.foldlM_cons, addText, readRaw, unescape?_protect h]
    rfl

theorem readText_content (element : String) {text : String} (h : '\x00' ∉ text.toList) :
    readText element (content text) .closed = .ok text := by
  rw [readText, visit_closed (foldlM_addText_content h)]
  show Except.ok (String.ofList text.toList) = _
  rw [String.ofList_toList]

end Markup

open Markup (ok_bind foldlM_lines foldlM_eq_ok visit_closed readText_content)

/-! ## Places -/

namespace Place

theorem attribute?_attributes (p : Place) (name : String) :
    (Tag.ofOptions "location" p.attributes).attribute? name =
      .ok (p.attributes.lookup name).join := by
  have hwords : ∀ name ∈ ["filename", "line"], Markup.IsWord name := by decide
  have hnodup : ["filename", "line"].Nodup := by decide
  exact Tag.attribute?_ofOptions p.attributes hwords hnodup "location" name

theorem ofTag_attributes (p : Place) :
    ofTag (Tag.ofOptions "location" p.attributes) = .ok p := by
  have hline := p.attribute?_attributes "line"
  have hfile := p.attribute?_attributes "filename"
  obtain ⟨file?, line?⟩ := p
  rw [ofTag, hline, hfile]
  cases line? with
  | none => rfl
  | some line =>
    show (some <$> LineNumber.ofText? line.text >>= fun line? => _) = _
    rw [LineNumber.ofText?_text]
    rfl

end Place

/-! ## Targets -/

namespace Target

theorem attribute?_attributes (t : Target) (name : String) :
    (Tag.ofOptions "translation" t.attributes).attribute? name =
      .ok (t.attributes.lookup name).join := by
  have hwords : ∀ name ∈ ["type", "variants"], Markup.IsWord name := by decide
  have hnodup : ["type", "variants"].Nodup := by decide
  exact Tag.attribute?_ofOptions t.attributes hwords hnodup "translation" name

theorem statusOfTag_attributes (t : Target) :
    statusOfTag (Tag.ofOptions "translation" t.attributes) = .ok t.status := by
  rw [statusOfTag, t.attribute?_attributes "type"]
  obtain ⟨status, wording⟩ := t
  cases status <;> rfl

/-- The parts after an indentation. -/
def Parts.addNewline (p : Parts) (indent : Nat) : Parts :=
  { p with text := p.text ++ '\n' :: List.replicate indent ' ' }

theorem addPart_newline (p : Parts) (indent : Nat) :
    addPart p (.newline indent) = .ok (p.addNewline indent) := by
  have hraw : Markup.unescape? ('\n' :: List.replicate indent ' ') =
      some ('\n' :: List.replicate indent ' ') :=
    Markup.unescape?_of_notMem (by simp [List.mem_replicate])
  rw [Node.newline, addPart, Markup.addText, Markup.readRaw, hraw]
  · rfl
  · intro _ _ _ h
    cases h
  · intro _ h
    cases h

theorem addPart_numerusform {s : String} (h : '\x00' ∉ s.toList) (p : Parts) :
    addPart p (.ofText "numerusform" s) = .ok (p.addForm s) := by
  show addPart p (.element (.plain "numerusform") (content s) .closed) = _
  rw [addPart, if_pos (by rfl), Tag.attribute?_plain, ok_bind, readText_content _ h]
  rfl

theorem addPart_lengthvariant {s : String} (h : '\x00' ∉ s.toList) (p : Parts) :
    addPart p (.ofText "lengthvariant" s) = .ok (p.addLength s) := by
  show addPart p (.element (.plain "lengthvariant") (content s) .closed) = _
  rw [addPart, if_neg (by decide), if_pos (by rfl), readText_content _ h]
  rfl

/-- Parts of one kind are collected in order, and the indentation between them as
text. -/
theorem foldlM_addPart_formNodes {element : String} {add : Parts → String → Parts}
    {texts : List String} (hadd : ∀ s ∈ texts, ∀ p, addPart p (.ofText element s) = .ok (add p s))
    (hne : texts ≠ []) (p : Parts) : (Wording.formNodes element texts).foldlM addPart p =
      .ok ((texts.foldl (fun p s => add (p.addNewline 12) s) p).addNewline 8) := by
  have hlines (p : Parts) : (lines 12 (Node.ofText element) texts).foldlM addPart p =
      .ok (texts.foldl (fun p s => add (p.addNewline 12) s) p) := by
    clear hne
    induction texts generalizing p with
    | nil => rfl
    | cons s texts ih =>
      show (addPart p (.newline 12) >>= fun p => addPart p (.ofText element s) >>= fun p =>
        (lines 12 (Node.ofText element) texts).foldlM addPart p) = _
      rw [addPart_newline, ok_bind, hadd s List.mem_cons_self, ok_bind,
        ih fun t ht => hadd t (List.mem_cons_of_mem s ht)]
      rfl
  have hend : (if texts.isEmpty then [] else [Node.newline 8]) = [Node.newline 8] :=
    if_neg fun h => hne (List.isEmpty_iff.1 h)
  rw [Wording.formNodes, hend]
  show (lines 12 (Node.ofText element) texts ++ [Node.newline 8]).foldlM addPart p = _
  rw [List.foldlM_append, hlines, ok_bind, List.foldlM_cons, addPart_newline]
  rfl

theorem foldl_addForm (forms : List String) (p : Parts) :
    (forms.foldl (fun p s => (p.addNewline 12).addForm s) p).forms? =
      if forms = [] then p.forms? else some (p.forms?.getD [] ++ forms) := by
  induction forms generalizing p with
  | nil => rfl
  | cons s forms ih =>
    rw [List.foldl_cons, ih]
    cases forms <;> simp [Parts.addForm, Parts.addNewline]

theorem foldl_addLength (variants : List String) (p : Parts) :
    (variants.foldl (fun p s => (p.addNewline 12).addLength s) p).lengths = p.lengths ++ variants ∧
      (variants.foldl (fun p s => (p.addNewline 12).addLength s) p).forms? = p.forms? := by
  induction variants generalizing p with
  | nil => simp
  | cons s variants ih =>
    rw [List.foldl_cons, (ih _).1, (ih _).2]
    simp [Parts.addLength, Parts.addNewline]

theorem wording_of_forms {p : Parts} {forms : List String} (h : p.forms? = some forms)
    (isPlural hasLengths : Bool) : p.wording isPlural hasLengths = .plural forms := by
  rw [Parts.wording, h]

theorem wording_of_lengths {p : Parts} (h : p.forms? = none) (isPlural : Bool) :
    p.wording isPlural true = .lengths p.lengths := by
  rw [Parts.wording, h]
  rfl

end Target

/-- The wordings that read back in a message with or without the plural mark: a plain
text would become the only plural form of a plural message, and no plural form at all
would become an empty text in any other. -/
def Wording.Fits (isPlural : Bool) : Wording → Prop
  | .plain _ => isPlural = false
  | .plural forms => isPlural = true ∨ forms ≠ []
  | .lengths _ => True

instance (isPlural : Bool) : DecidablePred (Wording.Fits isPlural)
  | .plain _ => inferInstanceAs (Decidable (isPlural = false))
  | .plural forms => inferInstanceAs (Decidable (isPlural = true ∨ forms ≠ []))
  | .lengths _ => inferInstanceAs (Decidable True)

/-- What a written wording is taken for: a plain text of a plural message for its only
form, and no form at all in any other message for an empty text. -/
def Wording.reread (isPlural : Bool) : Wording → Wording
  | .plain text => if isPlural then .plural (if text.isEmpty then [] else [text]) else .plain text
  | .plural forms => if forms.isEmpty && !isPlural then .plain "" else .plural forms
  | .lengths variants => .lengths variants

/-- A wording is taken for itself if it fits. -/
theorem Wording.reread_eq_self_iff {isPlural : Bool} {w : Wording} :
    w.reread isPlural = w ↔ w.Fits isPlural := by
  cases w with
  | plain text => cases isPlural <;> simp [reread, Fits]
  | plural forms => cases isPlural <;> cases forms <;> simp [reread, Fits]
  | lengths variants => simp [reread, Fits]

namespace Target

/-- The target with the wording that its wording is taken for. -/
def reread (isPlural : Bool) (t : Target) : Target :=
  ⟨t.status, t.wording.reread isPlural⟩

theorem reread_eq_self_iff {isPlural : Bool} {t : Target} :
    t.reread isPlural = t ↔ t.wording.Fits isPlural := by
  rw [← Wording.reread_eq_self_iff]
  exact ⟨fun h => congrArg Target.wording h, fun h => congrArg (Target.mk t.status) h⟩

/-- The text of a target is collected as it is. -/
theorem foldlM_addPart_content {text : String} (h : '\x00' ∉ text.toList) :
    (content text).foldlM addPart {} = .ok { text := text.toList } := by
  unfold content
  split
  · rename_i hempty
    rw [String.isEmpty_iff.1 hempty]
    rfl
  · rw [List.foldlM_cons]
    show ((Markup.readRaw (Markup.protect text.toList)).map ([] ++ ·)).map _ >>= _ = _
    rw [Markup.readRaw, Markup.unescape?_protect h]
    rfl

/-- Parts without forms and lengths make up a plain text, or the only form of a plural
message. -/
theorem wording_of_text (text : String) (isPlural : Bool) :
    Parts.wording { text := text.toList } isPlural false = (Wording.plain text).reread isPlural := by
  have hempty : text.toList.isEmpty = text.isEmpty := by
    rw [Bool.eq_iff_iff, List.isEmpty_iff, String.isEmpty_iff, String.toList_eq_nil_iff]
  have hwording : Parts.wording { text := text.toList } isPlural false =
      if isPlural then .plural (if text.toList.isEmpty then [] else [String.ofList text.toList])
      else .plain (String.ofList text.toList) := by
    rw [Parts.wording]
    rfl
  rw [hwording, hempty, String.ofList_toList, Wording.reread]

/-- **What the parts of a written wording make up** depends on the plural mark. -/
theorem wording_toNodes {w : Wording} (isPlural : Bool) (htexts : ∀ s ∈ w.all, '\x00' ∉ s.toList) :
    ∃ p, w.toNodes.foldlM addPart {} = .ok p ∧
      p.wording isPlural (w.mark? == some "yes") = w.reread isPlural := by
  cases w with
  | plain text =>
    exact ⟨_, foldlM_addPart_content (htexts text List.mem_cons_self),
      wording_of_text text isPlural⟩
  | plural forms =>
    by_cases hnil : forms = []
    · subst hnil
      exact ⟨{}, rfl, by cases isPlural <;> rfl⟩
    · refine ⟨_, foldlM_addPart_formNodes
        (fun s hs p => addPart_numerusform (htexts s hs) p) hnil {}, ?_⟩
      have hforms := foldl_addForm forms {}
      have hreread : (Wording.plural forms).reread isPlural = .plural forms :=
        Wording.reread_eq_self_iff.2 (Or.inr hnil)
      rw [if_neg hnil] at hforms
      rw [hreread]
      refine wording_of_forms ?_ isPlural false
      exact hforms
  | lengths variants =>
    by_cases hnil : variants = []
    · subst hnil
      exact ⟨{}, rfl, rfl⟩
    · refine ⟨_, foldlM_addPart_formNodes
        (fun s hs p => addPart_lengthvariant (htexts s hs) p) hnil {}, ?_⟩
      obtain ⟨hlengths, hforms⟩ := foldl_addLength variants {}
      refine (wording_of_lengths hforms isPlural).trans ?_
      exact congrArg Wording.lengths hlengths

/-- **A target reads back,** with the wording that its wording is taken for. -/
theorem ofElement_toNode {t : Target} (isPlural : Bool)
    (htexts : ∀ s ∈ t.wording.all, '\x00' ∉ s.toList) :
    ofElement isPlural (Tag.ofOptions "translation" t.attributes) t.wording.toNodes .closed =
      .ok (t.reread isPlural) := by
  obtain ⟨p, hparts, hwording⟩ := wording_toNodes isPlural htexts
  have hmark : (Tag.ofOptions "translation" t.attributes).attribute? "variants" =
      .ok t.wording.mark? := t.attribute?_attributes "variants"
  rw [ofElement, t.statusOfTag_attributes, ok_bind, hmark, ok_bind, visit_closed hparts, ok_bind]
  show Except.ok (Target.mk t.status (p.wording isPlural (t.wording.mark? == some "yes"))) = _
  rw [hwording]
  rfl

end Target

/-! ## Messages -/

namespace Message

/-- The message with the wording that its wording is taken for. -/
def reread (m : Message) : Message :=
  { m with target := m.target.reread m.isPlural }

theorem reread_eq_self_iff {m : Message} : m.reread = m ↔ m.target.wording.Fits m.isPlural := by
  rw [← Target.reread_eq_self_iff]
  exact ⟨fun h => congrArg target h, fun h => congrArg (fun target => { m with target }) h⟩

/-- Every text of a message that becomes the content of an element. -/
def contents (m : Message) : List String :=
  m.source :: m.notes.filterMap Prod.snd ++ m.target.wording.all

theorem attribute?_attributes (m : Message) (name : String) :
    (Tag.ofOptions "message" m.attributes).attribute? name =
      .ok (m.attributes.lookup name).join := by
  have hwords : ∀ name ∈ ["id", "numerus"], Markup.IsWord name := by decide
  have hnodup : ["id", "numerus"].Nodup := by decide
  exact Tag.attribute?_ofOptions m.attributes hwords hnodup "message" name

theorem addNode_newline (d : Draft) (indent : Nat) : addNode d (.newline indent) = .ok d := rfl

theorem addNode_place (d : Draft) (p : Place) : addNode d p.toNode = .ok (d.addPlace p) := by
  rw [p.toNode_eq, addNode, if_pos (Tag.name_ofOptions _ _), p.ofTag_attributes]
  rfl

theorem addNode_text (d : Draft) {name text : String} (hname : name ∈ textElements)
    (h : '\x00' ∉ text.toList) : addNode d (.ofText name text) = .ok (d.setText name text) := by
  have hother : ∀ name ∈ textElements, name ≠ "location" ∧ name ≠ "translation" := by decide
  show addNode d (.element (.plain name) (content text) .closed) = _
  rw [addNode, Tag.name_plain, if_neg (hother name hname).1, if_neg (hother name hname).2,
    if_pos (List.contains_iff_mem.2 hname), readText_content name h]
  rfl

theorem addNode_target (d : Draft) {t : Target} (h : ∀ s ∈ t.wording.all, '\x00' ∉ s.toList) :
    addNode d t.toNode = .ok (d.setTarget (t.reread d.message.isPlural)) := by
  rw [t.toNode_eq, Node.ofTag, addNode, Tag.name_ofOptions, if_neg (by decide), if_pos rfl,
    Target.ofElement_toNode _ h]
  rfl

theorem foldl_addPlace (ps : List Place) (d : Draft) :
    ps.foldl Draft.addPlace d =
      { d with message := { d.message with places := d.message.places ++ ps } } := by
  induction ps generalizing d with
  | nil => simp
  | cons p ps ih =>
    rw [List.foldl_cons, ih]
    simp [Draft.addPlace]

/-- Taking in the optional texts of a message sets those that are there. -/
theorem foldl_setText_notes (m : Message) (d : Draft) :
    (present m.notes).foldl (fun d a => d.setText a.1 a.2) d =
      { d with message := { d.message with
        oldSource? := m.oldSource?.or d.message.oldSource?
        comment? := m.comment?.or d.message.comment?
        oldComment? := m.oldComment?.or d.message.oldComment?
        extraComment? := m.extraComment?.or d.message.extraComment?
        translatorComment? := m.translatorComment?.or d.message.translatorComment? } } := by
  unfold notes
  cases m.oldSource? <;> cases m.comment? <;> cases m.oldComment? <;> cases m.extraComment? <;>
    cases m.translatorComment? <;> rfl

/-- **A message reads back,** with the wording that its wording is taken for. -/
theorem ofElement_children {m : Message} (htexts : ∀ s ∈ m.contents, '\x00' ∉ s.toList) :
    ofElement (Tag.ofOptions "message" m.attributes) m.children .closed = .ok m.reread := by
  have hid : (Tag.ofOptions "message" m.attributes).attribute? "id" = .ok m.id? :=
    m.attribute?_attributes "id"
  have hnumerus : (Tag.ofOptions "message" m.attributes).attribute? "numerus" =
      .ok (if m.isPlural then some "yes" else none) := m.attribute?_attributes "numerus"
  have hplural : ((if m.isPlural then some "yes" else none) == some "yes") = m.isPlural := by
    cases m.isPlural <;> rfl
  have hsource : '\x00' ∉ m.source.toList := htexts _ (by simp [contents])
  have hnotes : ∀ d : Draft, ∀ a ∈ present m.notes,
      addNode d (namedNode a) = .ok (d.setText a.1 a.2) := by
    intro d a ha
    have hnames : ∀ name ∈ m.notes.map Prod.fst, name ∈ textElements := by
      show ∀ name ∈ ["oldsource", "comment", "oldcomment", "extracomment", "translatorcomment"],
        name ∈ textElements
      decide
    have hname := hnames a.1
      ((Markup.map_fst_present_sublist m.notes).subset (List.mem_map_of_mem ha))
    have htext := htexts a.2 (List.mem_append_left _ (List.mem_cons_of_mem _
      (Markup.map_snd_present m.notes ▸ List.mem_map_of_mem ha)))
    exact addNode_text d hname htext
  have hwording : ∀ s ∈ m.target.wording.all, '\x00' ∉ s.toList := fun s hs =>
    htexts s (List.mem_append_right _ hs)
  -- the drafts after the places, the source, the optional texts and the target
  have hvisit : m.children.foldlM addNode ⟨{ id? := m.id?, isPlural := m.isPlural, source := "" },
      none⟩ = .ok ⟨{ m.reread with source := "" }, some m.source⟩ := by
    rw [children, List.foldlM_append, foldlM_lines (fun d => addNode_newline d 8),
      foldlM_eq_ok (fun d p _ => addNode_place d p), ok_bind, foldl_addPlace, List.foldlM_cons,
      addNode_newline, ok_bind, List.foldlM_cons, addNode_text _ (by decide) hsource, ok_bind,
      List.foldlM_append, foldlM_lines (fun d => addNode_newline d 8),
      foldlM_eq_ok (fun d a ha => hnotes d a ha), ok_bind, foldl_setText_notes, List.foldlM_cons,
      addNode_newline, ok_bind, List.foldlM_cons, addNode_target _ hwording, ok_bind,
      List.foldlM_cons, addNode_newline]
    simp [Draft.setText, Draft.setTarget, reread]
  rw [ofElement, hid, ok_bind, hnumerus, ok_bind, hplural]
  dsimp only
  rw [visit_closed hvisit]
  rfl

end Message

/-! ## Contexts -/

namespace Context

/-- The context with each wording as what it is taken for. -/
def reread (c : Context) : Context :=
  c.withMessages (c.messages.map Message.reread)

theorem reread_eq_self {c : Context}
    (h : ∀ m ∈ c.messages, m.target.wording.Fits m.isPlural) : c.reread = c := by
  have hmessages : c.messages.map Message.reread = c.messages :=
    (List.map_congr_left fun m hm => Message.reread_eq_self_iff.2 (h m hm)).trans (List.map_id _)
  rw [reread, hmessages]
  rfl

/-- Every text of a context that becomes the content of an element. -/
def contents (c : Context) : List String :=
  c.texts.filterMap Prod.snd ++ c.messages.flatMap Message.contents

theorem addNode_newline (d : Draft) (indent : Nat) : addNode d (.newline indent) = .ok d := rfl

theorem addNode_name (d : Draft) {text : String} (h : '\x00' ∉ text.toList) :
    addNode d (.ofText "name" text) = .ok { d with name? := some text } := by
  show addNode d (.element (.plain "name") (content text) .closed) = _
  rw [addNode, Tag.name_plain, if_pos rfl, readText_content _ h]
  rfl

theorem addNode_comment (d : Draft) {text : String} (h : '\x00' ∉ text.toList) :
    addNode d (.ofText "comment" text) = .ok { d with comment? := some text } := by
  show addNode d (.element (.plain "comment") (content text) .closed) = _
  rw [addNode, Tag.name_plain, if_neg (by decide), if_pos rfl, readText_content _ h]
  rfl

theorem addNode_message (d : Draft) {m : Message} (h : ∀ s ∈ m.contents, '\x00' ∉ s.toList) :
    addNode d m.toNode = .ok { d with messages := d.messages ++ [m.reread] } := by
  rw [m.toNode_eq, Node.ofTag, addNode, Tag.name_ofOptions, if_neg (by decide),
    if_neg (by decide), if_pos rfl, Message.ofElement_children h]
  rfl

theorem foldl_addMessage (ms : List Message) (d : Draft) :
    ms.foldl (fun d m => { d with messages := d.messages ++ [m.reread] }) d =
      { d with messages := d.messages ++ ms.map Message.reread } := by
  induction ms generalizing d with
  | nil => simp
  | cons m ms ih =>
    rw [List.foldl_cons, ih]
    simp

/-- **A context reads back,** message by message. -/
theorem ofElement_children {c : Context} (htexts : ∀ s ∈ c.contents, '\x00' ∉ s.toList) :
    ofElement c.children .closed = .ok c.reread := by
  have hname : '\x00' ∉ c.name.toList := htexts _ (by simp [contents, texts])
  have hmessages : ∀ d : Draft, ∀ m ∈ c.messages,
      addNode d m.toNode = .ok { d with messages := d.messages ++ [m.reread] } := fun d m hm =>
    addNode_message d fun s hs =>
      htexts s (List.mem_append_right _ (List.mem_flatMap.2 ⟨m, hm, hs⟩))
  have hhead : (lines 4 namedNode (present c.texts)).foldlM addNode {} =
      .ok { name? := some c.name, comment? := c.comment? } := by
    rw [foldlM_lines (fun d => addNode_newline d 4)]
    cases hcomment : c.comment? with
    | none =>
      rw [texts, hcomment]
      show (addNode {} (.ofText "name" c.name) >>= fun d => pure d) = _
      rw [addNode_name _ hname]
      rfl
    | some comment =>
      have hcontent : '\x00' ∉ comment.toList :=
        htexts _ (by simp [contents, texts, hcomment])
      rw [texts, hcomment]
      show (addNode {} (.ofText "name" c.name) >>= fun d =>
        addNode d (.ofText "comment" comment) >>= fun d => pure d) = _
      rw [addNode_name _ hname, ok_bind, addNode_comment _ hcontent]
      rfl
  have hvisit : c.children.foldlM addNode {} =
      .ok { name? := some c.name, comment? := c.comment?, messages := c.reread.messages } := by
    rw [children, List.foldlM_append, hhead, ok_bind, List.foldlM_append,
      foldlM_lines (fun d => addNode_newline d 4), foldlM_eq_ok hmessages, ok_bind,
      foldl_addMessage]
    rfl
  rw [ofElement, visit_closed hvisit]
  rfl

end Context

/-! ## The catalogue -/

namespace Catalogue

/-- The catalogue with each wording as what it is taken for. -/
def reread (c : Catalogue) : Catalogue :=
  { c with contexts := c.contexts.map Context.reread }

theorem reread_eq_self {c : Catalogue}
    (h : ∀ x ∈ c.contexts, ∀ m ∈ x.messages, m.target.wording.Fits m.isPlural) :
    c.reread = c := by
  have hcontexts : c.contexts.map Context.reread = c.contexts :=
    (List.map_congr_left fun x hx => Context.reread_eq_self (h x hx)).trans (List.map_id _)
  rw [reread, hcontexts]

/-- Every text of a catalogue that becomes the content of an element: the names and
comments of contexts, and the source texts, notes and wordings of messages. -/
def contents (c : Catalogue) : List String :=
  c.contexts.flatMap Context.contents

theorem attribute?_attributes (c : Catalogue) (name : String) :
    (Tag.ofOptions "TS" c.attributes).attribute? name = .ok (c.attributes.lookup name).join := by
  have hwords : ∀ name ∈ ["version", "language", "sourcelanguage"], Markup.IsWord name := by
    decide
  have hnodup : ["version", "language", "sourcelanguage"].Nodup := by decide
  exact Tag.attribute?_ofOptions c.attributes hwords hnodup "TS" name

theorem ofTag_attributes (c : Catalogue) :
    ofTag (Tag.ofOptions "TS" c.attributes) = .ok { c with contexts := [] } := by
  have hversion : (Tag.ofOptions "TS" c.attributes).attribute? "version" = .ok (some c.version) :=
    c.attribute?_attributes "version"
  have hlanguage : (Tag.ofOptions "TS" c.attributes).attribute? "language" = .ok c.language? :=
    c.attribute?_attributes "language"
  have hsource : (Tag.ofOptions "TS" c.attributes).attribute? "sourcelanguage" =
      .ok c.sourceLanguage? := c.attribute?_attributes "sourcelanguage"
  rw [ofTag, hversion, ok_bind, hlanguage, ok_bind, hsource]
  rfl

theorem addNode_context (c : Catalogue) {x : Context} (h : ∀ s ∈ x.contents, '\x00' ∉ s.toList) :
    addNode c x.toNode = .ok { c with contexts := c.contexts ++ [x.reread] } := by
  rw [x.toNode_eq, Node.ofTag, addNode, Tag.name_plain, if_pos rfl,
    Context.ofElement_children h]
  rfl

theorem foldl_addContext (xs : List Context) (c : Catalogue) :
    xs.foldl (fun c x => { c with contexts := c.contexts ++ [x.reread] }) c =
      { c with contexts := c.contexts ++ xs.map Context.reread } := by
  induction xs generalizing c with
  | nil => simp
  | cons x xs ih =>
    rw [List.foldl_cons, ih]
    simp

/-- **A catalogue reads back from its nodes,** with each wording as what it is taken
for. -/
theorem ofNodes_toNodes_reread {c : Catalogue} (htexts : ∀ s ∈ c.contents, '\x00' ∉ s.toList) :
    ofNodes c.toNodes .endOfFile = .ok c.reread := by
  have hcontexts : ∀ d : Catalogue, ∀ x ∈ c.contexts,
      addNode d x.toNode = .ok { d with contexts := d.contexts ++ [x.reread] } := fun d x hx =>
    addNode_context d fun s hs => htexts s (List.mem_flatMap.2 ⟨x, hx, hs⟩)
  have hvisit : c.children.foldlM addNode { c with contexts := [] } = .ok c.reread := by
    rw [children, List.foldlM_append, foldlM_lines (fun _ => rfl), foldlM_eq_ok hcontexts,
      ok_bind, foldl_addContext]
    rfl
  have hroot : checkRoot (Tag.ofOptions "TS" c.attributes) = .ok () := by
    rw [checkRoot, Tag.name_ofOptions, if_pos rfl]
  rw [toNodes, toNode_eq]
  show (checkRoot (Tag.ofOptions "TS" c.attributes) >>= fun _ =>
    ofTag (Tag.ofOptions "TS" c.attributes) >>= fun d =>
      visit "TS" addNode d c.children .closed) = _
  rw [hroot, ok_bind, c.ofTag_attributes, ok_bind, visit_closed hvisit]

/-- A catalogue whose wordings fit is read as itself. -/
theorem ofNodes_toNodes {c : Catalogue}
    (hfits : ∀ x ∈ c.contexts, ∀ m ∈ x.messages, m.target.wording.Fits m.isPlural)
    (htexts : ∀ s ∈ c.contents, '\x00' ∉ s.toList) : ofNodes c.toNodes .endOfFile = .ok c := by
  rw [ofNodes_toNodes_reread htexts, reread_eq_self hfits]

end Catalogue
end Linguist
