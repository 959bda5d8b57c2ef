import Linguist.Proofs.Catalogue.EmptyElements

/-!
# Where the spellings of an empty element are told apart

For each tag and each place at which its spellings may be told apart, there is a file in which they
are.  So `ToldApart` leaves nothing out and names no place without need
(`spellings_exact`).

## One file for each place

The elements around the tag determine the file: each of them is opened, has what it has to have,
and is closed again (`leadIn`, `leadOut`).  What an element has to have stands in front, so that the
text at the place counts if it is given once more, as that of a name or a source may be.  Such a
file is read as its elements, one in the other (`wrapIn`), and what is read of it is what the
innermost level makes of the tag, carried to the outside (`ofNodes_context`, `ofNodes_message`,
`ofNodes_target`).

## Text

At a place where text is read, the result is a function of this text and tells all texts apart
(`CarriesText`).  That is enough for bytes, wherever they stand: in one spelling there is a
character more, or a complaint.
-/

namespace Linguist

open Markup (Node Tag Ending IsOwnText visit readText openElements?)

namespace Catalogue

/-! ## Files around a tag -/

/-- What an element has to have in it. -/
def requisites (name : String) : List Node :=
  if name = "context" then [.empty (.plain "name")]
  else if name = "message" then [.empty (.plain "source")]
  else []

/-- A text that opens elements, each with what it has to have. -/
def leadIn : List String → List Char
  | [] => []
  | name :: path =>
    '<' :: (Tag.plain name).text ++ '>' :: (Markup.renderAll (requisites name) ++ leadIn path)

/-- A text that closes these elements. -/
def leadOut : List String → List Char
  | [] => []
  | name :: path => leadOut path ++ '<' :: '/' :: (name.toList ++ []) ++ ['>']

/-- A node inside these elements. -/
def wrapIn : List String → Node → Node
  | [], n => n
  | name :: path, n => .element (.plain name) (requisites name ++ [wrapIn path n]) .closed

section

variable {path : List String} {s : List Char} {n : Node}

theorem areWritten_requisites (name : String) : Markup.AreWritten (requisites name) := by
  have hsingle : ∀ word : String, Markup.IsWord word →
      Markup.AreWritten [.empty (.plain word)] := fun word hword =>
    Markup.areWritten_cons.2 ⟨Node.isWritten_empty.2 (Tag.isWritten_plain hword), by simp,
      Markup.areWritten_nil⟩
  unfold requisites
  split
  · exact hsingle "name" (by decide)
  · split
    · exact hsingle "source" (by decide)
    · exact Markup.areWritten_nil

theorem isReadable_plain {name : String} (h : Markup.IsTagName name) :
    (Tag.plain name).IsReadable :=
  ⟨h, Markup.passes_nil, by simp [Tag.plain], by simp [Tag.plain]⟩

theorem readsAsNode_wrapIn (hpath : ∀ name ∈ path, Markup.IsTagName name)
    (h : Markup.ReadsAsNode s n) :
    Markup.ReadsAsNode (leadIn path ++ s ++ leadOut path) (wrapIn path n) := by
  induction path with
  | nil =>
    rw [leadIn, leadOut, List.nil_append, List.append_nil]
    exact h
  | cons name path ih =>
    obtain ⟨hname, hpath⟩ := List.forall_mem_cons.1 hpath
    have hinner := (ih hpath).append Markup.readsAs_nil
    rw [List.append_nil] at hinner
    have hcontent := (areWritten_requisites name).readsAs.append hinner
      (Markup.opens_of_head? (ih hpath).head)
    have hnode := Markup.readsAsNode_enclose (isReadable_plain hname) hcontent
      (List.forall_mem_nil fun c => Text.isMarkupBlank c = true)
    have htext : leadIn (name :: path) ++ s ++ leadOut (name :: path) =
        (Tag.plain name).enclose
          (Markup.renderAll (requisites name) ++ (leadIn path ++ s ++ leadOut path)) [] := by
      simp [leadIn, leadOut, Tag.enclose, Tag.plain]
    rw [htext]
    exact hnode

/-- Such a file is read as the elements with the node in them. -/
theorem ofMarkup_wrapIn (hpath : ∀ name ∈ path, Markup.IsTagName name)
    (h : Markup.ReadsAsNode s n) :
    ofMarkup (leadIn path ++ s ++ leadOut path) = ofNodes [wrapIn path n] .endOfFile := by
  have hnode := readsAsNode_wrapIn hpath h
  have hread := hnode.append Markup.readsAs_nil
  rw [List.append_nil] at hread
  rw [ofMarkup, hread.nodesOfFile_eq hnode.head]

/-- What an element has to have leaves nothing open. -/
theorem foldlM_track_requisites (name : String) (names : List String) :
    (Markup.piecesAll (requisites name)).foldlM Markup.Event.track names = some names := by
  unfold requisites
  split
  · cases names <;> rfl
  · split <;> cases names <;> rfl

/-- In front of the tag these elements are open. -/
theorem openElements?_leadIn (hpath : ∀ name ∈ path, Markup.IsTagName name) :
    openElements? (leadIn path) = some path := by
  have hopens : ∀ path, Markup.Opens (leadIn path) := by
    intro path
    cases path <;> simp [leadIn, Markup.Opens]
  have htrack : ∀ names : List String,
      (Markup.events (leadIn path)).foldlM Markup.Event.track names =
        some (path.reverse ++ names) := by
    induction path with
    | nil =>
      intro names
      rw [leadIn, Markup.events]
      rfl
    | cons name path ih =>
      intro names
      obtain ⟨hname, hpath⟩ := List.forall_mem_cons.1 hpath
      have hstart : Markup.Event.track names (.start (.plain name)) = some (name :: names) := by
        cases names <;> rfl
      rw [leadIn, (isReadable_plain hname).events_start,
        (areWritten_requisites name).readsAs.pieces _ (hopens path), List.foldlM_cons, hstart]
      show (Markup.piecesAll (requisites name) ++ Markup.events (leadIn path)).foldlM
        Markup.Event.track (name :: names) = _
      rw [List.foldlM_append, foldlM_track_requisites]
      show (Markup.events (leadIn path)).foldlM Markup.Event.track (name :: names) = _
      rw [ih hpath, List.reverse_cons, List.append_assoc, List.singleton_append]
  have hfile : Markup.eventsOfFile (leadIn path) = Markup.events (leadIn path) := by
    cases path <;> rfl
  rw [openElements?, hfile, htrack, List.append_nil, Option.map_some, List.reverse_reverse]

end

/-! ## What is read of a node, carried to the outside -/

theorem visit_cons {σ : Type} (element : String) (step : σ → Node → Except Fault σ) (d : σ)
    (n : Node) (ns : List Node) (ending : Ending) :
    visit element step d (n :: ns) ending =
      (step d n).bind fun d => visit element step d ns ending := by
  rw [visit, List.foldlM_cons]
  cases step d n <;> rfl

theorem visit_singleton {σ : Type} (element : String) (step : σ → Node → Except Fault σ) (d : σ)
    (n : Node) : visit element step d [n] .closed = step d n := by
  rw [visit_cons]
  cases step d n <;> rfl

theorem readText_singleton (element : String) (n : Node) :
    readText element [n] .closed = (Markup.addText [] n).map String.ofList := by
  rw [readText, visit_singleton]

/-- A context that is read to its end, as the only one of a catalogue. -/
def endContext (d : Context.Draft) : Except Fault Catalogue :=
  match d.name? with
  | some name => .ok { contexts := [⟨name, d.comment?, d.messages⟩] }
  | none => .error (.invalid .contextWithoutName)

/-- A message that is read to its end, as the only one of a catalogue. -/
def endMessage (d : Message.Draft) : Except Fault Catalogue :=
  match d.source? with
  | some source => .ok { contexts := [⟨"", none, [{ d.message with source }]⟩] }
  | none => .error (.invalid .messageWithoutSource)

/-- A target that is read to its end, as the only one of a catalogue. -/
def endTarget (p : Target.Parts) : Catalogue :=
  { contexts := [⟨"", none, [{ source := "", target := ⟨.finished, p.wording false false⟩ }]⟩] }

/-- A message that has its source, but nothing else. -/
def sourced : Message.Draft :=
  ⟨{ source := "" }, some ""⟩

theorem ofNodes_root (path : List String) (n : Node) (ending : Ending) :
    ofNodes [wrapIn ("TS" :: path) n] ending = addNode .empty (wrapIn path n) := by
  have htag : ofTag (.plain "TS") = .ok .empty := by
    simp only [ofTag, Tag.attribute?_plain]
    rfl
  show (ofTag (.plain "TS") >>= fun c => visit "TS" addNode c [wrapIn path n] .closed) = _
  rw [htag]
  exact visit_singleton "TS" addNode .empty (wrapIn path n)

theorem ofNodes_context (path : List String) (n : Node) (ending : Ending) :
    ofNodes [wrapIn ("TS" :: "context" :: path) n] ending =
      (Context.addNode { name? := some "" } (wrapIn path n)).bind endContext := by
  have helement : Context.ofElement [.empty (.plain "name"), wrapIn path n] .closed =
      (Context.addNode { name? := some "" } (wrapIn path n)).bind fun d => match d.name? with
        | some name => .ok ⟨name, d.comment?, d.messages⟩
        | none => .error (.invalid .contextWithoutName) := by
    rw [Context.ofElement, visit_cons]
    show (visit "context" Context.addNode { name? := some "" } [wrapIn path n] .closed).bind _ = _
    rw [visit_singleton]
    rfl
  rw [ofNodes_root]
  show (Context.ofElement [.empty (.plain "name"), wrapIn path n] .closed).map _ = _
  rw [helement]
  cases Context.addNode { name? := some "" } (wrapIn path n) with
  | error fault => rfl
  | ok d =>
    obtain ⟨name?, comment?, messages⟩ := d
    cases name? <;> rfl

theorem ofNodes_message (path : List String) (n : Node) (ending : Ending) :
    ofNodes [wrapIn ("TS" :: "context" :: "message" :: path) n] ending =
      (Message.addNode sourced (wrapIn path n)).bind endMessage := by
  have helement : Message.ofElement (.plain "message")
        [.empty (.plain "source"), wrapIn path n] .closed =
      (Message.addNode sourced (wrapIn path n)).bind fun d => match d.source? with
        | some source => .ok { d.message with source }
        | none => .error (.invalid .messageWithoutSource) := by
    rw [Message.ofElement, Tag.attribute?_plain, Tag.attribute?_plain]
    show (visit "message" Message.addNode ⟨{ source := "" }, none⟩
      [.empty (.plain "source"), wrapIn path n] .closed).bind _ = _
    rw [visit_cons]
    show (visit "message" Message.addNode sourced [wrapIn path n] .closed).bind _ = _
    rw [visit_singleton]
    rfl
  rw [ofNodes_context]
  show ((Message.ofElement (.plain "message") [.empty (.plain "source"), wrapIn path n]
    .closed).map _).bind _ = _
  rw [helement]
  cases Message.addNode sourced (wrapIn path n) with
  | error fault => rfl
  | ok d =>
    obtain ⟨m, source?⟩ := d
    cases source? <;> rfl

theorem ofNodes_target (path : List String) (n : Node) (ending : Ending) :
    ofNodes [wrapIn ("TS" :: "context" :: "message" :: "translation" :: path) n] ending =
      (Target.addPart {} (wrapIn path n)).map endTarget := by
  have helement : Target.ofElement false (.plain "translation") [wrapIn path n] .closed =
      (Target.addPart {} (wrapIn path n)).map fun p => ⟨.finished, p.wording false false⟩ := by
    rw [Target.ofElement, Target.statusOfTag, Tag.attribute?_plain, Tag.attribute?_plain,
      visit_singleton]
    rfl
  rw [ofNodes_message]
  show ((Target.ofElement false (.plain "translation") [wrapIn path n] .closed).map _).bind _ = _
  rw [helement]
  cases Target.addPart {} (wrapIn path n) <;> rfl

/-! ## Text -/

section

variable {tag : Tag} {path : List String} {element : String}

/-- The text at a place is carried to the outside, for both spellings of a tag. -/
def CarriesText (tag : Tag) (path : List String) : Prop :=
  ∃ k : String → Catalogue, Function.Injective k ∧
    ∀ n ∈ [Node.empty tag, Node.element tag [] .closed],
      ofNodes [wrapIn path n] .endOfFile =
        (Markup.addText [] n).map fun cs => k (String.ofList cs)

/-- A function of the text that is read at a place, one that tells all texts apart. -/
theorem CarriesText.of_readText (element : String) (k : String → Catalogue)
    (hk : Function.Injective k)
    (h : ∀ n, ofNodes [wrapIn path n] .endOfFile = (readText element [n] .closed).map k) :
    CarriesText tag path := by
  refine ⟨k, hk, fun n _ => ?_⟩
  rw [h, readText_singleton]
  cases Markup.addText [] n <;> rfl

theorem carriesText_context (helement : element ∈ ["name", "comment"]) :
    CarriesText tag ["TS", "context", element] := by
  simp only [List.mem_cons, List.not_mem_nil, or_false] at helement
  rcases helement with rfl | rfl
  · refine .of_readText "name" (fun s => { contexts := [⟨s, none, []⟩] })
      (fun s t h => by simpa using h) (fun n => ?_)
    rw [ofNodes_context]
    show ((readText "name" [n] .closed).map _).bind _ = _
    cases readText "name" [n] .closed <;> rfl
  · refine .of_readText "comment" (fun s => { contexts := [⟨"", some s, []⟩] })
      (fun s t h => by simpa using h) (fun n => ?_)
    rw [ofNodes_context]
    show ((readText "comment" [n] .closed).map _).bind _ = _
    cases readText "comment" [n] .closed <;> rfl

theorem carriesText_message (helement : element ∈ Message.textElements) :
    CarriesText tag ["TS", "context", "message", element] := by
  simp only [Message.textElements, List.mem_cons, List.not_mem_nil, or_false] at helement
  refine .of_readText element
    (fun s => ((endMessage (sourced.setText element s)).toOption).getD .empty)
    (fun s t h => ?_) (fun n => ?_)
  · rcases helement with rfl | rfl | rfl | rfl | rfl | rfl
    all_goals simpa [sourced, Message.Draft.setText, endMessage, Except.toOption] using h
  · have hnode : Message.addNode sourced (wrapIn [element] n) =
        (readText element [n] .closed).map (sourced.setText element) := by
      rcases helement with rfl | rfl | rfl | rfl | rfl | rfl <;> rfl
    rw [ofNodes_message, hnode]
    rcases helement with rfl | rfl | rfl | rfl | rfl | rfl <;>
      cases readText _ [n] .closed <;> rfl

/-- In a translation a byte is text, if anything. -/
theorem carriesText_translation (hname : tag.name = "byte") :
    CarriesText tag ["TS", "context", "message", "translation"] := by
  refine ⟨fun s => endTarget { text := s.toList }, fun s t h => ?_, fun n hn => ?_⟩
  · simpa [endTarget, Target.Parts.wording] using h
  · have hpart : Target.addPart {} n =
        (Markup.addText [] n).map fun text => ({ text } : Target.Parts) := by
      rcases List.mem_pair.1 hn with rfl | rfl
      · rw [Target.addPart, if_neg (by rw [hname]; decide), if_neg (by rw [hname]; decide)]
      · rw [Target.addPart, if_neg (by rw [hname]; decide), if_neg (by rw [hname]; decide)]
        rfl
    rw [ofNodes_target, wrapIn, hpart]
    cases Markup.addText [] n with
    | error fault => rfl
    | ok cs => simp [Except.map]

theorem carriesText_form (helement : element ∈ ["numerusform", "lengthvariant"]) :
    CarriesText tag ["TS", "context", "message", "translation", element] := by
  simp only [List.mem_cons, List.not_mem_nil, or_false] at helement
  rcases helement with rfl | rfl
  · refine .of_readText "numerusform" (fun s => endTarget (({} : Target.Parts).addForm s))
      (fun s t h => ?_) (fun n => ?_)
    · simpa [endTarget, Target.Parts.wording, Target.Parts.addForm] using h
    · have hnode : Target.addPart {} (wrapIn ["numerusform"] n) =
          (readText "numerusform" [n] .closed).map (({} : Target.Parts).addForm) := by
        show (do
          if (← (Tag.plain "numerusform").attribute? "variants") == some "yes" then
            .error (.invalid .variantsInsideForm)
          else
            return Target.Parts.addForm {} (← readText "numerusform" [n] .closed)) = _
        rw [Tag.attribute?_plain]
        rfl
      rw [ofNodes_target, hnode]
      cases readText "numerusform" [n] .closed <;> rfl
  · refine .of_readText "lengthvariant" (fun s => endTarget (({} : Target.Parts).addLength s))
      (fun s t h => ?_) (fun n => ?_)
    · simpa [endTarget, Target.Parts.wording, Target.Parts.addLength] using h
    · rw [ofNodes_target]
      show ((readText "lengthvariant" [n] .closed).map _).map _ = _
      cases readText "lengthvariant" [n] .closed <;> rfl

theorem carriesText (hpath : path ∈ textPaths) (hname : tag.name = "byte") :
    CarriesText tag path := by
  rcases List.mem_append.1 hpath with hpath | hform
  · rcases List.mem_append.1 hpath with hcontext | hmessage
    · obtain ⟨element, helement, rfl⟩ := List.mem_map.1 hcontext
      exact carriesText_context helement
    · obtain ⟨element, helement, rfl⟩ := List.mem_map.1 hmessage
      rcases List.mem_cons.1 helement with rfl | helement
      · exact carriesText_translation hname
      · exact carriesText_message helement
  · obtain ⟨element, helement, rfl⟩ := List.mem_map.1 hform
    exact carriesText_form helement

/-! ## Telling apart -/

/-- What is answered about the content of a file: the catalogue, or its defect.  A file that is no
markup gets no such answer. -/
def answer? : Except Fault Catalogue → Option (Except Defect Catalogue)
  | .ok c => some (.ok c)
  | .error (.invalid defect) => some (.error defect)
  | .error _ => none

theorem answer?_ok_ne {c : Catalogue} {result : Except Fault Catalogue} (h : result ≠ .ok c) :
    answer? (.ok c) ≠ answer? result := by
  intro heq
  cases result with
  | ok c' => exact h (congrArg _ (Except.ok.inj (Option.some.inj heq)).symm)
  | error fault => cases fault <;> cases heq

theorem error_ne_ok {fault : Fault} {c : Catalogue} : Except.error fault ≠ Except.ok c := by
  intro h
  cases h

theorem attribute?_eq_error {name : String} {fault : Fault}
    (h : tag.attribute? name = .error fault) : fault = .notMarkup ∨ fault = .badAttributes := by
  unfold Tag.attribute? at h
  dsimp only at h
  split at h
  · split at h
    · cases h
    · exact .inl (Except.error.inj h).symm
  · split at h
    · cases h
    · exact .inr (Except.error.inj h).symm

/-- A message without content whose attributes cannot be read is refused for that. -/
theorem exists_ofElement_eq_error (h : ¬(tag.Answers "id" ∧ tag.Answers "numerus")) :
    ∃ fault, Message.ofElement tag [] .closed = .error fault ∧
      (fault = .notMarkup ∨ fault = .badAttributes) := by
  rw [Message.ofElement]
  cases hid : tag.attribute? "id" with
  | error fault => exact ⟨fault, rfl, attribute?_eq_error hid⟩
  | ok id? =>
    cases hnumerus : tag.attribute? "numerus" with
    | error fault => exact ⟨fault, rfl, attribute?_eq_error hnumerus⟩
    | ok numerus? => exact absurd ⟨⟨_, hid⟩, _, hnumerus⟩ h

/-- A tag that is asked for variants either cannot answer or says yes. -/
theorem attribute?_variants (h : ¬tag.IsInvariant) :
    (∃ fault, tag.attribute? "variants" = .error fault) ∨
      tag.attribute? "variants" = .ok (some "yes") := by
  cases hvalue : tag.attribute? "variants" with
  | error fault => exact .inl ⟨fault, rfl⟩
  | ok value? =>
    refine .inr (congrArg Except.ok ?_)
    by_contra hno
    exact h ⟨value?, hvalue, hno⟩

/-- **Inside the elements around it the spellings of a tag are told apart.** -/
theorem answer?_ne_of_toldApart (h : ToldApart tag path) :
    answer? (ofNodes [wrapIn path (.empty tag)] .endOfFile) ≠
      answer? (ofNodes [wrapIn path (.element tag [] .closed)] .endOfFile) := by
  cases h with
  | context hname =>
    rw [ofNodes_root, ofNodes_root]
    show answer? (.ok .empty) ≠ answer? (addNode .empty (.element tag [] .closed))
    rw [addNode, if_pos hname]
    exact answer?_ok_ne error_ne_ok
  | stray hname =>
    rw [ofNodes_root, ofNodes_root]
    show answer? (.ok .empty) ≠ answer? (addNode .empty (.element tag [] .closed))
    rw [addNode, if_neg (by rw [hname]; decide), if_pos hname]
    exact answer?_ok_ne error_ne_ok
  | message hname hlist =>
    obtain ⟨fault, helement, hfault⟩ := exists_ofElement_eq_error hlist
    rw [ofNodes_context, ofNodes_context, wrapIn, wrapIn, Context.addNode, Context.addNode,
      if_neg (by rw [hname]; decide), if_neg (by rw [hname]; decide), if_pos hname,
      if_neg (by rw [hname]; decide), if_neg (by rw [hname]; decide), if_pos hname, helement]
    rcases hfault with rfl | rfl <;> exact Option.some_ne_none _
  | @translation status hname hstatus hvariants =>
    have hshort : Target.ofEmptyTag sourced.message.isPlural tag = .ok ⟨status, .plain ""⟩ := by
      rw [Target.ofEmptyTag, hstatus]
      rfl
    rw [ofNodes_message, ofNodes_message, wrapIn, wrapIn, Message.addNode, Message.addNode,
      if_neg (by rw [hname]; decide), if_pos hname, if_neg (by rw [hname]; decide), if_pos hname,
      hshort, Target.ofElement, hstatus]
    refine answer?_ok_ne ?_
    obtain ⟨fault, hvalue⟩ | hvalue := attribute?_variants hvariants
    · rw [hvalue]
      exact error_ne_ok
    · rw [hvalue]
      intro heq
      have hmessages := congrArg (fun c => c.contexts.map (·.messages)) (Except.ok.inj heq)
      simp [Message.Draft.setTarget, Target.Parts.wording] at hmessages
  | form hname hvariants =>
    rw [ofNodes_target, ofNodes_target, wrapIn, wrapIn, Target.addPart, Target.addPart,
      if_pos hname, if_pos hname]
    refine answer?_ok_ne ?_
    obtain ⟨fault, hvalue⟩ | hvalue := attribute?_variants hvariants
    · rw [hvalue]
      exact error_ne_ok
    · rw [hvalue]
      exact error_ne_ok
  | byte hname hpath =>
    obtain ⟨k, hk, hread⟩ := carriesText hpath hname
    rw [hread _ (by simp), hread _ (by simp), Markup.addText, if_pos hname]
    refine Ne.symm (answer?_ok_ne ?_)
    cases Markup.readByte tag with
    | error fault => exact error_ne_ok
    | ok c =>
      intro heq
      have htext := congrArg String.toList (hk (Except.ok.inj heq))
      simp at htext

/-- Spellings are told apart inside the root only, and inside elements with proper names. -/
theorem ToldApart.path_eq (h : ToldApart tag path) :
    (∃ inner, path = "TS" :: inner) ∧ ∀ name ∈ path, Markup.IsTagName name := by
  have htexts : ∀ path ∈ textPaths, path.head? = some "TS" ∧
      ∀ name ∈ path, Markup.IsTagName name := by
    decide +kernel
  cases h with
  | context hname => exact ⟨⟨_, rfl⟩, by decide +kernel⟩
  | stray hname => exact ⟨⟨_, rfl⟩, by decide +kernel⟩
  | message hname hlist => exact ⟨⟨_, rfl⟩, by decide +kernel⟩
  | translation hname hstatus hvariants => exact ⟨⟨_, rfl⟩, by decide +kernel⟩
  | form hname hvariants => exact ⟨⟨_, rfl⟩, by decide +kernel⟩
  | byte hname hpath =>
    obtain ⟨hhead, hnames⟩ := htexts path hpath
    cases path with
    | nil => cases hhead
    | cons name inner => exact ⟨⟨inner, congrArg (· :: inner) (Option.some.inj hhead)⟩, hnames⟩

/-- **The two spellings of an element without content are read alike but for the places at which
they are told apart.**  Where they are not, every text with the one is read as with the other, and
so is every file.  Where they are, there is a file that they give different answers for. -/
theorem spellings_exact [Bytes.Registry] (htag : tag.IsWellFormed) (path : List String) :
    (¬ToldApart tag path → ∀ before after : List Char, openElements? before = some path →
      ofMarkup (before ++ tag.long ++ after) = ofMarkup (before ++ tag.short ++ after) ∧
      (IsOwnText (before ++ tag.short ++ after) →
        ofFileText (String.ofList (before ++ tag.long ++ after)) =
          ofFileText (String.ofList (before ++ tag.short ++ after)))) ∧
    (ToldApart tag path → ∃ before after : List Char, openElements? before = some path ∧
      IsOwnText (before ++ tag.short ++ after) ∧
      answer? (ofFileText (String.ofList (before ++ tag.long ++ after))) ≠
        answer? (ofFileText (String.ofList (before ++ tag.short ++ after)))) := by
  have hreadable := htag.isReadable
  refine ⟨fun htold before after hopen => ⟨ofMarkup_long hreadable hopen htold after,
    ofFileText_long hreadable hopen htold⟩, fun htold => ?_⟩
  obtain ⟨⟨inner, rfl⟩, hnames⟩ := htold.path_eq
  have hopen := openElements?_leadIn hnames
  have hown : ∀ s, IsOwnText (leadIn ("TS" :: inner) ++ s ++ leadOut ("TS" :: inner)) := fun s =>
    Markup.isOwnText_of_undeclared fun h =>
      absurd (List.cons_prefix_cons.1 (List.cons_prefix_cons.1 h).2).1 (by decide)
  have hfile : ∀ s n, Markup.ReadsAsNode s n →
      ofFileText (String.ofList (leadIn ("TS" :: inner) ++ s ++ leadOut ("TS" :: inner))) =
        ofNodes [wrapIn ("TS" :: inner) n] .endOfFile := by
    intro s n hs
    rw [ofFileText_of_isOwnText (hown s), if_neg, ofMarkup_wrapIn hnames hs]
    exact fun h => absurd (Option.some.inj h) (by decide)
  refine ⟨_, leadOut ("TS" :: inner), hopen, hown _, ?_⟩
  rw [hfile _ _ (Markup.readsAsNode_short hreadable),
    hfile _ _ (Markup.readsAsNode_long hreadable)]
  exact (answer?_ne_of_toldApart htold).symm

end

/-- The tag of a translation that nobody has worked on. -/
def pending : Tag :=
  ⟨"translation", " type='unfinished'".toList⟩

theorem isWellFormed_pending : pending.IsWellFormed := by
  refine ⟨by decide, ?_, fun c hc => ?_, fun c hc => ?_⟩
  · exact .char (by decide) <| .char (by decide) <| .char (by decide) <| .char (by decide) <|
      .char (by decide) <| .char (by decide) <|
      @Markup.Balanced.quoted '\'' "unfinished".toList [] (by decide) (by decide) .nil
  · rw [← Option.some.inj hc]
    rfl
  · rw [← Option.some.inj hc]
    decide

theorem not_toldApart_pending : ¬ToldApart pending ["TS", "context", "message"] := by
  intro h
  cases h with
  | translation hname hstatus hvariants =>
    exact hvariants ⟨none, by decide +kernel, fun h => by cases h⟩
  | byte hname hpath => exact absurd hname (by decide)

/-- A pending translation in two spellings, and a message that is told apart in some file. -/
theorem spellings_pending :
    pending.IsWellFormed ∧ (Tag.plain "message").IsWellFormed ∧
    ofFileText (String.ofList ("<TS><context><name>Q</name><message><source>a</source>".toList ++
        pending.long ++ "</message></context></TS>".toList)) =
      ofFileText (String.ofList ("<TS><context><name>Q</name><message><source>a</source>".toList ++
        pending.short ++ "</message></context></TS>".toList)) ∧
    ∃ before after : List Char, openElements? before = some ["TS"] ∧
      answer? (ofFileText (String.ofList (before ++ (Tag.plain "message").long ++ after))) ≠
        answer? (ofFileText (String.ofList (before ++ (Tag.plain "message").short ++ after))) := by
  have hmessage : (Tag.plain "message").IsWellFormed :=
    ⟨by decide, .nil, by simp [Tag.plain], by simp [Tag.plain]⟩
  refine ⟨isWellFormed_pending, hmessage, ?_, ?_⟩
  · obtain ⟨halike, -⟩ := spellings_exact isWellFormed_pending ["TS", "context", "message"]
    exact (halike not_toldApart_pending _ _ (by decide +kernel)).2
      (Markup.isOwnText_of_undeclared (by decide))
  · obtain ⟨-, hapart⟩ := spellings_exact hmessage ["TS"]
    obtain ⟨before, after, hopen, -, hne⟩ := hapart (.stray rfl)
    exact ⟨before, after, hopen, hne⟩

/-- A file with one message. -/
def messageFile (content : String) : String :=
  "<TS><context><name/><message><source/>" ++ content ++ "</message></context></TS>"

/-- The catalogue in such a file. -/
def messageWith (wording : Wording) : Catalogue :=
  { contexts := [⟨"", none, [{ source := "", target := ⟨.finished, wording⟩ }]⟩] }

/-- Five tags whose spellings have different meanings: a message and a context in the root, a
translation and a form with variants, and a byte. -/
theorem not_one_spelling :
    (ofFileText "<TS><message/></TS>" = .ok .empty ∧
      ofFileText "<TS><message></message></TS>" = .error (.invalid .messageOutsideContext)) ∧
    (ofFileText "<TS><context/></TS>" = .ok .empty ∧
      ofFileText "<TS><context></context></TS>" = .error (.invalid .contextWithoutName)) ∧
    (ofFileText (messageFile "<translation variants='yes'/>") = .ok (messageWith (.plain "")) ∧
      ofFileText (messageFile "<translation variants='yes'></translation>") =
        .ok (messageWith (.lengths []))) ∧
    (ofFileText (messageFile "<translation><numerusform variants='yes'/></translation>") =
        .ok (messageWith (.plural [""])) ∧
      ofFileText
          (messageFile "<translation><numerusform variants='yes'></numerusform></translation>") =
        .error (.invalid .variantsInsideForm)) ∧
    (ofFileText (messageFile "<translation><byte value='x41'/></translation>") =
        .ok (messageWith (.plain "A")) ∧
      ofFileText (messageFile "<translation><byte value='x41'></byte></translation>") =
        .ok (messageWith (.plain ""))) ∧
    ¬∀ (tag : Tag) (path : List String) (before after : List Char), tag.IsWellFormed →
      openElements? before = some path → IsOwnText (before ++ tag.short ++ after) →
        answer? (ofFileText (String.ofList (before ++ tag.long ++ after))) =
          answer? (ofFileText (String.ofList (before ++ tag.short ++ after))) := by
  refine ⟨by decide +kernel, by decide +kernel, by decide +kernel, by decide +kernel,
    by decide +kernel, fun hall => ?_⟩
  have hmessage := hall (Tag.plain "message") ["TS"] "<TS>".toList "</TS>".toList
    ⟨by decide, .nil, by simp [Tag.plain], by simp [Tag.plain]⟩ (by decide +kernel)
    (Markup.isOwnText_of_undeclared (by decide))
  exact absurd hmessage (by decide +kernel)

end Catalogue
end Linguist
