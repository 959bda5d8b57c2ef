import Linguist.Proofs.Catalogue.Padding
import Linguist.Proofs.Markup.OwnText

/-!
# Elements without content

An element without content is spelled with one tag, `<x/>`, or with two, `<x></x>`.  A reader meets
an empty tag in the first case and an element in the second, and each level of a catalogue file has
a list of names for the one and a list for the other.  Where the lists agree the spellings are read
alike, and `ToldApart` says where they do not:

* In the root, an empty tag is passed over whatever its name is: a context without name and a
  message outside of a context are defects in two tags only.
* In a context, the attributes of a message are looked at if it is an element.  A list that cannot
  be read comes before the missing source.
* In a message, whether a translation has variants is asked of an element only; and so it is of a
  form in a translation, which must not have any.
* Where text is read, a byte stands for a character if it is an empty tag.  An element of this name
  is passed over like any other.

Everywhere else the spellings are read alike, in whatever text they stand (`ofMarkup_long`,
`ofFileText_long`).

## Outside in

What a reader makes of two trees that differ in one tag is compared from the outside in.  A level
either is the one with the tag, where two nodes are compared, or it has both trees in one of its
elements and asks the next level (`Swapped.here_or_inside`).  So there is one lemma for each level,
and it takes what may be told apart from the levels around it.
-/

namespace Linguist

open Markup (Node Tag Ending Swapped SwappedIn IsOwnText visit readText visit_congr
  openElements? openElements?_mark swappedIn_nodesOfFile fault_notMem_of_track
  decodeFile_encode_of_isOwnText)

namespace Markup

section

variable {tag : Tag} {path : List String} {n m : Node} {ns ms : List Node}

/-- A step that takes in two spellings alike comes through two lists alike. -/
theorem SwappedIn.foldlM_eq {σ : Type} {step : σ → Node → Except Fault σ}
    (h : SwappedIn tag path ns ms)
    (hstep : ∀ n m, Swapped tag path n m → ∀ d, step d n = step d m) (d : σ) :
    ns.foldlM step d = ms.foldlM step d := by
  obtain ⟨before, n, m, after, hswapped, rfl, rfl⟩ := h
  rw [List.foldlM_append, List.foldlM_append]
  refine congrArg _ (funext fun d => ?_)
  rw [List.foldlM_cons, List.foldlM_cons, hstep n m hswapped]

theorem SwappedIn.visit_eq {σ : Type} {step : σ → Node → Except Fault σ}
    (h : SwappedIn tag path ns ms)
    (hstep : ∀ n m, Swapped tag path n m → ∀ d, step d n = step d m) (element : String) (d : σ)
    (ending : Ending) : visit element step d ns ending = visit element step d ms ending :=
  visit_congr (h.foldlM_eq hstep) d ending

/-- The tag is this node, or it is inside. -/
theorem Swapped.here_or_inside (h : Swapped tag path n m) :
    (path = [] ∧ n = .empty tag ∧ m = .element tag [] .closed) ∨
    ∃ outer ns ms ending inner, path = outer.name :: inner ∧ n = .element outer ns ending ∧
      m = .element outer ms ending ∧ SwappedIn tag inner ns ms := by
  cases h with
  | here => exact .inl ⟨rfl, rfl, rfl⟩
  | inside outer before after ending h =>
    exact .inr ⟨outer, _, _, ending, _, rfl, rfl, rfl, before, _, _, after, h, rfl, rfl⟩

/-! ## Text -/

/-- In an element of text, a byte is taken in as one tag only. -/
theorem Swapped.addText_eq (h : Swapped tag path n m) (hbyte : path = [] → tag.name ≠ "byte")
    (seen : List Char) : addText seen n = addText seen m := by
  obtain ⟨rfl, rfl, rfl⟩ | ⟨outer, ns, ms, ending, inner, rfl, rfl, rfl, -⟩ := h.here_or_inside
  · rw [addText, if_neg (hbyte rfl)]
    rfl
  · rfl

theorem SwappedIn.readText_eq (h : SwappedIn tag path ns ms)
    (hbyte : path = [] → tag.name ≠ "byte") (element : String) (ending : Ending) :
    readText element ns ending = readText element ms ending := by
  have hstep := fun n m (hswapped : Swapped tag path n m) => hswapped.addText_eq hbyte
  rw [readText, readText, h.visit_eq hstep]

end

/-- The attribute list of the tag can be read as far as some attribute. -/
def Tag.Answers (tag : Tag) (name : String) : Prop :=
  ∃ value?, tag.attribute? name = .ok value?

/-- The tag can be asked for variants, and does not promise any. -/
def Tag.IsInvariant (tag : Tag) : Prop :=
  ∃ value?, tag.attribute? "variants" = .ok value? ∧ value? ≠ some "yes"

end Markup

namespace Catalogue

/-- The elements whose text is read, by the names that lead to them. -/
def textPaths : List (List String) :=
  ["name", "comment"].map (["TS", "context", ·]) ++
    ("translation" :: Message.textElements).map (["TS", "context", "message", ·]) ++
    ["numerusform", "lengthvariant"].map (["TS", "context", "message", "translation", ·])

/-- The tags whose two spellings are told apart inside some elements. -/
inductive ToldApart (tag : Tag) : List String → Prop
  | context (hname : tag.name = "context") : ToldApart tag ["TS"]
  | stray (hname : tag.name = "message") : ToldApart tag ["TS"]
  | message (hname : tag.name = "message") (hlist : ¬(tag.Answers "id" ∧ tag.Answers "numerus")) :
      ToldApart tag ["TS", "context"]
  | translation {status : Status} (hname : tag.name = "translation")
      (hstatus : Target.statusOfTag tag = .ok status) (hvariants : ¬tag.IsInvariant) :
      ToldApart tag ["TS", "context", "message"]
  | form (hname : tag.name = "numerusform") (hvariants : ¬tag.IsInvariant) :
      ToldApart tag ["TS", "context", "message", "translation"]
  | byte {path : List String} (hname : tag.name = "byte") (hpath : path ∈ textPaths) :
      ToldApart tag path

end Catalogue

open Catalogue (ToldApart textPaths)

section

variable {tag : Tag} {path : List String} {n m : Node} {ns ms : List Node}

/-! ## Level by level -/

/-- In an element whose text is read there is no byte that would not be told apart. -/
theorem ne_byte_of_not_toldApart (front : List String) (hfront : front ∈ textPaths)
    (htold : ¬ToldApart tag (front ++ path)) : path = [] → tag.name ≠ "byte" := by
  rintro rfl hname
  rw [List.append_nil] at htold
  exact htold (.byte hname hfront)

namespace Target

theorem addPart_eq_of_swapped (h : Swapped tag path n m)
    (htold : ¬ToldApart tag ("TS" :: "context" :: "message" :: "translation" :: path))
    (p : Parts) : addPart p n = addPart p m := by
  obtain ⟨rfl, rfl, rfl⟩ | ⟨outer, ns, ms, ending, inner, rfl, rfl, rfl, hinner⟩ :=
    h.here_or_inside
  · rw [addPart, addPart]
    split
    · rename_i hname
      have hvariants : tag.IsInvariant := by
        by_contra hno
        exact htold (.form hname hno)
      obtain ⟨value?, hvalue, hno⟩ := hvariants
      rw [hvalue]
      show _ = if (value? == some "yes") = true then _ else _
      rw [if_neg (by simpa using hno)]
      rfl
    · split
      · rfl
      · have hbyte : tag.name ≠ "byte" := fun hname => htold (.byte hname (by decide))
        rw [Markup.addText, if_neg hbyte]
        rfl
  · rw [addPart, addPart]
    split
    · rename_i hname
      rw [hname] at htold
      rw [hinner.readText_eq (ne_byte_of_not_toldApart
        ["TS", "context", "message", "translation", "numerusform"] (by decide) htold)]
    · split
      · rename_i hname
        rw [hname] at htold
        rw [hinner.readText_eq (ne_byte_of_not_toldApart
          ["TS", "context", "message", "translation", "lengthvariant"] (by decide) htold)]
      · rfl

theorem ofElement_eq_of_swappedIn (h : SwappedIn tag path ns ms)
    (htold : ¬ToldApart tag ("TS" :: "context" :: "message" :: "translation" :: path))
    (isPlural : Bool) (outer : Tag) (ending : Ending) :
    ofElement isPlural outer ns ending = ofElement isPlural outer ms ending := by
  have hstep := fun n m (hswapped : Swapped tag path n m) => addPart_eq_of_swapped hswapped htold
  rw [ofElement, ofElement, h.visit_eq hstep]

/-- An empty tag is a target without content. -/
theorem ofElement_nil (isPlural : Bool)
    (h : ∀ status, statusOfTag tag = .ok status → tag.IsInvariant) :
    ofElement isPlural tag [] .closed = ofEmptyTag isPlural tag := by
  rw [ofElement, ofEmptyTag]
  cases hstatus : statusOfTag tag with
  | error fault => rfl
  | ok status =>
    obtain ⟨value?, hvalue, hno⟩ := h status hstatus
    have hfalse : (value? == some "yes") = false := by simpa using hno
    rw [hvalue]
    show Except.ok (⟨status, Parts.wording {} isPlural (value? == some "yes")⟩ : Target) = _
    rw [hfalse]
    cases isPlural <;> rfl

end Target

namespace Message

theorem addNode_eq_of_swapped (h : Swapped tag path n m)
    (htold : ¬ToldApart tag ("TS" :: "context" :: "message" :: path)) (d : Draft) :
    addNode d n = addNode d m := by
  obtain ⟨rfl, rfl, rfl⟩ | ⟨outer, ns, ms, ending, inner, rfl, rfl, rfl, hinner⟩ :=
    h.here_or_inside
  · rw [addNode, addNode]
    split
    · cases Place.ofTag tag <;> rfl
    · split
      · rename_i hname
        rw [Target.ofElement_nil _ fun status hstatus => ?_]
        by_contra hno
        exact htold (.translation hname hstatus hno)
      · split
        · rfl
        · rename_i htexts
          rw [setText_of_notMem (by simpa using htexts)]
          rfl
  · rw [addNode, addNode]
    split
    · rfl
    · split
      · rename_i hname
        rw [hname] at htold
        rw [Target.ofElement_eq_of_swappedIn hinner htold]
      · split
        · rename_i htexts
          have hpath : ["TS", "context", "message", outer.name] ∈ textPaths :=
            List.mem_append_left _ (List.mem_append_right _ (List.mem_map_of_mem
              (List.mem_cons_of_mem "translation" (by simpa using htexts))))
          rw [hinner.readText_eq (ne_byte_of_not_toldApart _ hpath htold)]
        · rfl

theorem ofElement_eq_of_swappedIn (h : SwappedIn tag path ns ms)
    (htold : ¬ToldApart tag ("TS" :: "context" :: "message" :: path)) (outer : Tag)
    (ending : Ending) : ofElement outer ns ending = ofElement outer ms ending := by
  have hstep := fun n m (hswapped : Swapped tag path n m) => addNode_eq_of_swapped hswapped htold
  simp only [ofElement, h.visit_eq hstep]

/-- A message without content has no source, if its tag can be read. -/
theorem ofElement_nil (hid : tag.Answers "id") (hnumerus : tag.Answers "numerus") :
    ofElement tag [] .closed = .error (.invalid .messageWithoutSource) := by
  obtain ⟨id?, hid⟩ := hid
  obtain ⟨numerus?, hnumerus⟩ := hnumerus
  rw [ofElement, hid, hnumerus]
  rfl

end Message

namespace Context

theorem addNode_eq_of_swapped (h : Swapped tag path n m)
    (htold : ¬ToldApart tag ("TS" :: "context" :: path)) (d : Draft) :
    addNode d n = addNode d m := by
  obtain ⟨rfl, rfl, rfl⟩ | ⟨outer, ns, ms, ending, inner, rfl, rfl, rfl, hinner⟩ :=
    h.here_or_inside
  · rw [addNode, addNode]
    split
    · rfl
    · split
      · rfl
      · split
        · rename_i hname
          have hlist : tag.Answers "id" ∧ tag.Answers "numerus" := by
            by_contra hno
            exact htold (.message hname hno)
          rw [Message.ofElement_nil hlist.1 hlist.2]
          rfl
        · rfl
  · rw [addNode, addNode]
    split
    · rename_i hname
      rw [hname] at htold
      rw [hinner.readText_eq (ne_byte_of_not_toldApart
        ["TS", "context", "name"] (by decide) htold)]
    · split
      · rename_i hname
        rw [hname] at htold
        rw [hinner.readText_eq (ne_byte_of_not_toldApart
          ["TS", "context", "comment"] (by decide) htold)]
      · split
        · rename_i hname
          rw [hname] at htold
          rw [Message.ofElement_eq_of_swappedIn hinner htold]
        · rfl

theorem ofElement_eq_of_swappedIn (h : SwappedIn tag path ns ms)
    (htold : ¬ToldApart tag ("TS" :: "context" :: path)) (ending : Ending) :
    ofElement ns ending = ofElement ms ending := by
  have hstep := fun n m (hswapped : Swapped tag path n m) => addNode_eq_of_swapped hswapped htold
  simp only [ofElement, h.visit_eq hstep]

end Context

namespace Catalogue

theorem addNode_eq_of_swapped (h : Swapped tag path n m) (htold : ¬ToldApart tag ("TS" :: path))
    (c : Catalogue) : addNode c n = addNode c m := by
  obtain ⟨rfl, rfl, rfl⟩ | ⟨outer, ns, ms, ending, inner, rfl, rfl, rfl, hinner⟩ :=
    h.here_or_inside
  · have hcontext : tag.name ≠ "context" := fun hname => htold (.context hname)
    have hmessage : tag.name ≠ "message" := fun hname => htold (.stray hname)
    rw [addNode, if_neg hcontext, if_neg hmessage]
    rfl
  · rw [addNode, addNode]
    split
    · rename_i hname
      rw [hname] at htold
      rw [Context.ofElement_eq_of_swappedIn hinner htold]
    · rfl

/-- The two spellings of a root without content are read alike, and of what is inside a root,
those that are not told apart. -/
theorem ofNodes_eq_of_swappedIn (h : SwappedIn tag path ns ms) (htold : ¬ToldApart tag path)
    (ending : Ending) : ofNodes ns ending = ofNodes ms ending := by
  obtain ⟨before, n, m, after, hswapped, rfl, rfl⟩ := h
  induction before with
  | nil =>
    obtain ⟨rfl, rfl, rfl⟩ | ⟨outer, ns, ms, inside, inner, rfl, rfl, rfl, hinner⟩ :=
      hswapped.here_or_inside
    · rw [List.nil_append, List.nil_append, ofNodes, ofNodes]
      refine congrArg _ (funext fun _ => ?_)
      cases ofTag tag <;> rfl
    · rw [List.nil_append, List.nil_append, ofNodes, ofNodes]
      by_cases hroot : outer.name = "TS"
      · rw [hroot] at htold
        have hstep := fun n m (hswapped : Swapped tag inner n m) =>
          addNode_eq_of_swapped hswapped htold
        simp only [hinner.visit_eq hstep]
      · rw [checkRoot, if_neg hroot]
        rfl
  | cons x before ih =>
    cases x with
    | empty root => rfl
    | element root children inside => rfl
    | text raw => exact ih
    | literal content => exact ih
    | aside raw => exact ih

/-- **A spelling that is not told apart** is not told apart in any text. -/
theorem ofMarkup_long {before : List Char} (htag : tag.IsReadable)
    (hopen : openElements? before = some path) (htold : ¬ToldApart tag path)
    (after : List Char) :
    ofMarkup (before ++ tag.long ++ after) = ofMarkup (before ++ tag.short ++ after) := by
  obtain ⟨hnodes, hending⟩ := swappedIn_nodesOfFile htag hopen after
  exact ((ofNodes_eq_of_swappedIn hnodes htold _).trans (congrArg _ hending)).symm

theorem ofFileText_of_isOwnText [Bytes.Registry] {cs : List Char} (h : IsOwnText cs) :
    ofFileText (String.ofList cs) =
      ofMarkup (if cs.head? = some '\ufeff' then cs.tail else cs) := by
  rw [ofFileText, ofFile, Bytes.ofText, String.toList_ofList, decodeFile_encode_of_isOwnText h]
  rfl

/-- It is not told apart in files either. -/
theorem ofFileText_long [Bytes.Registry] {before after : List Char} (htag : tag.IsReadable)
    (hopen : openElements? before = some path) (htold : ¬ToldApart tag path)
    (hown : IsOwnText (before ++ tag.short ++ after)) :
    ofFileText (String.ofList (before ++ tag.long ++ after)) =
      ofFileText (String.ofList (before ++ tag.short ++ after)) := by
  obtain ⟨names, hnames, -⟩ := Option.map_eq_some_iff.1 hopen
  rw [ofFileText_of_isOwnText hown,
    ofFileText_of_isOwnText (hown.long htag (fault_notMem_of_track hnames))]
  cases before with
  | nil => exact ofMarkup_long htag hopen htold after
  | cons c before =>
    by_cases hc : c = '\ufeff'
    · subst hc
      rw [openElements?_mark] at hopen
      exact ofMarkup_long htag hopen htold after
    · have hmark : ∀ s, (c :: before ++ s ++ after).head? ≠ some '\ufeff' :=
        fun s hs => hc (Option.some.inj hs)
      rw [if_neg (hmark _), if_neg (hmark _)]
      exact ofMarkup_long htag hopen htold after

end Catalogue

end

end Linguist
