import Mathlib.Data.List.TakeWhile
import Linguist.Proofs.Markup.Ignorable

/-!
# Where a tag stands in a file

A tag in the middle of a file has a text in front of it, and this text decides what the tag
means: a bracket in a comment begins no tag, and a tag stands inside the elements that are open.
Both are read off the text in front alone (`openElements?`), whatever is behind: pieces end
where they end, also with more text behind them (`eventsOfFile_append`), and the elements that
the pieces open and do not close are the stack with which the tree goes on growing
(`exists_grow_append`).

## Two spellings

An element without content is spelled with one tag or with two.  The spellings are different
nodes, and nothing else in the tree depends on them (`swappedIn_nodesOfFile`): there is one place,
at which one tree has the empty tag and the other has the element without children, and the
elements around this place are those that are open in front of it.  `Swapped` says so of two
nodes, from the outside in, and `SwappedIn` of two lists.  While the tree is growing, the place
is in one of the lists that wait in the stack, and `Growing` says in which.
-/

namespace Linguist

/-! ## Pieces with more text behind them -/

namespace Sequence

theorem splitMark_append_of_eq_some {α : Type} [BEq α] [LawfulBEq α] {mark as before rest : List α}
    (h : splitMark mark as = some (before, rest)) (more : List α) :
    splitMark mark (as ++ more) = some (before, rest ++ more) := by
  induction as generalizing before with
  | nil => cases h
  | cons a as ih =>
    rw [splitMark] at h
    split at h
    · rename_i hmark
      obtain ⟨rfl, rfl⟩ := Prod.mk.inj (Option.some.inj h)
      obtain ⟨tail, htail⟩ := List.isPrefixOf_iff_prefix.1 hmark
      have hmark' : mark.isPrefixOf (a :: (as ++ more)) = true := by
        rw [List.isPrefixOf_iff_prefix, ← List.cons_append, ← htail, List.append_assoc]
        exact List.prefix_append _ _
      rw [List.cons_append, splitMark, if_pos hmark', ← List.cons_append, ← htail,
        List.append_assoc, List.drop_left, List.drop_left]
    · rename_i hmark
      obtain ⟨⟨b, r⟩, hsplit, heq⟩ := Option.map_eq_some_iff.1 h
      obtain ⟨rfl, rfl⟩ := Prod.mk.inj heq
      -- a mark comes later, so the one behind would have to begin where there is room for it
      have hlength : mark.length ≤ (a :: as).length := by
        rw [eq_of_splitMark hsplit, List.length_cons, List.length_append, List.length_append]
        omega
      have hmark' : ¬ mark.isPrefixOf (a :: (as ++ more)) = true := fun hprefix =>
        hmark (List.isPrefixOf_iff_prefix.2 (List.prefix_of_prefix_length_le
          (List.isPrefixOf_iff_prefix.1 hprefix) (List.prefix_append (a :: as) more) hlength))
      rw [List.cons_append, splitMark, if_neg hmark', ih hsplit]
      rfl

end Sequence

namespace Markup

section

variable {cs part rest : List Char} {e : Event}

theorem splitTag_append_of_eq_some {quote? : Option Char}
    (h : splitTag quote? cs = some (part, rest)) (more : List Char) :
    splitTag quote? (cs ++ more) = some (part, rest ++ more) := by
  induction cs generalizing quote? part with
  | nil => simp [splitTag] at h
  | cons c cs ih =>
    cases quote? with
    | some q =>
      obtain ⟨⟨p, r⟩, hsplit, heq⟩ := Option.map_eq_some_iff.1 h
      obtain ⟨rfl, rfl⟩ := Prod.mk.inj heq
      rw [List.cons_append, splitTag, ih hsplit]
      rfl
    | none =>
      rw [splitTag] at h
      rw [List.cons_append, splitTag]
      split at h
      · rename_i hc
        obtain ⟨rfl, rfl⟩ := Prod.mk.inj (Option.some.inj h)
        rw [if_pos hc]
      · rename_i hc
        obtain ⟨⟨p, r⟩, hsplit, heq⟩ := Option.map_eq_some_iff.1 h
        obtain ⟨rfl, rfl⟩ := Prod.mk.inj heq
        rw [if_neg hc, ih hsplit]
        rfl

theorem splitBalanced_append_of_eq_some {depth : Nat}
    (h : splitBalanced depth cs = some (part, rest)) (more : List Char) :
    splitBalanced depth (cs ++ more) = some (part, rest ++ more) := by
  induction cs generalizing depth part with
  | nil => simp [splitBalanced] at h
  | cons c cs ih =>
    rw [splitBalanced.eq_def] at h
    rw [List.cons_append, splitBalanced.eq_def]
    dsimp only at h ⊢
    split at h
    · rename_i hc
      rw [if_pos hc]
      cases depth with
      | zero =>
        obtain ⟨rfl, rfl⟩ := Prod.mk.inj (Option.some.inj h)
        rfl
      | succ depth =>
        obtain ⟨⟨p, r⟩, hsplit, heq⟩ := Option.map_eq_some_iff.1 h
        obtain ⟨rfl, rfl⟩ := Prod.mk.inj heq
        dsimp only
        rw [ih hsplit]
        rfl
    · rename_i hc
      obtain ⟨⟨p, r⟩, hsplit, heq⟩ := Option.map_eq_some_iff.1 h
      obtain ⟨rfl, rfl⟩ := Prod.mk.inj heq
      rw [if_neg hc, ih hsplit]
      rfl

theorem exists_of_splitBalanced_cons {depth : Nat} {c : Char}
    (h : splitBalanced depth cs = some (c :: part, rest)) : ∃ tail, cs = c :: tail := by
  cases cs with
  | nil => simp [splitBalanced] at h
  | cons d cs =>
    rw [splitBalanced.eq_def] at h
    dsimp only at h
    refine ⟨cs, congrArg (· :: cs) ?_⟩
    split at h
    · cases depth with
      | zero => cases h
      | succ depth =>
        obtain ⟨piece, hpiece, heq⟩ := Option.map_eq_some_iff.1 h
        exact (List.cons.inj (Prod.mk.inj heq).1).1
    · obtain ⟨piece, hpiece, heq⟩ := Option.map_eq_some_iff.1 h
      exact (List.cons.inj (Prod.mk.inj heq).1).1

theorem map_splitMark_append_of_eq_some {mark : List Char} (f : List Char → Event)
    (h : (Sequence.splitMark mark cs).map (fun (content, rest) => (f content, rest)) =
      some (e, rest)) (more : List Char) :
    (Sequence.splitMark mark (cs ++ more)).map (fun (content, rest) => (f content, rest)) =
      some (e, rest ++ more) := by
  obtain ⟨⟨content, r⟩, hsplit, heq⟩ := Option.map_eq_some_iff.1 h
  obtain ⟨rfl, rfl⟩ := Prod.mk.inj heq
  rw [Sequence.splitMark_append_of_eq_some hsplit]
  rfl

/-- What declares a name begins with a letter. -/
theorem exists_of_declaresName (h : declaresName cs = true) :
    ∃ c rest, cs = c :: rest ∧ c ≠ '-' ∧ c ≠ '[' := by
  rw [declaresName, Bool.and_eq_true, beq_iff_eq] at h
  cases cs with
  | nil => cases h.1
  | cons c rest =>
    refine ⟨c, rest, rfl, ?_, ?_⟩
    all_goals
      rintro rfl
      exact absurd (List.cons.inj h.1).1 (by decide)

theorem readDeclaration?_append_of_eq_some (h : readDeclaration? cs = some (e, rest))
    (more : List Char) : readDeclaration? (cs ++ more) = some (e, rest ++ more) := by
  unfold readDeclaration? at h
  split at h
  · exact map_splitMark_append_of_eq_some
      (fun content => .aside ("<!--".toList ++ content ++ "-->".toList)) h more
  · exact map_splitMark_append_of_eq_some .literal h more
  · split at h
    · rename_i content r hsplit
      split at h
      · rename_i hname
        obtain ⟨rfl, rfl⟩ := Prod.mk.inj (Option.some.inj h)
        obtain ⟨c, part, rfl, hdash, hbracket⟩ := exists_of_declaresName hname
        obtain ⟨tail, rfl⟩ := exists_of_splitBalanced_cons hsplit
        have hmore := splitBalanced_append_of_eq_some hsplit more
        -- the first character is a letter, so neither a comment nor literal text begins here
        unfold readDeclaration?
        split
        · rename_i hcs
          exact absurd (List.cons.inj hcs).1 hdash
        · rename_i hcs
          exact absurd (List.cons.inj hcs).1 hbracket
        · rw [hmore]
          dsimp only
          rw [if_pos hname]
      · cases h
    · cases h

theorem readInstruction?_append_of_eq_some (h : readInstruction? cs = some (e, rest))
    (more : List Char) : readInstruction? (cs ++ more) = some (e, rest ++ more) := by
  cases cs with
  | nil => cases h
  | cons c cs =>
    rw [readInstruction?] at h
    split at h
    · cases h
    · rename_i hhead
      rw [readInstruction?, if_neg (show (c :: cs ++ more).head? ≠ some '>' from hhead)]
      exact map_splitMark_append_of_eq_some
        (fun content => .aside ("<?".toList ++ content ++ "?>".toList)) h more

/-- **A piece ends where it ends,** also with more text behind it. -/
theorem readBracket?_append_of_eq_some (h : readBracket? cs = some (e, rest))
    (more : List Char) : readBracket? (cs ++ more) = some (e, rest ++ more) := by
  have hmap : ∀ (f : List Char → Event) (cs : List Char),
      (splitTag none cs).map (fun (part, rest) => (f part, rest)) = some (e, rest) →
      (splitTag none (cs ++ more)).map (fun (part, rest) => (f part, rest)) =
        some (e, rest ++ more) := by
    intro f cs h
    obtain ⟨⟨part, r⟩, hsplit, heq⟩ := Option.map_eq_some_iff.1 h
    obtain ⟨rfl, rfl⟩ := Prod.mk.inj heq
    rw [splitTag_append_of_eq_some hsplit]
    rfl
  cases cs with
  | nil => simp [readBracket?, splitTag] at h
  | cons c cs =>
    rw [List.cons_append]
    unfold readBracket? at h ⊢
    split at h
    · rename_i heq
      obtain ⟨rfl, rfl⟩ := List.cons.inj heq
      exact readDeclaration?_append_of_eq_some h more
    · rename_i heq
      obtain ⟨rfl, rfl⟩ := List.cons.inj heq
      exact readInstruction?_append_of_eq_some h more
    · rename_i heq
      obtain ⟨rfl, rfl⟩ := List.cons.inj heq
      exact hmap (fun name => .finish (finishName name)) _ h
    · rename_i hdeclaration hinstruction hfinish
      split
      · rename_i heq
        exact absurd (congrArg (· :: cs) (List.cons.inj heq).1) (hdeclaration cs)
      · rename_i heq
        exact absurd (congrArg (· :: cs) (List.cons.inj heq).1) (hinstruction cs)
      · rename_i heq
        exact absurd (congrArg (· :: cs) (List.cons.inj heq).1) (hfinish cs)
      · exact hmap tagEvent _ h

end

/-- The pieces of a text in front of a bracket, none of which breaks off, are the first ones of
a longer text. -/
theorem events_append {before rest : List Char} (hbefore : .fault ∉ events before)
    (hrest : Opens rest) : events (before ++ rest) = events before ++ events rest := by
  induction before using events.induct with
  | case1 =>
    rw [show events [] = [] by rw [events]]
    rfl
  | case2 cs e more h hlt ih =>
    rw [events_bracket h, List.mem_cons, not_or] at hbefore
    rw [List.cons_append, events_bracket (readBracket?_append_of_eq_some h rest),
      events_bracket h, ih hbefore.2]
    rfl
  | case3 cs h =>
    rw [events] at hbefore
    split at hbefore
    · rename_i hsome
      cases h.symm.trans hsome
    · exact absurd List.mem_cons_self hbefore
  | case4 c cs hc hlt ih =>
    have hraw : '<' ∉ c :: cs.takeWhile (· != '<') := by
      rw [List.mem_cons, not_or]
      refine ⟨fun h => hc h.symm, fun h => ?_⟩
      exact absurd (List.mem_takeWhile_imp h) (by decide)
    have hopens : Opens (cs.dropWhile (· != '<')) := by
      intro d hd
      have hstop := List.head?_dropWhile_not (· != '<') cs
      rw [Option.mem_def.1 hd] at hstop
      simpa using hstop
    have hparts : c :: cs = (c :: cs.takeWhile (· != '<')) ++ cs.dropWhile (· != '<') := by
      rw [List.cons_append, List.takeWhile_append_dropWhile]
    rw [hparts] at hbefore ⊢
    rw [events_text (List.cons_ne_nil _ _) hraw hopens, List.mem_cons, not_or] at hbefore
    rw [List.append_assoc, events_text (List.cons_ne_nil _ _) hraw (opens_append hopens hrest),
      events_text (List.cons_ne_nil _ _) hraw hopens, ih hbefore.2, List.cons_append]

/-- So it is for files, which may begin with a byte order mark. -/
theorem eventsOfFile_append {before rest : List Char} (hbefore : .fault ∉ eventsOfFile before)
    (hrest : rest.head? = some '<') :
    eventsOfFile (before ++ rest) = eventsOfFile before ++ events rest := by
  have hopens := opens_of_head? hrest
  cases before with
  | nil =>
    cases rest with
    | nil => cases hrest
    | cons c rest =>
      obtain rfl := Option.some.inj hrest
      show events ('<' :: rest) = events [] ++ events ('<' :: rest)
      rw [show events [] = [] by rw [events], List.nil_append]
  | cons c before =>
    unfold eventsOfFile at hbefore ⊢
    split at hbefore
    · rename_i heq
      obtain ⟨rfl, rfl⟩ := List.cons.inj heq
      exact events_append hbefore hopens
    · rename_i hmark
      rw [List.cons_append]
      split
      · rename_i heq
        exact absurd (congrArg (· :: before) (List.cons.inj heq).1) (hmark before)
      · exact events_append hbefore hopens

/-! ## Open elements -/

/-- The names of the open elements, innermost first, behind one more piece.  There are none behind
a fault and behind an end tag that does not belong to the innermost one. -/
def Event.track : List String → Event → Option (List String)
  | names, .start tag => some (tag.name :: names)
  | [], .finish _ => none
  | name :: names, .finish name' => if name = name' then some names else none
  | _, .fault => none
  | names, _ => some names

/-- The names of the elements that are open behind a text, outermost first, if the text is
readable and its end tags belong to its elements. -/
def openElements? (cs : List Char) : Option (List String) :=
  ((eventsOfFile cs).foldlM Event.track []).map List.reverse

section

variable {e : Event} {es : List Event} {names names' : List String} {stack : List Frame}

theorem fault_notMem_of_track (h : es.foldlM Event.track names = some names') : .fault ∉ es := by
  induction es generalizing names with
  | nil => exact List.not_mem_nil
  | cons e es ih =>
    rw [List.foldlM_cons] at h
    obtain ⟨next, hnext, hrest⟩ := Option.bind_eq_some_iff.1 h
    refine List.not_mem_cons_of_ne_of_not_mem ?_ (ih hrest)
    rintro rfl
    cases names <;> cases hnext

/-- A start tag opens an element in whatever is open. -/
theorem grow_start (stack : List Frame) (seen : List Node) (tag : Tag) (rest : List Event) :
    grow stack seen (.start tag :: rest) = grow (⟨tag, seen⟩ :: stack) [] rest := by
  cases stack <;> rfl

theorem grow_fault (stack : List Frame) (seen : List Node) (rest : List Event) :
    grow stack seen (.fault :: rest) = wrapUp .fault stack seen := by
  cases stack <;> rfl

/-- A piece that is a whole node is the next node. -/
theorem grow_cons_of_pieces {n : Node} (hclosed : n.IsClosed) (hpieces : n.pieces = [e])
    (stack : List Frame) (seen : List Node) (rest : List Event) :
    grow stack seen (e :: rest) = grow stack (n :: seen) rest := by
  rw [← grow_pieces n hclosed, hpieces]
  rfl

/-- Text in front changes nothing. -/
theorem foldlM_track_events_cons {c : Char} (hc : c ≠ '<') (cs : List Char) :
    (events (c :: cs)).foldlM Event.track names = (events cs).foldlM Event.track names := by
  have htext : ∀ (raw : List Char) (es : List Event),
      (Event.text raw :: es).foldlM Event.track names = es.foldlM Event.track names :=
    fun raw es => by cases names <;> rfl
  rw [events, htext]
  · cases cs with
    | nil => rfl
    | cons d cs =>
      by_cases hd : d = '<'
      · rw [hd]
        rfl
      · rw [List.dropWhile_cons_of_pos (by simpa using hd), events, htext]
        exact hd
  · exact hc

theorem openElements?_mark (cs : List Char) :
    openElements? ('\ufeff' :: cs) = openElements? cs := by
  rw [openElements?, openElements?]
  refine congrArg _ ?_
  show (events cs).foldlM Event.track [] = (eventsOfFile cs).foldlM Event.track []
  unfold eventsOfFile
  split
  · exact foldlM_track_events_cons (by decide) _
  · rfl

theorem exists_grow_cons (h : Event.track (stack.map (·.tag.name)) e = some names)
    (seen : List Node) :
    ∃ stack' seen', stack'.map (·.tag.name) = names ∧
      ∀ rest, grow stack seen (e :: rest) = grow stack' seen' rest := by
  have hnode : ∀ n : Node, n.IsClosed → n.pieces = [e] →
      Event.track (stack.map (·.tag.name)) e = some (stack.map (·.tag.name)) →
      ∃ stack' seen', stack'.map (·.tag.name) = names ∧
        ∀ rest, grow stack seen (e :: rest) = grow stack' seen' rest := by
    intro n hclosed hpieces hsame
    exact ⟨stack, n :: seen, Option.some.inj (hsame.symm.trans h),
      grow_cons_of_pieces hclosed hpieces stack seen⟩
  cases e with
  | text raw => exact hnode _ (Node.isClosed_text raw) rfl (by cases stack <;> rfl)
  | literal content => exact hnode _ (Node.isClosed_literal content) rfl (by cases stack <;> rfl)
  | aside raw => exact hnode _ (Node.isClosed_aside raw) rfl (by cases stack <;> rfl)
  | empty tag => exact hnode _ (Node.isClosed_empty tag) rfl (by cases stack <;> rfl)
  | start tag =>
    refine ⟨⟨tag, seen⟩ :: stack, [], ?_, grow_start stack seen tag⟩
    cases stack <;> exact Option.some.inj h
  | finish name =>
    cases stack with
    | nil => cases h
    | cons f outer =>
      rw [List.map_cons, Event.track] at h
      split at h
      · rename_i hname
        refine ⟨outer, .element f.tag seen.reverse .closed :: f.before, Option.some.inj h,
          fun rest => ?_⟩
        rw [grow, if_pos hname]
      · cases h
  | fault => cases stack <;> cases h

/-- **The tree goes on growing** with the elements that the pieces leave open. -/
theorem exists_grow_append (h : es.foldlM Event.track (stack.map (·.tag.name)) = some names)
    (seen : List Node) :
    ∃ stack' seen', stack'.map (·.tag.name) = names ∧
      ∀ rest, grow stack seen (es ++ rest) = grow stack' seen' rest := by
  induction es generalizing stack seen with
  | nil => exact ⟨stack, seen, Option.some.inj h, fun _ => rfl⟩
  | cons e es ih =>
    rw [List.foldlM_cons] at h
    obtain ⟨next, hnext, hrest⟩ := Option.bind_eq_some_iff.1 h
    obtain ⟨stack₁, seen₁, rfl, hstep⟩ := exists_grow_cons hnext seen
    obtain ⟨stack₂, seen₂, hnames, hrun⟩ := ih hrest seen₁
    exact ⟨stack₂, seen₂, hnames, fun rest => (hstep _).trans (hrun rest)⟩

end

/-! ## Trees with another spelling at one place -/

/-- The tag of an element without content. -/
def Tag.short (tag : Tag) : List Char :=
  '<' :: tag.text ++ ['/', '>']

/-- The two tags of an element without content. -/
def Tag.long (tag : Tag) : List Char :=
  tag.enclose [] []

theorem readsAsNode_short {tag : Tag} (htag : tag.IsReadable) :
    ReadsAsNode tag.short (.empty tag) :=
  readsAsNode_empty htag

theorem readsAsNode_long {tag : Tag} (htag : tag.IsReadable) :
    ReadsAsNode tag.long (.element tag [] .closed) :=
  readsAsNode_enclose htag readsAs_nil (List.forall_mem_nil _)

/-- Nodes that are the same but for the spelling of one tag.  The names are those of the elements
around this tag, outermost first. -/
inductive Swapped (tag : Tag) : List String → Node → Node → Prop
  | here : Swapped tag [] (.empty tag) (.element tag [] .closed)
  | inside {path : List String} {n m : Node} (outer : Tag) (before after : List Node)
      (ending : Ending) (h : Swapped tag path n m) :
      Swapped tag (outer.name :: path) (.element outer (before ++ n :: after) ending)
        (.element outer (before ++ m :: after) ending)

/-- Lists of nodes that are the same but for the spelling of one tag. -/
def SwappedIn (tag : Tag) (path : List String) (ns ms : List Node) : Prop :=
  ∃ before n m after, Swapped tag path n m ∧ ns = before ++ n :: after ∧ ms = before ++ m :: after

/-- Trees that grow with the same pieces to come, and are the same but for the spelling of one
tag, which they have already. -/
inductive Growing (tag : Tag) :
    List String → List Frame → List Node → List Frame → List Node → Prop
  | seen {path : List String} {ns ms : List Node} (stack : List Frame)
      (h : SwappedIn tag path ns ms) :
      Growing tag ((stack.map (·.tag.name)).reverse ++ path) stack ns stack ms
  | outer {path : List String} {stack stack' : List Frame} {ns ms : List Node} (f : Tag)
      (seen : List Node) (h : Growing tag path stack ns stack' ms) :
      Growing tag path (⟨f, ns⟩ :: stack) seen (⟨f, ms⟩ :: stack') seen

section

variable {tag : Tag} {path : List String} {ns ms : List Node} {stack stack' : List Frame}
  {f f' : Frame}

theorem SwappedIn.cons (h : SwappedIn tag path ns ms) (x : Node) :
    SwappedIn tag path (x :: ns) (x :: ms) := by
  obtain ⟨before, n, m, after, hswapped, rfl, rfl⟩ := h
  exact ⟨x :: before, n, m, after, hswapped, rfl, rfl⟩

theorem SwappedIn.reverse (h : SwappedIn tag path ns ms) :
    SwappedIn tag path ns.reverse ms.reverse := by
  obtain ⟨before, n, m, after, hswapped, rfl, rfl⟩ := h
  exact ⟨after.reverse, n, m, before.reverse, hswapped, by simp, by simp⟩

theorem SwappedIn.element (h : SwappedIn tag path ns ms) (outer : Tag) (ending : Ending) :
    Swapped tag (outer.name :: path) (.element outer ns ending) (.element outer ms ending) := by
  obtain ⟨before, n, m, after, hswapped, rfl, rfl⟩ := h
  exact .inside outer before after ending hswapped

theorem Growing.push (h : Growing tag path stack ns stack' ms) (x : Node) :
    Growing tag path stack (x :: ns) stack' (x :: ms) := by
  cases h with
  | seen _ h => exact .seen stack (h.cons x)
  | outer f _ h => exact .outer f (x :: ns) h

/-- The innermost elements have one tag, and end alike. -/
theorem Growing.close (h : Growing tag path (f :: stack) ns (f' :: stack') ms) :
    f'.tag = f.tag ∧ ∀ ending : Ending,
      Growing tag path stack (.element f.tag ns.reverse ending :: f.before)
        stack' (.element f'.tag ms.reverse ending :: f'.before) := by
  cases h with
  | seen _ h =>
    refine ⟨rfl, fun ending => ?_⟩
    rw [List.map_cons, List.reverse_cons, List.append_assoc, List.singleton_append]
    exact .seen stack ⟨[], _, _, f.before, h.reverse.element f.tag ending, rfl, rfl⟩
  | outer g _ h => exact ⟨rfl, fun ending => h.push _⟩

theorem Growing.wrapUp (h : Growing tag path stack ns stack' ms) (ending : Ending) :
    SwappedIn tag path (Markup.wrapUp ending stack ns).1 (Markup.wrapUp ending stack' ms).1 ∧
      (Markup.wrapUp ending stack ns).2 = (Markup.wrapUp ending stack' ms).2 := by
  induction stack generalizing ns stack' ms with
  | nil =>
    cases h with
    | seen _ h => exact ⟨h.reverse, rfl⟩
  | cons f stack ih =>
    cases stack' with
    | nil => cases h
    | cons f' stack' =>
      rw [Markup.wrapUp, Markup.wrapUp]
      exact ih (h.close.2 ending)

/-- **Trees that differ in one tag differ in nothing else** when they are grown. -/
theorem Growing.grow (h : Growing tag path stack ns stack' ms) (es : List Event) :
    SwappedIn tag path (Markup.grow stack ns es).1 (Markup.grow stack' ms es).1 ∧
      (Markup.grow stack ns es).2 = (Markup.grow stack' ms es).2 := by
  induction es generalizing stack ns stack' ms with
  | nil =>
    have hend : ∀ (stack : List Frame) (seen : List Node),
        Markup.grow stack seen [] = Markup.wrapUp .endOfFile stack seen := fun stack seen => by
      cases stack <;> rfl
    rw [hend, hend]
    exact h.wrapUp .endOfFile
  | cons e es ih =>
    have hnode : ∀ n : Node, n.IsClosed → n.pieces = [e] →
        SwappedIn tag path (Markup.grow stack ns (e :: es)).1 (Markup.grow stack' ms (e :: es)).1 ∧
          (Markup.grow stack ns (e :: es)).2 = (Markup.grow stack' ms (e :: es)).2 := by
      intro n hclosed hpieces
      rw [grow_cons_of_pieces hclosed hpieces, grow_cons_of_pieces hclosed hpieces]
      exact ih (h.push n)
    cases e with
    | text raw => exact hnode _ (Node.isClosed_text raw) rfl
    | literal content => exact hnode _ (Node.isClosed_literal content) rfl
    | aside raw => exact hnode _ (Node.isClosed_aside raw) rfl
    | empty tag => exact hnode _ (Node.isClosed_empty tag) rfl
    | start tag =>
      rw [grow_start, grow_start]
      exact ih (.outer tag [] h)
    | finish name =>
      cases stack with
      | nil =>
        cases stack' with
        | nil => exact h.wrapUp .fault
        | cons f' stack' => cases h
      | cons f stack =>
        cases stack' with
        | nil => cases h
        | cons f' stack' =>
          obtain ⟨htag, hclose⟩ := h.close
          rw [Markup.grow, Markup.grow, htag]
          split
          · rw [← htag]
            exact ih (htag ▸ hclose .closed)
          · exact h.wrapUp .fault
    | fault =>
      rw [grow_fault, grow_fault]
      exact h.wrapUp .fault

/-- **The spelling of a tag changes one place of the tree,** inside the elements that are open
in front of it. -/
theorem swappedIn_nodesOfFile {before : List Char} (htag : tag.IsReadable)
    (hopen : openElements? before = some path) (after : List Char) :
    SwappedIn tag path (nodesOfFile (before ++ tag.short ++ after)).1
        (nodesOfFile (before ++ tag.long ++ after)).1 ∧
      (nodesOfFile (before ++ tag.short ++ after)).2 =
        (nodesOfFile (before ++ tag.long ++ after)).2 := by
  obtain ⟨names, hnames, rfl⟩ := Option.map_eq_some_iff.1 hopen
  obtain ⟨stack, seen, rfl, hgrow⟩ := @exists_grow_append _ _ [] hnames []
  have hnode : ∀ {s : List Char} {n : Node}, ReadsAsNode s n →
      nodesOfFile (before ++ s ++ after) = grow stack (n :: seen) (events after) := by
    intro s n hs
    rw [nodesOfFile, List.append_assoc, eventsOfFile_append (fault_notMem_of_track hnames)
      (by rw [List.head?_append, hs.head, Option.some_or]), hs.pieces, hgrow,
      grow_pieces n hs.closed]
  have hswapped : SwappedIn tag [] (.empty tag :: seen) (.element tag [] .closed :: seen) :=
    ⟨[], _, _, seen, .here, rfl, rfl⟩
  have hgrowing := (Growing.seen stack hswapped).grow (events after)
  rw [List.append_nil] at hgrowing
  rw [hnode (readsAsNode_short htag), hnode (readsAsNode_long htag)]
  exact hgrowing

end

end Markup
end Linguist
