import Linguist.Proofs.Markup.Declaration
import Linguist.Proofs.Markup.Position

/-!
# Files that are handed over as text

A text in memory is read through its bytes in UTF-8, and its declaration is obeyed even so: a text
that declares another set is read as the text that its bytes are in that set.  It is read as
itself if texts of its characters are the same in both (`IsOwnText`).  This is so if it declares
UTF-8 or nothing, if it begins with a byte order mark, and if it declares a set in which the lower
half stands for itself and is written in characters of the lower half.

What a text declares is in its first tag, or nowhere: with a tag behind it, a text declares what
it declares alone (`declaredLabel?_encode_append`).  So another tag at that place, made of the same
characters, leaves the text what it is.
-/

namespace Linguist
namespace Markup

open Bytes (Charset Registry)
open Bytes.Utf8 (encode)

/-- A text that declares an encoding in which the bytes of UTF-8 stand for the same characters,
as far as these are characters of the text. -/
def IsOwnText [Registry] (cs : List Char) : Prop :=
  cs.head? = some '\ufeff' ∨ ∃ encoding, declaredEncoding (encode cs) = .ok encoding ∧
    ∀ ds ⊆ cs, encoding.decode? (encode ds) = some ds

section

variable {cs : List Char} {bytes head : List UInt8}

theorem encode?_of_forall {charset : Charset}
    (h : ∀ c ∈ cs, charset.encodeChar? c = some (String.utf8EncodeChar c)) :
    charset.encode? cs = some (encode cs) := by
  induction cs with
  | nil => rfl
  | cons c cs ih =>
    obtain ⟨hc, hcs⟩ := List.forall_mem_cons.1 h
    rw [Charset.encode?, hc, ih hcs]
    rfl

/-- A text whose characters have the bytes of UTF-8 in the set that it declares is its own. -/
theorem isOwnText_of_encodeChar? [Registry] {charset : Charset}
    (hdeclared : declaredEncoding (encode cs) = .ok charset.encoding)
    (h : ∀ c ∈ cs, charset.encodeChar? c = some (String.utf8EncodeChar c)) : IsOwnText cs :=
  .inr ⟨charset.encoding, hdeclared, fun _ hds =>
    Charset.decode?_eq_some_iff.2 (encode?_of_forall fun c hc => h c (hds hc))⟩

/-- A text without declaration is its own. -/
theorem isOwnText_of_undeclared [Registry] (h : ¬"<?xml".toList <+: cs) : IsOwnText cs := by
  have hdeclared : declaredEncoding (encode cs) = .ok Charset.utf8.encoding := by
    rw [declaredEncoding, declaredLabel?_eq_none fun hbytes => h (isPrefix_of_encode hbytes)]
  exact isOwnText_of_encodeChar? hdeclared fun c _ => rfl

/-- **A text that is its own is read as itself,** without its mark. -/
theorem decodeFile_encode_of_isOwnText [Registry] (h : IsOwnText cs) :
    decodeFile (encode cs) = .ok (if cs.head? = some '\ufeff' then cs.tail else cs) := by
  split
  · rename_i hmark
    cases cs with
    | nil => cases hmark
    | cons c cs =>
      obtain rfl := Option.some.inj hmark
      exact (decodeFile_encode.1 cs).1
  · rename_i hmark
    obtain ⟨encoding, hdeclared, hown⟩ := h.resolve_left hmark
    rw [decodeFile, ofMark?_encode hmark]
    show (declaredEncoding (encode cs)).bind _ = _
    rw [hdeclared]
    exact decodeAs_of_decode? (hown cs (List.Subset.refl cs))

/-! ## What is declared, and where -/

theorem declarationBytes_append_of_eq_some (h : declarationBytes bytes = some head)
    (more : List UInt8) : declarationBytes (bytes ++ more) = some head := by
  induction bytes using declarationBytes.induct generalizing head with
  | case1 => cases h
  | case2 rest => exact h
  | case3 b rest hnot ih =>
    rw [declarationBytes] at h
    · obtain ⟨head, hrest, rfl⟩ := Option.map_eq_some_iff.1 h
      rw [List.cons_append, declarationBytes, ih hrest]
      · rfl
      · rintro tail rfl htail
        cases rest with
        | nil => cases hrest
        | cons b' rest => exact hnot rest rfl (congrArg (· :: rest) (List.cons.inj htail).1)
    · exact hnot

theorem exists_declarationBytes (front rest : List UInt8) :
    ∃ head, declarationBytes (front ++ 0x3F :: 0x3E :: rest) = some head := by
  induction front with
  | nil => exact ⟨_, rfl⟩
  | cons b front ih =>
    obtain ⟨head, hhead⟩ := ih
    rw [List.cons_append]
    unfold declarationBytes
    split
    · rename_i heq
      cases heq
    · exact ⟨_, rfl⟩
    · rename_i heq
      obtain ⟨rfl, rfl⟩ := List.cons.inj heq
      exact ⟨_, by rw [hhead, Option.map_some]⟩

/-- A text that begins like a declaration, and whose pieces do not break off, has the end of this
declaration. -/
theorem exists_of_declaration {before : List Char} (hfault : .fault ∉ events before)
    (h : "<?xml".toList <+: before) :
    ∃ content more, before = "<?".toList ++ content ++ "?>".toList ++ more := by
  obtain ⟨rest, rfl⟩ := h
  have hbracket : ∃ e more, readBracket? ('?' :: ("xml".toList ++ rest)) = some (e, more) := by
    cases hread : readBracket? ('?' :: ("xml".toList ++ rest)) with
    | some piece => exact ⟨piece.1, piece.2, rfl⟩
    | none =>
      refine absurd ?_ hfault
      show _ ∈ events ('<' :: '?' :: ("xml".toList ++ rest))
      rw [events]
      split
      · rename_i hsome
        cases hread.symm.trans hsome
      · exact List.mem_cons_self
  obtain ⟨e, more, hread⟩ := hbracket
  have hinstruction : readInstruction? ("xml".toList ++ rest) = some (e, more) := hread
  have hhead : ¬("xml".toList ++ rest).head? = some '>' :=
    fun h => absurd (Option.some.inj h) (by decide)
  rw [readInstruction?, if_neg hhead] at hinstruction
  obtain ⟨⟨content, more⟩, hsplit, -⟩ := Option.map_eq_some_iff.1 hinstruction
  have hparts := Sequence.eq_of_splitMark hsplit
  refine ⟨content, more, ?_⟩
  show '<' :: '?' :: ("xml".toList ++ rest) = _
  rw [hparts]
  simp

/-- **A text declares what it declares without the tag behind it,** and what is behind this. -/
theorem declaredLabel?_encode_append {tag : Tag} {before : List Char} (htag : tag.IsReadable)
    (hfault : .fault ∉ events before) (rest : List Char) :
    declaredLabel? (encode (before ++ ('<' :: tag.text ++ rest))) =
      declaredLabel? (encode before) := by
  by_cases h : "<?xml".toList <+: before
  · obtain ⟨content, more, rfl⟩ := exists_of_declaration hfault h
    have hbytes : encode ("<?".toList ++ content ++ "?>".toList ++ more) =
        encode ("<?".toList ++ content) ++ 0x3F :: 0x3E :: encode more := by
      rw [Bytes.Utf8.encode_append, Bytes.Utf8.encode_append, List.append_assoc]
      rfl
    obtain ⟨head, hhead⟩ := exists_declarationBytes (encode ("<?".toList ++ content)) (encode more)
    rw [← hbytes] at hhead
    rw [Bytes.Utf8.encode_append, declaredLabel?, declaredLabel?, hhead,
      declarationBytes_append_of_eq_some hhead]
  · have hmore : ¬"<?xml".toList <+: before ++ ('<' :: tag.text ++ rest) := by
      -- behind `before` there is a bracket, and behind the bracket no question mark
      obtain ⟨c, cs, htext, hc⟩ := htag.exists_text_eq_cons
      intro hprefix
      obtain hbegin | ⟨tail, htail⟩ :=
        List.prefix_or_prefix_of_prefix hprefix (List.prefix_append before _)
      · exact h hbegin
      rw [← htail, List.prefix_append_right_inj, htext] at hprefix
      cases before with
      | nil =>
        rw [show tail = '<' :: '?' :: "xml".toList from htail] at hprefix
        have hmark := (List.cons_prefix_cons.1 (List.cons_prefix_cons.1 hprefix).2).1
        exact hc.ne (by decide) hmark.symm
      | cons b before =>
        cases tail with
        | nil =>
          rw [List.append_nil] at htail
          exact h (htail ▸ List.prefix_rfl)
        | cons d tail =>
          obtain rfl := (List.cons_prefix_cons.1 hprefix).1
          have hothers : before ++ '<' :: tail = "?xml".toList := (List.cons.inj htail).2
          have hmem : '<' ∈ "?xml".toList := hothers ▸ List.mem_append_right _ List.mem_cons_self
          exact absurd hmem (by decide)
    rw [declaredLabel?_eq_none fun hbytes => hmore (isPrefix_of_encode hbytes),
      declaredLabel?_eq_none fun hbytes => h (isPrefix_of_encode hbytes)]

/-- **With another spelling of a tag,** a text that is its own stays so. -/
theorem IsOwnText.long [Registry] {tag : Tag} {before after : List Char} (htag : tag.IsReadable)
    (hfault : .fault ∉ eventsOfFile before) (h : IsOwnText (before ++ tag.short ++ after)) :
    IsOwnText (before ++ tag.long ++ after) := by
  have hhead : ∀ s : List Char, s.head? = some '<' →
      ((before ++ s ++ after).head? = some '\ufeff' ↔ before.head? = some '\ufeff') := by
    intro s hs
    cases before with
    | nil => simp [hs]
    | cons c before => rfl
  by_cases hmark : before.head? = some '\ufeff'
  · exact .inl ((hhead _ rfl).2 hmark)
  · have hevents : eventsOfFile before = events before := by
      unfold eventsOfFile
      split
      · exact absurd rfl hmark
      · rfl
    rw [hevents] at hfault
    obtain ⟨encoding, hdeclared, hown⟩ := h.resolve_left fun h => hmark ((hhead _ rfl).1 h)
    refine .inr ⟨encoding, ?_, fun ds hds => hown ds fun c hc => ?_⟩
    · rw [declaredEncoding, List.append_assoc, Tag.short, List.append_assoc,
        declaredLabel?_encode_append htag hfault] at hdeclared
      have hlong : before ++ tag.long ++ after = before ++ ('<' :: tag.text ++
          ('>' :: '<' :: '/' :: tag.name.toList ++ ['>'] ++ after)) := by
        simp [Tag.long, Tag.enclose]
      rw [declaredEncoding, hlong, declaredLabel?_encode_append htag hfault]
      exact hdeclared
    · have hlong := hds hc
      simp only [Tag.long, Tag.enclose, Tag.short, Tag.text, List.mem_append, List.mem_cons,
        List.not_mem_nil, or_false] at hlong ⊢
      tauto

end

end Markup
end Linguist
