import Linguist.Markup.Event
import Linguist.Proofs.Markup.Reference

/-!
# Reading back tags

A tag is written as its name and one text for each attribute, and read in two stages.
The first finds the closing bracket without looking at attributes; it has to be led
past every quoted value.  The second reads the list of attributes, long after.

* `Passes`: a text that the search for the closing bracket goes through and leaves as
  it entered, outside quotes.  Words and quoted values have this property, and it is
  closed under concatenation.
* `Tag.ofOptions`: the tags that are written, a name and attributes some of which may
  be absent.  `Tag.attribute?_ofOptions` says that looking one up gives what was put
  there, with references resolved.
* `Tag.IsReadable`: the tags whose text is read as that tag.  The tags that are written
  are among them, and any tag that a file may have otherwise.
-/

namespace Linguist
namespace Markup

/-! ## Words -/

/-- A non-empty text of letters, as all names of elements and attributes are. -/
def IsWord (s : String) : Prop :=
  s.toList ≠ [] ∧ ∀ c ∈ s.toList, c.isAlpha = true

-- the characters of the text are tried, not all characters
instance (s : String) : Decidable (IsWord s) :=
  have : Decidable (∀ c ∈ s.toList, c.isAlpha = true) :=
    List.decidableBAll (fun c => c.isAlpha = true) s.toList
  inferInstanceAs (Decidable (_ ∧ _))

theorem ne_of_isAlpha {c d : Char} (hc : c.isAlpha = true) (hd : d.isAlpha = false) : c ≠ d := by
  rintro rfl
  exact absurd hc (by rw [hd]; decide)

theorem isMarkupBlank_of_isAlpha {c : Char} (hc : c.isAlpha = true) :
    Text.isMarkupBlank c = false := by
  rw [Text.isMarkupBlank]
  simp [ne_of_isAlpha hc (d := ' ') rfl, ne_of_isAlpha hc (d := '\t') rfl,
    ne_of_isAlpha hc (d := '\n') rfl, ne_of_isAlpha hc (d := '\r') rfl]

theorem isNameChar_of_isAlpha {c : Char} (hc : c.isAlpha = true) : isNameChar c = true := by
  rw [isNameChar, isMarkupBlank_of_isAlpha hc]
  simp [ne_of_isAlpha hc (d := '=') rfl]

/-- The characters that may stand in the name of a tag: they end neither the name nor the
tag, and no tag that begins with one is read as anything but a tag. -/
def InName (c : Char) : Prop :=
  Text.isMarkupBlank c = false ∧ c ∉ "<>/!?=\"'".toList

instance : DecidablePred InName := fun c =>
  inferInstanceAs (Decidable (Text.isMarkupBlank c = false ∧ c ∉ "<>/!?=\"'".toList))

/-- The names of tags. -/
def IsTagName (s : String) : Prop :=
  s.toList ≠ [] ∧ ∀ c ∈ s.toList, InName c

instance (s : String) : Decidable (IsTagName s) :=
  have : Decidable (∀ c ∈ s.toList, InName c) := List.decidableBAll InName s.toList
  inferInstanceAs (Decidable (_ ∧ _))

theorem InName.ne {c d : Char} (hc : InName c) (hd : d ∈ "<>/!?=\"'".toList) : c ≠ d := by
  rintro rfl
  exact hc.2 hd

/-- A letter may stand in any name. -/
theorem inName_of_isAlpha {c : Char} (hc : c.isAlpha = true) : InName c := by
  have hmarks : "<>/!?=\"'".toList.all (!·.isAlpha) = true := by decide
  refine ⟨isMarkupBlank_of_isAlpha hc, fun hmem => ?_⟩
  have hno := List.all_eq_true.1 hmarks c hmem
  rw [hc] at hno
  cases hno

theorem IsWord.isTagName {s : String} (h : IsWord s) : IsTagName s :=
  ⟨h.1, fun c hc => inName_of_isAlpha (h.2 c hc)⟩

/-! ## Attributes as text -/

/-- How an attribute is written. -/
def attributeText (a : String × String) : List Char :=
  ' ' :: a.1.toList ++ ['=', '"'] ++ escape a.2.toList ++ ['"']

/-- The attribute that is read from it. -/
def attributeOf (a : String × String) : Attribute :=
  ⟨a.1.toList, escape a.2.toList⟩

theorem splitQuoted_append {quote : Char} {value : List Char} (h : quote ∉ value)
    (rest : List Char) : splitQuoted quote (value ++ quote :: rest) = some (value, rest) := by
  induction value with
  | nil => rw [List.nil_append, splitQuoted, if_pos rfl]
  | cons c value ih =>
    rw [List.mem_cons, not_or] at h
    rw [List.cons_append, splitQuoted, if_neg (Ne.symm h.1), ih h.2, Option.map_some]

/-- The value of a written attribute is read up to its closing quote. -/
theorem readValue?_written (value : String) (rest : List Char) :
    readValue? ('=' :: '"' :: (escape value.toList ++ '"' :: rest)) =
      some (escape value.toList, rest) := by
  show splitQuoted '"' (escape value.toList ++ '"' :: rest) = _
  exact splitQuoted_append (quote_notMem_escape value.toList) rest

/-- A written attribute is read first, and its name may not come again. -/
theorem readAttributes_attributeText {a : String × String} (hword : IsWord a.1)
    {seen : List (List Char)} (hseen : a.1.toList ∉ seen) (more : List Char) :
    readAttributes seen (attributeText a ++ more) =
      (attributeOf a :: (readAttributes (a.1.toList :: seen) more).1,
        (readAttributes (a.1.toList :: seen) more).2) := by
  obtain ⟨hne, halpha⟩ := hword
  obtain ⟨c, cs, hname⟩ := List.exists_cons_of_ne_nil hne
  have htext : attributeText a ++ more =
      ' ' :: c :: (cs ++ '=' :: '"' :: (escape a.2.toList ++ '"' :: more)) := by
    simp [attributeText, hname]
  have hskip : skipBlanks (attributeText a ++ more) =
      c :: (cs ++ '=' :: '"' :: (escape a.2.toList ++ '"' :: more)) := by
    have hblank := isMarkupBlank_of_isAlpha (halpha c (by simp [hname]))
    rw [htext]
    simp [skipBlanks, hblank, show Text.isMarkupBlank ' ' = true from rfl]
  have hcs : ∀ d ∈ cs, isNameChar d = true := fun d hd =>
    isNameChar_of_isAlpha (halpha d (by simp [hname, hd]))
  have heq : isNameChar '=' = false := rfl
  rw [readAttributes]
  split
  · rename_i h
    rw [hskip] at h
    exact absurd h (List.cons_ne_nil _ _)
  · rename_i d rest h
    rw [hskip] at h
    obtain ⟨rfl, rfl⟩ := List.cons.inj h
    have htake : (cs ++ '=' :: '"' :: (escape a.2.toList ++ '"' :: more)).takeWhile isNameChar =
        cs := by
      rw [List.takeWhile_append_of_pos hcs, List.takeWhile_cons_of_neg (by simp [heq]),
        List.append_nil]
    have hdrop : (cs ++ '=' :: '"' :: (escape a.2.toList ++ '"' :: more)).dropWhile isNameChar =
        '=' :: '"' :: (escape a.2.toList ++ '"' :: more) := by
      rw [List.dropWhile_append_of_pos hcs, List.dropWhile_cons_of_neg (by simp [heq])]
    have hvalue := readValue?_written a.2 more
    split
    · rename_i hnone
      rw [hdrop, hvalue] at hnone
      exact absurd hnone (Option.some_ne_none _)
    · rename_i value more' hsome
      rw [hdrop, hvalue] at hsome
      obtain ⟨rfl, rfl⟩ := Prod.mk.inj (Option.some.inj hsome)
      rw [htake, ← hname]
      simp only [List.contains_iff_mem, hseen, if_false]
      rfl

/-- **Written attributes are read in order,** as long as no name repeats. -/
theorem readAttributes_written (as : List (String × String)) (seen : List (List Char))
    (hword : ∀ a ∈ as, IsWord a.1) (hnodup : (as.map Prod.fst).Nodup)
    (hseen : ∀ a ∈ as, a.1.toList ∉ seen) :
    readAttributes seen (as.flatMap attributeText) = (as.map attributeOf, true) := by
  induction as generalizing seen with
  | nil =>
    rw [List.flatMap_nil, readAttributes]
    rfl
  | cons a as ih =>
    rw [List.map_cons, List.nodup_cons] at hnodup
    have hseen' : ∀ b ∈ as, b.1.toList ∉ a.1.toList :: seen := by
      intro b hb hmem
      rcases List.mem_cons.1 hmem with h | h
      · exact hnodup.1 (String.toList_inj.1 h ▸ List.mem_map_of_mem hb)
      · exact hseen b (List.mem_cons_of_mem a hb) h
    have hrest := ih (a.1.toList :: seen) (fun b hb => hword b (List.mem_cons_of_mem a hb)) hnodup.2
      hseen'
    rw [List.flatMap_cons, readAttributes_attributeText (hword a List.mem_cons_self)
      (hseen a List.mem_cons_self), hrest, List.map_cons]

/-! ## Looking attributes up -/

theorem find?_map_attributeOf (as : List (String × String)) (name : String) :
    (as.map attributeOf).find? (·.name == name.toList) =
      (as.lookup name).map fun value => attributeOf (name, value) := by
  induction as with
  | nil => rfl
  | cons a as ih =>
    obtain ⟨other, value⟩ := a
    rw [List.map_cons, List.find?_cons, List.lookup_cons, ih]
    by_cases h : other = name
    · subst h
      simp [attributeOf]
    · have hlist : (attributeOf (other, value)).name ≠ name.toList := fun hl =>
        h (String.toList_inj.1 hl)
      simp [hlist, Ne.symm h, beq_eq_false_iff_ne.2]

/-- Those of some attributes that have a value. -/
def present (as : List (String × Option String)) : List (String × String) :=
  as.filterMap fun a => a.2.map (a.1, ·)

theorem map_fst_present_sublist (as : List (String × Option String)) :
    ((present as).map Prod.fst).Sublist (as.map Prod.fst) := by
  unfold present
  induction as with
  | nil => exact List.Sublist.refl []
  | cons a as ih =>
    obtain ⟨name, value?⟩ := a
    cases value? with
    | none => exact ih.cons name
    | some value => exact ih.cons_cons name

theorem map_snd_present (as : List (String × Option String)) :
    (present as).map Prod.snd = as.filterMap Prod.snd := by
  unfold present
  rw [List.map_filterMap]
  congr 1
  funext a
  cases a.2 <;> rfl

theorem lookup_eq_none_of_notMem {β : Type} {as : List (String × β)} {name : String}
    (h : name ∉ as.map Prod.fst) : as.lookup name = none := by
  rw [List.lookup_eq_none_iff]
  intro a ha
  rw [bne_iff_ne]
  rintro rfl
  exact h (List.mem_map_of_mem ha)

theorem lookup_present {as : List (String × Option String)} (h : (as.map Prod.fst).Nodup)
    (name : String) : (present as).lookup name = (as.lookup name).join := by
  induction as with
  | nil => rfl
  | cons a as ih =>
    obtain ⟨other, value?⟩ := a
    rw [List.map_cons, List.nodup_cons] at h
    have hrest := ih h.2
    by_cases hname : name = other
    · subst hname
      have habsent : name ∉ (present as).map Prod.fst := fun hmem =>
        h.1 ((map_fst_present_sublist as).subset hmem)
      cases value? with
      | none => simpa [present] using lookup_eq_none_of_notMem habsent
      | some value => simp [present]
    · have hfalse : (name == other) = false := beq_eq_false_iff_ne.2 hname
      cases value? with
      | none => simpa [present, List.lookup_cons, hfalse] using hrest
      | some value => simpa [present, List.lookup_cons, hfalse] using hrest

namespace Tag

/-- The tag of a name, with those of some attributes that have a value. -/
def ofOptions (name : String) (as : List (String × Option String)) : Tag :=
  as.foldl (fun tag a => tag.addOption a.1 a.2) (.plain name)

theorem foldl_addOption (tag : Tag) (as : List (String × Option String)) :
    as.foldl (fun tag a => tag.addOption a.1 a.2) tag =
      ⟨tag.name, tag.list ++ (present as).flatMap attributeText⟩ := by
  induction as generalizing tag with
  | nil => simp [present]
  | cons a as ih =>
    obtain ⟨name, value?⟩ := a
    rw [List.foldl_cons, ih]
    cases value? with
    | none => simp [present, addOption]
    | some value => simp [present, addOption, add, attributeText]

theorem ofOptions_eq (name : String) (as : List (String × Option String)) :
    ofOptions name as = ⟨name, (present as).flatMap attributeText⟩ :=
  foldl_addOption (.plain name) as

@[simp] theorem name_ofOptions (name : String) (as : List (String × Option String)) :
    (ofOptions name as).name = name := by
  rw [ofOptions_eq]

@[simp] theorem name_plain (name : String) : (plain name).name = name := rfl

/-- **Looking up an attribute of a written tag** gives what was put there. -/
theorem attribute?_ofOptions (as : List (String × Option String))
    (hword : ∀ name ∈ as.map Prod.fst, IsWord name) (hnodup : (as.map Prod.fst).Nodup)
    (tag name : String) : (ofOptions tag as).attribute? name = .ok (as.lookup name).join := by
  have hread := readAttributes_written (present as) []
    (fun a ha => hword _ ((map_fst_present_sublist as).subset (List.mem_map_of_mem ha)))
    (hnodup.sublist (map_fst_present_sublist as)) (by simp)
  have hlookup := lookup_present hnodup name
  rw [attribute?, ofOptions_eq, hread, ← hlookup]
  dsimp only
  rw [find?_map_attributeOf]
  cases (present as).lookup name with
  | none => rfl
  | some value =>
    rw [Option.map_some]
    dsimp only [attributeOf]
    rw [unescape?_escape]
    dsimp only
    rw [String.ofList_toList]

/-- A tag without attributes has none. -/
theorem attribute?_plain (tag name : String) : (plain tag).attribute? name = .ok none :=
  attribute?_ofOptions [] (by simp) (by simp) tag name

end Tag

/-! ## The closing bracket -/

/-- A text that the search for a closing bracket goes through, from outside quotes to
outside quotes. -/
def Passes (cs : List Char) : Prop :=
  ∀ rest, splitTag none (cs ++ rest) = (splitTag none rest).map fun (tag, rest) => (cs ++ tag, rest)

theorem passes_nil : Passes [] := by
  intro rest
  simp

theorem Passes.append {cs ds : List Char} (hcs : Passes cs) (hds : Passes ds) :
    Passes (cs ++ ds) := by
  intro rest
  rw [List.append_assoc, hcs, hds, Option.map_map]
  simp only [Function.comp_def, List.append_assoc]

/-- A character that is neither a quote nor the bracket itself. -/
theorem passes_singleton {c : Char} (h₁ : c ≠ '>') (h₂ : c ≠ '"') (h₃ : c ≠ '\'') : Passes [c] := by
  intro rest
  rw [List.singleton_append, splitTag, if_neg h₁, if_neg (by simp [h₂, h₃])]
  rfl

theorem passes_of_forall {cs : List Char} (h : ∀ c ∈ cs, c ≠ '>' ∧ c ≠ '"' ∧ c ≠ '\'') :
    Passes cs := by
  induction cs with
  | nil => exact passes_nil
  | cons c cs ih =>
    obtain ⟨h₁, h₂, h₃⟩ := h c List.mem_cons_self
    exact (passes_singleton h₁ h₂ h₃).append (ih fun d hd => h d (List.mem_cons_of_mem c hd))

theorem IsTagName.passes {s : String} (h : IsTagName s) : Passes s.toList :=
  passes_of_forall fun c hc =>
    ⟨(h.2 c hc).ne (by decide), (h.2 c hc).ne (by decide), (h.2 c hc).ne (by decide)⟩

theorem splitTag_quoted {quote : Char} {value : List Char} (h : quote ∉ value)
    (rest : List Char) : splitTag (some quote) (value ++ quote :: rest) =
      (splitTag none rest).map fun (tag, rest) => (value ++ quote :: tag, rest) := by
  induction value with
  | nil => rw [List.nil_append, splitTag, if_pos rfl]; rfl
  | cons c value ih =>
    rw [List.mem_cons, not_or] at h
    rw [List.cons_append, splitTag, if_neg (Ne.symm h.1), ih h.2, Option.map_map]
    rfl

theorem passes_quoted {quote : Char} {value : List Char} (hquote : quote ∈ ['"', '\''])
    (h : quote ∉ value) : Passes (quote :: value ++ [quote]) := by
  have hopens : quote = '"' ∨ quote = '\'' := by simpa using hquote
  have hbracket : quote ≠ '>' := by
    rintro rfl
    exact absurd hquote (by decide)
  intro rest
  rw [List.append_assoc, List.singleton_append, List.cons_append, splitTag,
    if_neg hbracket, if_pos hopens, splitTag_quoted h, Option.map_map]
  simp [Function.comp_def]

theorem passes_attributeText {a : String × String} (h : IsWord a.1) :
    Passes (attributeText a) := by
  have hblank : Passes [' '] := passes_singleton (by decide) (by decide) (by decide)
  have heq : Passes ['='] := passes_singleton (by decide) (by decide) (by decide)
  have hall := ((hblank.append h.isTagName.passes).append heq).append
    (passes_quoted List.mem_cons_self (quote_notMem_escape a.2.toList))
  simpa [attributeText] using hall

/-! ## The text of a tag -/

namespace Tag

/-- What makes the text of a tag read as that tag: the name is a word, the list begins
with the blank that ends the name, and does not end with the slash of an empty
element. -/
structure IsWritten (tag : Tag) : Prop where
  word : IsWord tag.name
  passes : Passes tag.list
  blank : ∀ c ∈ tag.list.head?, c = ' '
  last : ∀ c ∈ tag.list.getLast?, c ≠ '/'

theorem isWritten_plain {name : String} (h : IsWord name) : (plain name).IsWritten :=
  ⟨h, passes_nil, by simp [plain], by simp [plain]⟩

theorem IsWritten.add {tag : Tag} (h : tag.IsWritten) {name : String} (hname : IsWord name)
    (value : String) : (tag.add name value).IsWritten := by
  have hlist : (tag.add name value).list = tag.list ++ attributeText (name, value) := by
    simp [Tag.add, attributeText]
  refine ⟨h.word, ?_, ?_, ?_⟩
  · rw [hlist]
    exact h.passes.append (passes_attributeText hname)
  · rw [hlist]
    cases hl : tag.list with
    | nil => simp [attributeText]
    | cons c cs =>
      have hblank := h.blank
      rw [hl] at hblank
      simpa using hblank
  · rw [hlist, attributeText, ← List.append_assoc, List.getLast?_append]
    simp

theorem IsWritten.foldl_addOption {tag : Tag} (h : tag.IsWritten)
    {as : List (String × Option String)} (hword : ∀ name ∈ as.map Prod.fst, IsWord name) :
    (as.foldl (fun tag a => tag.addOption a.1 a.2) tag).IsWritten := by
  induction as generalizing tag with
  | nil => exact h
  | cons a as ih =>
    obtain ⟨name, value?⟩ := a
    have hname : IsWord name := hword name (by simp)
    refine ih ?_ fun other hother => hword other (List.mem_cons_of_mem _ hother)
    cases value? with
    | none => exact h
    | some value => exact h.add hname value

theorem isWritten_ofOptions {name : String} {as : List (String × Option String)}
    (hname : IsWord name) (hword : ∀ name ∈ as.map Prod.fst, IsWord name) :
    (ofOptions name as).IsWritten :=
  (isWritten_plain hname).foldl_addOption hword

/-- What makes the text of any tag read as that tag: the list begins with the blank that ends
the name, and does not end with the slash of an empty element. -/
structure IsReadable (tag : Tag) : Prop where
  name : IsTagName tag.name
  passes : Passes tag.list
  blank : ∀ c ∈ tag.list.head?, Text.isMarkupBlank c = true
  last : ∀ c ∈ tag.list.getLast?, c ≠ '/'

theorem IsWritten.isReadable {tag : Tag} (h : tag.IsWritten) : tag.IsReadable :=
  ⟨h.word.isTagName, h.passes, fun c hc => h.blank c hc ▸ rfl, h.last⟩

variable {tag : Tag} (h : tag.IsReadable)

include h

theorem IsReadable.splitTag_text (rest : List Char) :
    splitTag none (tag.text ++ rest) =
      (splitTag none rest).map fun (more, rest) => (tag.text ++ more, rest) :=
  (h.name.passes.append h.passes) rest

theorem IsReadable.ofText_text : ofText tag.text = tag := by
  have hname : ∀ c ∈ tag.name.toList, (!Text.isMarkupBlank c) = true := fun c hc => by
    rw [(h.name.2 c hc).1]
    rfl
  have hstop : tag.list.takeWhile (!Text.isMarkupBlank ·) = [] ∧
      tag.list.dropWhile (!Text.isMarkupBlank ·) = tag.list := by
    cases hl : tag.list with
    | nil => exact ⟨rfl, rfl⟩
    | cons c cs =>
      have hblank : Text.isMarkupBlank c = true := h.blank c (by rw [hl]; rfl)
      exact ⟨List.takeWhile_cons_of_neg (by simp [hblank]),
        List.dropWhile_cons_of_neg (by simp [hblank])⟩
  rw [ofText, text, List.takeWhile_append_of_pos hname, List.dropWhile_append_of_pos hname,
    hstop.1, hstop.2, List.append_nil, String.ofList_toList]

theorem IsReadable.exists_text_eq_cons : ∃ c cs, tag.text = c :: cs ∧ InName c := by
  obtain ⟨c, cs, hname⟩ := List.exists_cons_of_ne_nil h.name.1
  refine ⟨c, cs ++ tag.list, by rw [text, hname, List.cons_append], h.name.2 c ?_⟩
  rw [hname]
  exact List.mem_cons_self

theorem IsReadable.getLast?_text : tag.text.getLast? ≠ some '/' := by
  rw [text, List.getLast?_append]
  cases hl : tag.list.getLast? with
  | some c =>
    rw [Option.some_or]
    exact fun hc => h.last c hl (Option.some.inj hc)
  | none =>
    rw [Option.none_or]
    intro hc
    exact (h.name.2 '/' (List.mem_of_getLast? hc)).ne (by decide) rfl

end Tag
end Markup
end Linguist
