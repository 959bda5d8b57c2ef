import Linguist.Proofs.Code.Lexeme
import Linguist.Proofs.Text.Numeral

/-!
# Lexemes read back

A lexeme is cut off the code exactly as it was written, whatever follows it, if it says itself
where it ends.  Comments do so by their marks, and literals by their closing quote, which is
why a quote in a text has to be written as an escape (`spell`).  Only a word depends on what
follows it: a word goes on as long as it can, and right before a quote it may announce a
literal.

The first character decides what a lexeme is.  Those of comments, literals and the scope mark
decide by themselves; parentheses and the like stand for themselves (`cut_mark`),
and what begins a word is read to the end of the word (`lexemes_identifier`).
-/

namespace Linguist
namespace Code

/-! ## Texts as they are written -/

/-- A character of a text as it is written in a literal. -/
def spellChar : Char → List Char
  | '\\' => ['\\', '\\']
  | '"' => ['\\', '"']
  | '\n' => ['\\', 'n']
  | c => [c]

/-- A text as it is written in a literal. -/
def spell (text : List Char) : List Char :=
  text.flatMap spellChar

@[simp] theorem spell_nil : spell [] = [] := rfl

@[simp] theorem spell_cons (c : Char) (text : List Char) :
    spell (c :: text) = spellChar c ++ spell text := rfl

theorem decodeBody_shortEscape {c d : Char} (hline : c ≠ '\n') (h : shortEscape? c = some d)
    (rest : List Char) : decodeBody ('\\' :: c :: rest) = d :: decodeBody rest := by
  rw [decodeBody, if_neg hline, h]

/-- What a character is written as is part of the body, and decodes to the character. -/
theorem spellChar_cases (c : Char) :
    (∀ rest, splitBody (spellChar c ++ rest) =
      (spellChar c ++ (splitBody rest).1, (splitBody rest).2)) ∧
    (∀ rest, decodeBody (spellChar c ++ rest) = c :: decodeBody rest) := by
  unfold spellChar
  split
  · exact ⟨fun rest => by rw [List.cons_append, List.singleton_append, splitBody]; rfl,
      decodeBody_shortEscape (by decide) rfl⟩
  · exact ⟨fun rest => by rw [List.cons_append, List.singleton_append, splitBody]; rfl,
      decodeBody_shortEscape (by decide) rfl⟩
  · exact ⟨fun rest => by rw [List.cons_append, List.singleton_append, splitBody]; rfl,
      decodeBody_shortEscape (by decide) rfl⟩
  · rename_i hslash hquote hline
    refine ⟨fun rest => ?_, fun rest => ?_⟩
    · rw [List.singleton_append, splitBody]
      · rfl
      · exact hquote
      · exact hline
      · exact fun _ _ h => absurd h hslash
    · rw [List.singleton_append, decodeBody]
      · exact fun _ _ h => absurd h hslash
      · exact fun h => absurd h hslash

/-- The body of a written text ends at its closing quote. -/
theorem splitBody_spell (text rest : List Char) :
    splitBody (spell text ++ '"' :: rest) = (spell text, rest) := by
  induction text with
  | nil => rw [spell_nil, List.nil_append, splitBody]
  | cons c text ih => rw [spell_cons, List.append_assoc, (spellChar_cases c).1, ih]

/-- **A written text decodes to the text.** -/
theorem decodeBody_spell (text : List Char) : decodeBody (spell text) = text := by
  induction text with
  | nil => rw [spell_nil, decodeBody]
  | cons c text ih => rw [spell_cons, (spellChar_cases c).2, ih]

theorem notMem_newline_spell (text : List Char) : '\n' ∉ spell text := by
  rw [spell, List.mem_flatMap]
  rintro ⟨c, -, hc⟩
  unfold spellChar at hc
  split at hc
  · exact absurd hc (by decide)
  · exact absurd hc (by decide)
  · exact absurd hc (by decide)
  · rename_i _ _ hline
    exact hline (List.mem_singleton.1 hc).symm

/-! ## Comments -/

theorem cut_lineComment {text : List Char} (h : '\n' ∉ text) (rest : List Char) :
    cut '/' ('/' :: (text ++ '\n' :: rest)) = (.lineComment text, '\n' :: rest) := by
  have hcut : ∀ cs : List Char, cut '/' ('/' :: cs) =
      (.lineComment (cs.takeWhile (· != '\n')), cs.dropWhile (· != '\n')) := fun _ => rfl
  have htext : ∀ c ∈ text, (c != '\n') = true := fun c hc =>
    bne_iff_ne.2 fun hline => h (hline ▸ hc)
  rw [hcut, List.takeWhile_append_of_pos htext, List.dropWhile_append_of_pos htext]
  simp

theorem cut_blockComment {text : List Char} (h : ¬ ['*', '/'] <:+: text) (rest : List Char) :
    cut '/' ('*' :: (text ++ (['*', '/'] ++ rest))) =
      (.blockComment (text ++ ['*', '/']), rest) := by
  have hsplit : Sequence.splitMark ['*', '/'] (text ++ (['*', '/'] ++ rest)) = some (text, rest) :=
    Sequence.splitMark_append (by decide) h rest
  unfold cut
  split
  · rename_i heq
    cases heq
  · rename_i heq
    rw [← (List.cons.inj heq).2, hsplit]
  · rename_i hcolon _
    exact absurd hcolon (by decide)
  · rename_i hblock _
    exact (hblock _ rfl rfl).elim

/-! ## By the first character -/

section FirstChar

variable {c : Char}

/-- Code that begins with neither a comment nor the scope mark is cut by its first character. -/
theorem cut_cons {rest : List Char} (hline : ∀ r, c = '/' → rest = '/' :: r → False)
    (hblock : ∀ r, c = '/' → rest = '*' :: r → False)
    (hscope : ∀ r, c = ':' → rest = ':' :: r → False) :
    cut c rest =
      if Text.isBlank c then (.blank c, rest)
      else if c = '"' then
        let (body, after) := splitBody rest
        (.literal body (body.length + after.length < rest.length), after)
      else if c = '\'' then
        let after := skipCharLiteral rest
        (.charLiteral (rest.take (rest.length - after.length)), after)
      else if isWordChar false c then
        cutWord (c :: rest.takeWhile (isWordChar c.isDigit))
          (rest.dropWhile (isWordChar c.isDigit))
      else (.mark c, rest) := by
  unfold cut
  split
  · exact (hline _ rfl rfl).elim
  · exact (hblock _ rfl rfl).elim
  · exact (hscope _ rfl rfl).elim
  · rfl

/-- A first character that is neither a slash nor a colon decides by itself. -/
theorem cut_eq (hslash : c ≠ '/') (hcolon : c ≠ ':') (rest : List Char) :
    cut c rest =
      if Text.isBlank c then (.blank c, rest)
      else if c = '"' then
        let (body, after) := splitBody rest
        (.literal body (body.length + after.length < rest.length), after)
      else if c = '\'' then
        let after := skipCharLiteral rest
        (.charLiteral (rest.take (rest.length - after.length)), after)
      else if isWordChar false c then
        cutWord (c :: rest.takeWhile (isWordChar c.isDigit))
          (rest.dropWhile (isWordChar c.isDigit))
      else (.mark c, rest) :=
  cut_cons (fun _ h => absurd h hslash) (fun _ h => absurd h hslash) (fun _ h => absurd h hcolon)

theorem cut_blank (h : Text.isBlank c = true) (rest : List Char) :
    cut c rest = (.blank c, rest) := by
  have hslash : c ≠ '/' := by
    rintro rfl
    exact absurd h (by decide)
  have hcolon : c ≠ ':' := by
    rintro rfl
    exact absurd h (by decide)
  rw [cut_eq hslash hcolon, if_pos h]

theorem cut_scope (rest : List Char) : cut ':' (':' :: rest) = (.scope, rest) := rfl

theorem cut_literal (text rest : List Char) :
    cut '"' (spell text ++ '"' :: rest) = (.literal (spell text) true, rest) := by
  have hclosed : (spell text).length + rest.length < (spell text ++ '"' :: rest).length := by
    rw [List.length_append, List.length_cons]
    omega
  rw [cut_eq (by decide) (by decide), if_neg (by decide), if_pos rfl, splitBody_spell]
  simp only [hclosed, decide_true]

/-- Marks that no other lexeme begins with. -/
def punctuation : List Char :=
  ['(', ')', ',', ';']

/-- A mark stands for itself. -/
theorem cut_mark (h : c ∈ punctuation) (rest : List Char) : cut c rest = (.mark c, rest) := by
  have hmarks : punctuation.all fun d => d ≠ '/' ∧ d ≠ ':' ∧ Text.isBlank d = false ∧ d ≠ '"' ∧
      d ≠ '\'' ∧ isWordChar false d = false := by decide
  obtain ⟨hslash, hcolon, hblank, hquote, hchar, hword⟩ :=
    of_decide_eq_true (List.all_eq_true.1 hmarks c h)
  rw [cut_eq hslash hcolon, if_neg (Bool.eq_false_iff.1 hblank), if_neg hquote, if_neg hchar,
    if_neg (Bool.eq_false_iff.1 hword)]

end FirstChar

/-! ## Words -/

/-- A blank stands in no word. -/
theorem isWordChar_of_isBlank {c : Char} (h : Text.isBlank c = true) :
    isWordChar false c = false := by
  have hcode : c.toNat ∈ [9, 10, 11, 12, 13, 0x20, 0x85, 0xA0, 0x1680, 0x2000, 0x2001, 0x2002,
      0x2003, 0x2004, 0x2005, 0x2006, 0x2007, 0x2008, 0x2009, 0x200A, 0x2028, 0x2029, 0x202F,
      0x205F, 0x3000] := by
    simp only [Text.isBlank, Bool.or_eq_true, Bool.and_eq_true, decide_eq_true_eq,
      beq_iff_eq] at h
    simp only [List.mem_cons, List.not_mem_nil, or_false]
    omega
  rw [← Char.ofNat_toNat c]
  generalize c.toNat = n at hcode
  revert n
  decide +kernel

/-- An identifier is a word that is no number. -/
def isIdentifier : List Char → Bool
  | [] => false
  | c :: cs => isWordChar false c && !c.isDigit && cs.all (isWordChar false)

/-- An identifier is cut off code that does not go on with it. -/
theorem lexemes_identifier {word rest : List Char} (hword : isIdentifier word = true)
    (hrest : ∀ c ∈ rest.head?, isWordChar false c = false) :
    lexemes (word ++ rest) = (cutWord word rest).1 :: lexemes (cutWord word rest).2 := by
  cases word with
  | nil => cases hword
  | cons c cs =>
    simp only [isIdentifier, Bool.and_eq_true, Bool.not_eq_true', List.all_eq_true] at hword
    obtain ⟨⟨hfirst, hdigit⟩, hothers⟩ := hword
    have hne : ∀ d, isWordChar false d = false → c ≠ d := by
      rintro d hd rfl
      exact absurd (hfirst.symm.trans hd) (by decide)
    have hblank : ¬ Text.isBlank c = true := fun hblank =>
      absurd (hfirst.symm.trans (isWordChar_of_isBlank hblank)) (by decide)
    have hstop : rest.takeWhile (isWordChar false) = [] ∧
        rest.dropWhile (isWordChar false) = rest := by
      cases rest with
      | nil => exact ⟨rfl, rfl⟩
      | cons d rest =>
        have hd : ¬ isWordChar false d = true := Bool.eq_false_iff.1 (hrest d rfl)
        exact ⟨List.takeWhile_cons_of_neg hd, List.dropWhile_cons_of_neg hd⟩
    rw [List.cons_append]
    refine lexemes_of_cut ?_
    rw [cut_eq (hne _ (by decide)) (hne _ (by decide)), if_neg hblank, if_neg (hne _ (by decide)),
      if_neg (hne _ (by decide)), if_pos hfirst, hdigit, List.takeWhile_append_of_pos hothers,
      List.dropWhile_append_of_pos hothers, hstop.1, hstop.2, List.append_nil]

/-- A word stands for itself unless a quote follows it. -/
theorem cutWord_eq_word (word : List Char) {rest : List Char} (h : rest.head? ≠ some '"') :
    cutWord word rest = (.word word, rest) := by
  unfold cutWord
  split
  · exact absurd rfl h
  · rfl

/-- What announces the encoding of a literal leaves the literal to be read. -/
theorem cutWord_encoding {word : List Char} (h : String.ofList word ∈ encodings)
    (rest : List Char) : cutWord word ('"' :: rest) = (.encoding word, '"' :: rest) :=
  if_pos (List.contains_iff_mem.2 h)

/-- **A raw literal ends at its closing mark,** the first one, whatever its text is. -/
theorem cutWord_raw {word delimiter text : List Char} (hword : String.ofList word ∈ rawMarks)
    (hopening : '(' ∉ delimiter) (hclosing : ')' ∉ delimiter)
    (htext : ¬ rawMark delimiter <:+: text) (rest : List Char) :
    cutWord word ('"' :: (delimiter ++ '(' :: (text ++ (rawMark delimiter ++ rest)))) =
      (.rawLiteral word (delimiter ++ ['(']) text (rawMark delimiter), rest) := by
  have hencoding : ¬ encodings.contains (String.ofList word) = true := by
    rw [List.contains_iff_mem]
    intro h
    have hdisjoint : ∀ s ∈ rawMarks, s ∉ encodings := by decide
    exact hdisjoint _ hword h
  have hdelimiter : ∀ c ∈ delimiter, (c != '(') = true := fun c hc =>
    bne_iff_ne.2 fun hparenthesis => hopening (hparenthesis ▸ hc)
  have htake : ∀ cs, (delimiter ++ '(' :: cs).takeWhile (· != '(') = delimiter := by
    intro cs
    rw [List.takeWhile_append_of_pos hdelimiter]
    simp
  have hdrop : ∀ cs, (delimiter ++ '(' :: cs).dropWhile (· != '(') = '(' :: cs := by
    intro cs
    rw [List.dropWhile_append_of_pos hdelimiter]
    simp
  have hmark : ')' ∉ delimiter ++ ['"'] := by simpa using hclosing
  have hsplit : Sequence.splitMark (rawMark delimiter) (text ++ (rawMark delimiter ++ rest)) =
      some (text, rest) := Sequence.splitMark_append hmark htext rest
  simp only [cutWord, if_neg hencoding, if_pos (List.contains_iff_mem.2 hword), htake, hdrop,
    List.drop_succ_cons, List.drop_zero, hsplit, List.take_succ_cons, List.take_zero]

end Code
end Linguist
