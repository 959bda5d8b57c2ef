import Mathlib.Data.List.TakeWhile
import Linguist.Code.Call
import Linguist.Proofs.Sequence

/-!
# Code as a sequence of lexemes

Tokens leave out most of the code: blanks, comments, character literals, and everything about a
literal but its text.  To say where a token was, the code is cut into *lexemes*, the parts that
are read at once, and nothing is left out: the lexemes of code make up the code
(`flatMap_text_lexemes`).  A lexeme is one token or none, and the tokens of the lexemes are
those of the code (`tokensFrom_eq`).

## Line ends

A lexeme may have line ends, and the line on which the next token begins depends on how many of
them are counted.  Two kinds of lexemes have line ends that are not: a character literal, in
which a backslash protects a line end as it protects any other character, and a raw literal
whose delimiter has a line end, which is then in both of its marks (`Lexeme.uncounted`).  All
other line ends are counted (`count_of_mem_lexemes`).

## One step

What the code is cut into is decided at its first characters.  Everything that is to be known
about the step is said once (`cuts_cut`), and what holds of all lexemes follows from it.
-/

namespace Linguist
namespace Code

/-! ## Lexemes -/

/-- A part of code that is read at once. -/
inductive Lexeme where
  | blank (c : Char)
  | lineComment (text : List Char)
  | blockComment (text : List Char)
  | literal (body : List Char) (isClosed : Bool)
  | charLiteral (text : List Char)
  | rawLiteral (head opening body closing : List Char)
  | encoding (name : List Char)
  | word (name : List Char)
  | scope
  | mark (c : Char)
  deriving DecidableEq, Repr

namespace Lexeme

/-- The code that a lexeme is. -/
def text : Lexeme → List Char
  | .blank c => [c]
  | .lineComment text => '/' :: '/' :: text
  | .blockComment text => '/' :: '*' :: text
  | .literal body isClosed => '"' :: (body ++ if isClosed then ['"'] else [])
  | .charLiteral text => '\'' :: text
  | .rawLiteral head opening body closing => head ++ '"' :: (opening ++ (body ++ closing))
  | .encoding name => name
  | .word name => name
  | .scope => [':', ':']
  | .mark c => [c]

/-- The token that a lexeme is, if it is one. -/
def tokens : Lexeme → List Token
  | .lineComment text => noteOf text
  | .literal body _ => [.literal (String.ofList (decodeBody body))]
  | .rawLiteral _ _ body _ => [.literal (String.ofList body)]
  | .word name => [.word (String.ofList name)]
  | .scope => [.scope]
  | .mark c => [markOf c]
  | _ => []

/-- The line ends that are counted in a lexeme. -/
def lineEnds : Lexeme → Nat
  | .blank c => if c = '\n' then 1 else 0
  | .blockComment text => text.count '\n'
  | .literal body _ => body.count '\n'
  | .rawLiteral _ _ body _ => body.count '\n'
  | _ => 0

/-- The line ends that are passed over in a lexeme without being counted. -/
def uncounted : Lexeme → Nat
  | .charLiteral text => text.count '\n'
  | .rawLiteral _ opening _ closing => opening.count '\n' + closing.count '\n'
  | _ => 0

end Lexeme

/-- The tokens of lexemes, each on its line, from a line on. -/
def locate : Nat → List Lexeme → List Located
  | _, [] => []
  | line, l :: ls => l.tokens.map (⟨·, line⟩) ++ locate (line + l.lineEnds) ls

theorem locate_append (line : Nat) (as bs : List Lexeme) :
    locate line (as ++ bs) =
      locate line as ++ locate (line + Sequence.total Lexeme.lineEnds as) bs := by
  induction as generalizing line with
  | nil => rfl
  | cons a as ih =>
    rw [List.cons_append, locate, locate, ih, Sequence.total_cons, List.append_assoc,
      Nat.add_assoc]

/-- Lines have nothing to do with what the tokens are. -/
theorem map_token_locate (line : Nat) (ls : List Lexeme) :
    (locate line ls).map Located.token = ls.flatMap Lexeme.tokens := by
  induction ls generalizing line with
  | nil => rfl
  | cons l ls ih =>
    rw [locate, List.map_append, ih, List.map_map, List.flatMap_cons]
    exact congrArg (· ++ ls.flatMap Lexeme.tokens) (List.map_id' l.tokens)

/-! ## Cutting -/

/-- The lexeme that begins with a word, and what follows it. -/
def cutWord (word rest : List Char) : Lexeme × List Char :=
  match rest with
  | '"' :: more =>
    if encodings.contains (String.ofList word) then (.encoding word, rest)
    else if rawMarks.contains (String.ofList word) then
      let delimiter := more.takeWhile (· != '(')
      let body := (more.dropWhile (· != '(')).drop 1
      let opening := delimiter ++ (more.dropWhile (· != '(')).take 1
      match Sequence.splitMark (rawMark delimiter) body with
      | some (body, after) => (.rawLiteral word opening body (rawMark delimiter), after)
      | none => (.rawLiteral word opening body [], [])
    else (.word word, rest)
  | _ => (.word word, rest)

/-- The first lexeme of code, and what follows it. -/
def cut (c : Char) (rest : List Char) : Lexeme × List Char :=
  match c, rest with
  | '/', '/' :: rest =>
    (.lineComment (rest.takeWhile (· != '\n')), rest.dropWhile (· != '\n'))
  | '/', '*' :: rest =>
    match Sequence.splitMark ['*', '/'] rest with
    | some (text, after) => (.blockComment (text ++ ['*', '/']), after)
    | none => (.blockComment rest, [])
  | ':', ':' :: rest => (.scope, rest)
  | c, rest =>
    if Text.isBlank c then (.blank c, rest)
    else if c = '"' then
      let (body, after) := splitBody rest
      (.literal body (body.length + after.length < rest.length), after)
    else if c = '\'' then
      let after := skipCharLiteral rest
      (.charLiteral (rest.take (rest.length - after.length)), after)
    else if isWordChar false c then
      cutWord (c :: rest.takeWhile (isWordChar c.isDigit)) (rest.dropWhile (isWordChar c.isDigit))
    else (.mark c, rest)

/-- Code is cut into a lexeme and a rest: nothing of it is lost, its tokens are those of the
lexeme and those of the rest, and all line ends of the lexeme are accounted for. -/
structure Cuts (cs : List Char) (l : Lexeme) (rest : List Char) : Prop where
  text : cs = l.text ++ rest
  text_ne_nil : l.text ≠ []
  tokens : ∀ line, tokensFrom line cs =
    l.tokens.map (⟨·, line⟩) ++ tokensFrom (line + l.lineEnds) rest
  count : l.text.count '\n' = l.lineEnds + l.uncounted

/-! ## Comments -/

theorem cuts_lineComment (rest : List Char) :
    Cuts ('/' :: '/' :: rest) (.lineComment (rest.takeWhile (· != '\n')))
      (rest.dropWhile (· != '\n')) where
  text := by simp only [Lexeme.text, List.cons_append, List.takeWhile_append_dropWhile]
  text_ne_nil := List.cons_ne_nil _ _
  tokens line := by rw [tokensFrom]; rfl
  count := by
    have hnone : (rest.takeWhile (· != '\n')).count '\n' = 0 :=
      List.count_eq_zero.2 fun h => by simpa using List.mem_takeWhile_imp h
    simp [Lexeme.text, Lexeme.lineEnds, Lexeme.uncounted, hnone]

/-- A block comment ends at its closing mark, and its line ends are counted. -/
theorem skipBlock_eq_splitMark (line : Nat) (cs : List Char) :
    skipBlock line cs =
      match Sequence.splitMark ['*', '/'] cs with
      | some (text, rest) => (line + text.count '\n', rest)
      | none => (line + cs.count '\n', []) := by
  fun_induction skipBlock line cs with
  | case1 => rfl
  | case2 line rest => simp [Sequence.splitMark]
  | case3 line c rest hmark ih =>
    have hno : ¬ ['*', '/'].isPrefixOf (c :: rest) := by
      rw [List.isPrefixOf_iff_prefix]
      rintro ⟨tail, htail⟩
      obtain ⟨hc, hrest⟩ := List.cons.inj htail
      exact hmark tail hc.symm hrest.symm
    have hcount : ∀ text : List Char, (if c = '\n' then line + 1 else line) + text.count '\n' =
        line + (c :: text).count '\n' := by
      intro text
      rw [List.count_cons]
      by_cases hc : c = '\n'
      · rw [if_pos hc, if_pos (beq_iff_eq.2 hc)]
        omega
      · rw [if_neg hc, if_neg (mt beq_iff_eq.1 hc)]
        rfl
    rw [ih, Sequence.splitMark, if_neg hno]
    cases Sequence.splitMark ['*', '/'] rest with
    | none => exact congrArg (·, []) (hcount rest)
    | some parts => exact congrArg (·, parts.2) (hcount parts.1)

theorem cuts_blockComment {rest text after : List Char} (hrest : rest = text ++ after)
    (hskip : ∀ line, skipBlock line rest = (line + text.count '\n', after)) :
    Cuts ('/' :: '*' :: rest) (.blockComment text) after where
  text := congrArg ('/' :: '*' :: ·) hrest
  text_ne_nil := List.cons_ne_nil _ _
  tokens line := by
    rw [tokensFrom, hskip]
    rfl
  count := by simp [Lexeme.text, Lexeme.lineEnds, Lexeme.uncounted]

/-! ## Words -/

theorem ne_newline_of_isWordChar {isNumber : Bool} {c : Char} (h : isWordChar isNumber c = true) :
    c ≠ '\n' := by
  rintro rfl
  cases isNumber <;> exact absurd h (by decide)

theorem count_takeWhile_isWordChar (isNumber : Bool) (cs : List Char) :
    (cs.takeWhile (isWordChar isNumber)).count '\n' = 0 :=
  List.count_eq_zero.2 fun h => ne_newline_of_isWordChar (List.mem_takeWhile_imp h) rfl

/-- What follows the opening quote of a raw literal begins with its opening mark. -/
theorem rawOpening_append (cs : List Char) :
    cs.takeWhile (· != '(') ++ (cs.dropWhile (· != '(')).take 1 ++
      (cs.dropWhile (· != '(')).drop 1 = cs := by
  rw [List.append_assoc, List.take_append_drop, List.takeWhile_append_dropWhile]

theorem text_cutWord (word rest : List Char) :
    word ++ rest = (cutWord word rest).1.text ++ (cutWord word rest).2 := by
  fun_cases cutWord word rest with
  | case1 => rfl
  | case2 more _ _ delimiter body opening text after hsplit =>
    have hbody : body = text ++ (rawMark delimiter ++ after) := Sequence.eq_of_splitMark hsplit
    have hmore : opening ++ body = more := rawOpening_append more
    simp only [Lexeme.text, List.append_assoc, List.cons_append]
    rw [← hbody, hmore]
  | case3 more _ _ delimiter body opening =>
    have hmore : opening ++ body = more := rawOpening_append more
    simp only [Lexeme.text, List.append_nil, hmore]
  | case4 => rfl
  | case5 => rfl

theorem text_cutWord_ne_nil {word : List Char} (hword : word ≠ []) (rest : List Char) :
    (cutWord word rest).1.text ≠ [] := by
  fun_cases cutWord word rest with
  | case2 => exact List.append_ne_nil_of_left_ne_nil hword _
  | case3 => exact List.append_ne_nil_of_left_ne_nil hword _
  | _ => exact hword

/-- A raw literal ends at its closing mark. -/
theorem splitRaw_of_some {cs : List Char} {parts : List Char × List Char}
    (h : Sequence.splitMark (rawMark (cs.takeWhile (· != '(')))
      ((cs.dropWhile (· != '(')).drop 1) = some parts) : splitRaw cs = parts := by
  simp only [splitRaw]
  rw [h]

/-- A raw literal without its closing mark runs to the end. -/
theorem splitRaw_of_none {cs : List Char}
    (h : Sequence.splitMark (rawMark (cs.takeWhile (· != '(')))
      ((cs.dropWhile (· != '(')).drop 1) = none) :
    splitRaw cs = ((cs.dropWhile (· != '(')).drop 1, []) := by
  simp only [splitRaw]
  rw [h]

/-- Reading a word is cutting it off. -/
theorem readWord_eq (line : Nat) (word rest : List Char) :
    readWord line word rest = ((cutWord word rest).1.tokens.map (⟨·, line⟩),
      line + (cutWord word rest).1.lineEnds, (cutWord word rest).2) := by
  fun_cases cutWord word rest with
  | case1 more hencoding =>
    simp only [readWord, hencoding]
    rfl
  | case2 more hencoding hraw delimiter body opening text after hsplit =>
    have hparts : splitRaw more = (text, after) := splitRaw_of_some hsplit
    simp only [readWord, hencoding, hraw, hparts]
    rfl
  | case3 more hencoding hraw delimiter body opening hsplit =>
    have hparts : splitRaw more = (body, []) := splitRaw_of_none hsplit
    simp only [readWord, hencoding, hraw, hparts]
    rfl
  | case4 more hencoding hraw =>
    simp only [readWord, hencoding, hraw]
    rfl
  | case5 after hafter =>
    rw [readWord]
    · rfl
    · exact hafter

theorem count_cutWord {word : List Char} (hword : word.count '\n' = 0) (rest : List Char) :
    (cutWord word rest).1.text.count '\n' =
      (cutWord word rest).1.lineEnds + (cutWord word rest).1.uncounted := by
  have hraw : ∀ opening body closing : List Char,
      (Lexeme.rawLiteral word opening body closing).text.count '\n' =
        body.count '\n' + (opening.count '\n' + closing.count '\n') := by
    intro opening body closing
    rw [Lexeme.text, List.count_append, hword, List.count_cons_of_ne (by decide),
      List.count_append, List.count_append]
    omega
  fun_cases cutWord word rest with
  | case2 => exact hraw _ _ _
  | case3 => exact hraw _ _ _
  | _ => exact hword

/-! ## The first lexeme -/

/-- The body of a literal is followed by its closing quote, if it has one, and the rest. -/
theorem exists_of_splitBody (cs : List Char) :
    ∃ closing, (closing = ['"'] ∨ closing = []) ∧
      cs = (splitBody cs).1 ++ (closing ++ (splitBody cs).2) := by
  fun_induction splitBody cs with
  | case1 => exact ⟨[], Or.inr rfl, rfl⟩
  | case2 rest => exact ⟨['"'], Or.inl rfl, rfl⟩
  | case3 rest => exact ⟨[], Or.inr rfl, rfl⟩
  | case4 c rest ih =>
    obtain ⟨closing, hclosing, h⟩ := ih
    exact ⟨closing, hclosing, congrArg (fun r => '\\' :: c :: r) h⟩
  | case5 c rest _ _ _ ih =>
    obtain ⟨closing, hclosing, h⟩ := ih
    exact ⟨closing, hclosing, congrArg (c :: ·) h⟩

/-- What is left of a literal tells whether it was closed. -/
theorem text_literal {rest body after : List Char} (h : splitBody rest = (body, after)) :
    '"' :: rest = (Lexeme.literal body (body.length + after.length < rest.length)).text ++ after ∧
      (Lexeme.literal body (body.length + after.length < rest.length)).text.count '\n' =
        body.count '\n' := by
  obtain ⟨closing, hclosing, hrest⟩ := exists_of_splitBody rest
  rw [h] at hrest
  have hlength : rest.length = body.length + (closing.length + after.length) := by
    rw [hrest, List.length_append, List.length_append]
  have hclosed : (if decide (body.length + after.length < rest.length) = true then ['"'] else []) =
      closing := by
    rcases hclosing with rfl | rfl
    · rw [List.length_singleton] at hlength
      exact if_pos (decide_eq_true (by omega))
    · rw [List.length_nil] at hlength
      exact if_neg (mt of_decide_eq_true (by omega))
  rw [Lexeme.text, hclosed]
  constructor
  · rw [List.cons_append, List.append_assoc, ← hrest]
  · rw [List.count_cons_of_ne (by decide), List.count_append]
    rcases hclosing with rfl | rfl <;> rfl

theorem skipCharLiteral_suffix (cs : List Char) : skipCharLiteral cs <:+ cs := by
  fun_induction skipCharLiteral cs with
  | case1 => exact List.suffix_refl _
  | case2 rest => exact List.suffix_cons _ _
  | case3 rest => exact List.suffix_refl _
  | case4 c rest ih => exact ih.trans ((List.suffix_cons c rest).trans (List.suffix_cons _ _))
  | case5 c rest _ _ _ ih => exact ih.trans (List.suffix_cons _ _)

section FirstChar

variable {c : Char} {rest : List Char}

/-- Code that begins with neither a comment nor the scope mark is cut by its first character. -/
theorem tokensFrom_cons (hline : ∀ r, c = '/' → rest = '/' :: r → False)
    (hblock : ∀ r, c = '/' → rest = '*' :: r → False)
    (hscope : ∀ r, c = ':' → rest = ':' :: r → False) (line : Nat) :
    tokensFrom line (c :: rest) =
      if c = '\n' then tokensFrom (line + 1) rest
      else if Text.isBlank c then tokensFrom line rest
      else if c = '"' then
        ⟨.literal (String.ofList (decodeBody (splitBody rest).1)), line⟩ ::
          tokensFrom (line + (splitBody rest).1.count '\n') (splitBody rest).2
      else if c = '\'' then tokensFrom line (skipCharLiteral rest)
      else if isWordChar false c then
        (takeWord line c rest).1 ++
          tokensFrom (takeWord line c rest).2.1 (takeWord line c rest).2.2
      else ⟨markOf c, line⟩ :: tokensFrom line rest := by
  rw [tokensFrom]
  · exact hline
  · exact hblock
  · exact hscope

theorem ne_newline_of_not_isBlank (h : ¬ Text.isBlank c = true) : c ≠ '\n' := by
  rintro rfl
  exact h (by decide)

end FirstChar

/-- **Cutting off the first lexeme** loses nothing. -/
theorem cuts_cut (c : Char) (rest : List Char) :
    Cuts (c :: rest) (cut c rest).1 (cut c rest).2 := by
  fun_cases cut c rest with
  | case1 rest => exact cuts_lineComment rest
  | case2 rest text after hsplit =>
    refine cuts_blockComment ?_ fun line => ?_
    · rw [Sequence.eq_of_splitMark hsplit, List.append_assoc]
    · simp [skipBlock_eq_splitMark, hsplit]
  | case3 rest hsplit =>
    refine cuts_blockComment (List.append_nil rest).symm fun line => ?_
    simp [skipBlock_eq_splitMark, hsplit]
  | case4 rest => exact ⟨rfl, List.cons_ne_nil _ _, fun line => by rw [tokensFrom]; rfl, rfl⟩
  | case5 c rest hline hblock hscope hblank =>
    refine ⟨rfl, List.cons_ne_nil _ _, fun line => ?_, ?_⟩
    · rw [tokensFrom_cons hline hblock hscope]
      by_cases hc : c = '\n' <;> simp [hc, hblank, Lexeme.tokens, Lexeme.lineEnds]
    · simp [Lexeme.text, Lexeme.lineEnds, Lexeme.uncounted, List.count_singleton]
  | case6 rest body after hbody hline hblock hscope hblank =>
    obtain ⟨htext, hcount⟩ := text_literal hbody
    refine ⟨htext, List.cons_ne_nil _ _, fun line => ?_, hcount⟩
    rw [tokensFrom_cons hline hblock hscope]
    simp [hblank, Lexeme.tokens, Lexeme.lineEnds, hbody]
  | case7 rest after hline hblock hscope hblank hquote =>
    obtain ⟨text, hrest⟩ : ∃ text, text ++ after = rest := skipCharLiteral_suffix rest
    have htext : rest.take (rest.length - after.length) = text := by
      rw [← hrest, List.length_append, Nat.add_sub_cancel, List.take_left]
    rw [htext]
    refine ⟨congrArg ('\'' :: ·) hrest.symm, List.cons_ne_nil _ _, fun line => ?_, ?_⟩
    · rw [tokensFrom_cons hline hblock hscope]
      simp [hblank, Lexeme.tokens, Lexeme.lineEnds, after]
    · simp [Lexeme.text, Lexeme.lineEnds, Lexeme.uncounted]
  | case8 c rest hline hblock hscope hblank hquote hmark hword =>
    have hsplit : c :: rest = (c :: rest.takeWhile (isWordChar c.isDigit)) ++
        rest.dropWhile (isWordChar c.isDigit) := by
      rw [List.cons_append, List.takeWhile_append_dropWhile]
    have hcount : (c :: rest.takeWhile (isWordChar c.isDigit)).count '\n' = 0 := by
      rw [List.count_cons_of_ne (ne_newline_of_isWordChar hword), count_takeWhile_isWordChar]
    refine ⟨hsplit.trans (text_cutWord _ _), text_cutWord_ne_nil (List.cons_ne_nil _ _) _,
      fun line => ?_, count_cutWord hcount _⟩
    rw [tokensFrom_cons hline hblock hscope]
    simp [hblank, hquote, hmark, hword, takeWord, readWord_eq, ne_newline_of_isWordChar hword]
  | case9 c rest hline hblock hscope hblank hquote hmark hword =>
    have hc := ne_newline_of_not_isBlank hblank
    refine ⟨rfl, List.cons_ne_nil _ _, fun line => ?_, ?_⟩
    · rw [tokensFrom_cons hline hblock hscope]
      simp [hc, hblank, hquote, hmark, hword, Lexeme.tokens, Lexeme.lineEnds]
    · simp [Lexeme.text, Lexeme.lineEnds, Lexeme.uncounted, hc]

/-- What follows the first lexeme is shorter. -/
theorem length_cut (c : Char) (rest : List Char) : (cut c rest).2.length < (c :: rest).length := by
  have hcuts := cuts_cut c rest
  have hpos := List.length_pos_of_ne_nil hcuts.text_ne_nil
  have hlength := congrArg List.length hcuts.text
  rw [List.length_append] at hlength
  omega

/-! ## All lexemes -/

/-- The lexemes of code. -/
def lexemes : List Char → List Lexeme
  | [] => []
  | c :: rest => (cut c rest).1 :: lexemes (cut c rest).2
termination_by cs => cs.length
decreasing_by exact length_cut c rest

@[simp] theorem lexemes_nil : lexemes [] = [] := by rw [lexemes]

theorem lexemes_of_cut {c : Char} {rest after : List Char} {l : Lexeme}
    (h : cut c rest = (l, after)) : lexemes (c :: rest) = l :: lexemes after := by
  rw [lexemes, h]

/-- **Lexemes make up the code.** -/
theorem flatMap_text_lexemes (cs : List Char) : (lexemes cs).flatMap Lexeme.text = cs := by
  fun_induction lexemes cs with
  | case1 => rfl
  | case2 c rest ih => rw [List.flatMap_cons, ih, ← (cuts_cut c rest).text]

/-- **The tokens of code are those of its lexemes.** -/
theorem tokensFrom_eq (line : Nat) (cs : List Char) :
    tokensFrom line cs = locate line (lexemes cs) := by
  fun_induction lexemes cs generalizing line with
  | case1 => rw [tokensFrom, locate]
  | case2 c rest ih => rw [(cuts_cut c rest).tokens, ih, locate]

/-- What holds of every lexeme that is cut off holds of all lexemes. -/
theorem forall_mem_lexemes {P : Lexeme → Prop} (h : ∀ c rest, P (cut c rest).1) (cs : List Char) :
    ∀ l ∈ lexemes cs, P l := by
  fun_induction lexemes cs with
  | case1 => exact fun _ hl => absurd hl List.not_mem_nil
  | case2 c rest ih => exact List.forall_mem_cons.2 ⟨h c rest, ih⟩

/-- All line ends of a lexeme are counted or not. -/
theorem count_of_mem_lexemes {cs : List Char} :
    ∀ l ∈ lexemes cs, l.text.count '\n' = l.lineEnds + l.uncounted :=
  forall_mem_lexemes (fun c rest => (cuts_cut c rest).count) cs

theorem text_ne_nil_of_mem_lexemes {cs : List Char} : ∀ l ∈ lexemes cs, l.text ≠ [] :=
  forall_mem_lexemes (fun c rest => (cuts_cut c rest).text_ne_nil) cs

/-- The calls of code are those among the tokens of its lexemes. -/
theorem calls_eq (defaultContext code : String) :
    calls defaultContext code =
      callsFrom defaultContext [] [] (locate 1 (lexemes code.toList)) := by
  rw [calls, Code.tokens, tokensFrom_eq]

end Code
end Linguist
