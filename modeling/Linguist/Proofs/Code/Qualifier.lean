import Linguist.Proofs.Code.Lines
import Linguist.Proofs.Code.Spelling

/-!
# Where a qualifier begins

A function may be named from the outermost scope on, with a scope mark before the first name.
The qualifier of a call is read backwards, over names and scope marks as far as they alternate,
from tokens that no longer know of the blanks between them.  So the scope mark at the front does
not end it.  It ends where something other than a word is before that mark, an operator or a
parenthesis; but a word there, be it `return` or a type, is taken for one more name
(`ofFiles_qualified`).

## Plain code

The statement is about *plain* code in front of the call: no literals, no comments, and no names
that ask for a message.  If such code ends in a blank, its lexemes are the same whatever follows
it (`lexemes_append_of_isPlain`), and all that a call can take from it is the end of its tokens
(`openNames`).
-/

namespace Linguist
namespace Code

open Sequence (total)

/-! ## Plain code -/

/-- Whether a lexeme is neither a literal nor a comment, and no name that asks for a message. -/
def Lexeme.isPlain : Lexeme → Bool
  | .blank _ | .scope | .mark _ => true
  | .word name => (Asking.ofName? (String.ofList name)).isNone
  | _ => false

/-- No word goes on in a blank. -/
theorem isWordChar_eq_false_of_isBlank {c : Char} (h : Text.isBlank c = true) (isNumber : Bool) :
    isWordChar isNumber c = false := by
  have hword := isWordChar_of_isBlank h
  have hquote : c ≠ '\'' := by
    rintro rfl
    exact absurd h (by decide)
  have hpoint : c ≠ '.' := by
    rintro rfl
    exact absurd h (by decide)
  cases isNumber with
  | false => exact hword
  | true => simpa [isWordChar, hquote, hpoint] using hword

/-- A plain word is cut off in the same way whatever follows the next character. -/
theorem cutWord_append {word rest : List Char} (h : (cutWord word rest).1.isPlain = true)
    (hrest : rest ≠ []) (more : List Char) :
    cutWord word (rest ++ more) = ((cutWord word rest).1, (cutWord word rest).2 ++ more) := by
  obtain ⟨d, rest, rfl⟩ := List.exists_cons_of_ne_nil hrest
  by_cases hquote : d = '"'
  · rw [hquote] at h ⊢
    rw [cutWord] at h
    by_cases hencoding : encodings.contains (String.ofList word) = true
    · rw [if_pos hencoding] at h
      cases h
    by_cases hraw : rawMarks.contains (String.ofList word) = true
    · rw [if_neg hencoding, if_pos hraw] at h
      dsimp only at h
      split at h <;> cases h
    rw [List.cons_append, cutWord, cutWord, if_neg hencoding, if_neg hencoding, if_neg hraw,
      if_neg hraw, List.cons_append]
  · have hhead : ∀ cs : List Char, (d :: cs).head? ≠ some '"' := fun cs heq =>
      hquote (Option.some.inj heq)
    rw [List.cons_append, cutWord_eq_word word (hhead _), cutWord_eq_word word (hhead _),
      List.cons_append]

/-- What goes on up to some character of the text stops there whatever follows the text. -/
theorem while_append_of_mem {p : Char → Bool} {cs : List Char} {d : Char} (hd : d ∈ cs)
    (hp : p d = false) (more : List Char) :
    (cs ++ more).takeWhile p = cs.takeWhile p ∧
      (cs ++ more).dropWhile p = cs.dropWhile p ++ more ∧ cs.dropWhile p ≠ [] := by
  induction cs with
  | nil => cases hd
  | cons c cs ih =>
    rw [List.cons_append]
    by_cases hc : p c = true
    · have hd : d ∈ cs := (List.mem_cons.1 hd).resolve_left fun heq => by
        rw [heq, hc] at hp
        cases hp
      rw [List.takeWhile_cons_of_pos hc, List.takeWhile_cons_of_pos hc,
        List.dropWhile_cons_of_pos hc, List.dropWhile_cons_of_pos hc, (ih hd).1]
      exact ⟨rfl, (ih hd).2⟩
    · rw [List.takeWhile_cons_of_neg hc, List.takeWhile_cons_of_neg hc,
        List.dropWhile_cons_of_neg hc, List.dropWhile_cons_of_neg hc, List.cons_append]
      exact ⟨rfl, rfl, List.cons_ne_nil c cs⟩

/-- **A plain lexeme is cut off in the same way whatever follows the code,** if the code ends in
a blank. -/
theorem cut_append {c : Char} {rest : List Char} (hplain : (cut c rest).1.isPlain = true)
    (hlast : ∀ d ∈ (c :: rest).getLast?, Text.isBlank d = true) (more : List Char) :
    cut c (rest ++ more) = ((cut c rest).1, (cut c rest).2 ++ more) := by
  -- what begins with another character than a blank has its last blank in the rest
  have hlater : ¬ Text.isBlank c = true → ∃ d ∈ rest, Text.isBlank d = true := by
    intro hblank
    rcases List.eq_nil_or_concat rest with rfl | ⟨before, d, rfl⟩
    · exact absurd (hlast c rfl) hblank
    · rw [List.concat_eq_append] at hlast ⊢
      refine ⟨d, List.mem_append_right _ List.mem_cons_self, hlast d ?_⟩
      rw [List.getLast?_cons, List.getLast?_concat]
      rfl
  clear hlast
  revert hplain hlater
  fun_cases cut c rest with
  | case4 =>
    intro _ _
    rfl
  | case5 c rest _ _ _ hblank =>
    intro _ _
    exact cut_blank hblank _
  | case8 c rest hline hblock hscope hblank hquote hmark hword =>
    intro hplain hlater
    obtain ⟨d, hd, hdblank⟩ := hlater hblank
    have hne : ∀ e, isWordChar false e = false → c ≠ e := by
      rintro e he rfl
      exact absurd (hword.symm.trans he) (by decide)
    -- the word ends before the blank, so that its end is not at the end of the code
    obtain ⟨htake, hdrop, hrest⟩ :=
      while_append_of_mem hd (isWordChar_eq_false_of_isBlank hdblank c.isDigit) more
    rw [cut_eq (hne _ (by decide)) (hne _ (by decide)), if_neg hblank, if_neg hquote,
      if_neg hmark, if_pos hword, htake, hdrop]
    exact cutWord_append hplain hrest more
  | case9 c rest hline hblock hscope hblank hquote hmark hword =>
    intro _ hlater
    obtain ⟨d, hd, -⟩ := hlater hblank
    obtain ⟨e, rest, rfl⟩ := List.exists_cons_of_ne_nil (List.ne_nil_of_mem hd)
    have hhead : ∀ {f r}, e :: rest ++ more = f :: r → e :: rest = f :: rest := fun h => by
      rw [(List.cons.inj h).1]
    rw [cut_cons (fun _ hc h => hline rest hc (hhead h)) (fun _ hc h => hblock rest hc (hhead h))
      (fun _ hc h => hscope rest hc (hhead h)),
      if_neg hblank, if_neg hquote, if_neg hmark, if_neg hword]
  | _ =>
    intro hplain
    cases hplain

/-- **Plain code that ends in a blank** is cut in the same way whatever follows it. -/
theorem lexemes_append_of_isPlain {cs : List Char} (hplain : ∀ l ∈ lexemes cs, l.isPlain = true)
    (hlast : ∀ c ∈ cs.getLast?, Text.isBlank c = true) (more : List Char) :
    lexemes (cs ++ more) = lexemes cs ++ lexemes more := by
  fun_induction lexemes cs with
  | case1 => rfl
  | case2 c rest ih =>
    obtain ⟨hfirst, hothers⟩ := List.forall_mem_cons.1 hplain
    have hafter : ∀ d ∈ (cut c rest).2.getLast?, Text.isBlank d = true := by
      intro d hd
      refine hlast d ?_
      rw [(cuts_cut c rest).text, List.getLast?_append, Option.mem_def.1 hd]
      rfl
    rw [List.cons_append, lexemes_of_cut (cut_append hfirst hlast more), ih hothers hafter,
      List.cons_append]

/-- All line ends of plain code are counted. -/
theorem total_lineEnds_of_isPlain {cs : List Char}
    (hplain : ∀ l ∈ lexemes cs, l.isPlain = true) :
    total Lexeme.lineEnds (lexemes cs) = cs.count '\n' := by
  have hcount := count_of_append (List.append_nil (lexemes cs)).symm
  have huncounted : total Lexeme.uncounted (lexemes cs) = 0 := by
    refine Sequence.total_eq_zero_iff.2 fun l hl => ?_
    have hl := hplain l hl
    cases l with
    | charLiteral | rawLiteral => cases hl
    | _ => rfl
  rw [flatMap_text_lexemes, huncounted] at hcount
  exact hcount.symm

/-! ## Tokens that are passed over -/

/-- Whether a token is no note, and no name that asks for a message. -/
def Token.isPlain : Token → Bool
  | .word name => (Asking.ofName? name).isNone
  | .note _ => false
  | _ => true

theorem Lexeme.isPlain_tokens {l : Lexeme} (h : l.isPlain = true) :
    ∀ t ∈ l.tokens, t.isPlain = true := by
  cases l with
  | word name => exact List.forall_mem_singleton.2 h
  | mark c =>
    refine List.forall_mem_singleton.2 ?_
    unfold markOf
    split <;> rfl
  | scope => exact List.forall_mem_singleton.2 rfl
  | blank => exact nofun
  | _ => cases h

/-- Plain tokens are no calls, and are before whatever follows them. -/
theorem callsFrom_of_isPlain {defaultContext : String} {ts : List Located}
    (h : ∀ t ∈ ts, t.token.isPlain = true) (before : List Token) (notes : List String)
    (rest : List Located) :
    callsFrom defaultContext before notes (ts ++ rest) =
      callsFrom defaultContext ((ts.map Located.token).reverse ++ before) notes rest := by
  induction ts generalizing before with
  | nil => rfl
  | cons t ts ih =>
    obtain ⟨token, line⟩ := t
    obtain ⟨ht, hts⟩ := List.forall_mem_cons.1 h
    have hpass : callsFrom defaultContext before notes (⟨token, line⟩ :: (ts ++ rest)) =
        callsFrom defaultContext (token :: before) notes (ts ++ rest) := by
      cases token with
      | word name =>
        have hnone : callAt? defaultContext before notes name line (ts ++ rest) = none := by
          rw [callAt?, Option.isNone_iff_eq_none.1 ht]
          rfl
        rw [callsFrom, hnone]
      | note => cases ht
      | _ => rfl
    rw [List.cons_append, hpass, ih hts, List.map_cons, List.reverse_cons, List.append_assoc,
      List.singleton_append]

/-! ## The names that a scope mark goes on with -/

/-- The names at the end of code that belong to the qualifier if a scope mark is next. -/
def openNames (cs : List Char) : List String :=
  (qualifierNames (.scope :: (bareTokens cs).reverse)).reverse

/-- There are such names if the code ends in a word. -/
theorem openNames_eq_nil_iff {cs : List Char} :
    openNames cs = [] ↔ ∀ name, (bareTokens cs).getLast? ≠ some (.word name) := by
  rw [openNames, List.reverse_eq_nil_iff, ← List.head?_reverse]
  cases (bareTokens cs).reverse with
  | nil => exact ⟨fun _ => nofun, fun _ => rfl⟩
  | cons t ts =>
    cases t with
    | word name => exact ⟨nofun, fun h => absurd rfl (h name)⟩
    | _ => exact ⟨fun _ => nofun, fun _ => rfl⟩

/-- More names make a longer qualifier. -/
theorem length_intercalate_append (xs : List String) {ys : List String} (hys : ys ≠ []) :
    (String.intercalate "::" ys).length + 2 * xs.length ≤
      (String.intercalate "::" (xs ++ ys)).length := by
  induction xs with
  | nil => exact Nat.le_refl _
  | cons x xs ih =>
    obtain ⟨y, zs, hrest⟩ := List.exists_cons_of_ne_nil
      (List.append_ne_nil_of_right_ne_nil xs hys)
    have hmark : "::".length = 2 := rfl
    rw [List.cons_append, hrest, String.intercalate_cons_cons, ← hrest, String.length_append,
      String.length_append, hmark, List.length_cons]
    omega

/-! ## A call that is named from the outermost scope on -/

/-- The code of a call with a qualifier that begins with a scope mark. -/
def outermostCall (names : List Identifier) (text : List Char) : List Char :=
  ':' :: ':' :: ((names.flatMap fun name => name.text.toList ++ [':', ':']) ++
    't' :: 'r' :: '(' :: '"' :: (spell text ++ ['"', ')']))

theorem lexemes_outermostCall (names : List Identifier) (text : List Char) :
    lexemes (outermostCall names text) =
      .scope :: ((names.flatMap fun name => [.word name.text.toList, .scope]) ++
        [.word ['t', 'r'], .mark '(', .literal (spell text) true, .mark ')']) := by
  have hword := Identifier.lexemes_append ⟨"tr", by decide⟩
    (endsWord_cons (c := '(') (by decide) (by decide) ('"' :: (spell text ++ ['"', ')'])))
  rw [lexemes_of_cut (cut_mark (by decide) _), lexemes_of_cut (cut_literal text [')']),
    lexemes_of_cut (cut_mark (by decide) _), lexemes_nil] at hword
  rw [outermostCall, lexemes_of_cut (cut_scope _), Spelling.lexemes_qualifier]
  exact congrArg (fun ls => .scope :: (_ ++ ls)) hword

/-- The call that is meant, its names going on with some others. -/
def Call.outermost (opened : List String) (names : List Identifier) (text : List Char)
    (line : Nat) : Call where
  context := String.intercalate "::" (opened ++ names.map Identifier.text)
  source := String.ofList text
  comment? := none
  note? := none
  isPlural := false
  line

variable {names : List Identifier}

/-- The names of such a call go on with the names before it. -/
theorem qualifier?_outermost (hnames : names ≠ []) (before : List Token) :
    qualifier? ((names.flatMap fun name => [.word name.text, .scope]).reverse ++
        .scope :: before) =
      some (String.intercalate "::"
        ((qualifierNames (.scope :: before)).reverse ++ names.map Identifier.text)) := by
  rw [qualifier?, Spelling.qualifierNames_reverse_append]
  split
  · rename_i hnil
    exact absurd (List.append_eq_nil_iff.1 hnil).1 (by simpa using hnames)
  · rw [List.reverse_append, List.reverse_reverse]

theorem literalText?_singleton (text : String) : literalText? [.literal text] = some text := by
  show some (String.join [text]) = some text
  rw [String.join_cons, String.join_nil, String.append_empty]

theorem callAt?_outermost (defaultContext : String) (hnames : names ≠ []) (before : List Token)
    (text : List Char) (line closingLine : Nat) :
    callAt? defaultContext ((names.flatMap fun name => [.word name.text, .scope]).reverse ++
        .scope :: before) [] "tr" line
      [⟨.opening, line⟩, ⟨.literal (String.ofList text), line⟩, ⟨.closing, closingLine⟩] =
      some (.outermost (qualifierNames (.scope :: before)).reverse names text line) := by
  have hname : Asking.ofName? "tr" = some .inClass := rfl
  have harguments : arguments 0 [] [.literal (String.ofList text), .closing] =
      [[.literal (String.ofList text)]] := rfl
  rw [callAt?, hname]
  simp only [Option.bind_eq_bind, Option.bind_some, List.map_cons, List.map_nil, harguments,
    Asking.read?, Asking.read?.argument, qualifier?_outermost hnames, List.getElem?_cons_zero,
    literalText?_singleton]
  rfl

theorem callsFrom_outermostCall (defaultContext : String) (before : List Token) (line : Nat)
    (hnames : names ≠ []) (text : List Char) :
    callsFrom defaultContext before [] (locate line (lexemes (outermostCall names text))) =
      [.outermost (qualifierNames (.scope :: before)).reverse names text line] := by
  have hlocate : locate line [.word ['t', 'r'], .mark '(', .literal (spell text) true, .mark ')'] =
      [⟨.word "tr", line⟩, ⟨.opening, line⟩, ⟨.literal (String.ofList text), line⟩,
        ⟨.closing, line + 0 + 0 + (spell text).count '\n'⟩] := by
    simp only [locate, Lexeme.tokens, Lexeme.lineEnds, decodeBody_spell]
    rfl
  rw [lexemes_outermostCall]
  show callsFrom defaultContext (.scope :: before) [] (locate line (_ ++ _)) = _
  rw [Spelling.callsFrom_qualifier, hlocate, callsFrom,
    callAt?_outermost defaultContext hnames before]
  rfl

/-- **The call behind plain code** is the only one.  Its qualifier goes on with the names at the
end of the code. -/
theorem calls_outermostCall (defaultContext : String) {code : List Char}
    (hplain : ∀ l ∈ lexemes code, l.isPlain = true)
    (hlast : ∀ c ∈ code.getLast?, Text.isBlank c = true) (hnames : names ≠ [])
    (text : List Char) :
    calls defaultContext (String.ofList (code ++ outermostCall names text)) =
      [.outermost (openNames code) names text (1 + code.count '\n')] := by
  have hpassed : ∀ t ∈ locate 1 (lexemes code), t.token.isPlain = true := by
    intro t ht
    have htoken := List.mem_map_of_mem (f := Located.token) ht
    rw [map_token_locate, List.mem_flatMap] at htoken
    obtain ⟨l, hl, htoken⟩ := htoken
    exact Lexeme.isPlain_tokens (hplain l hl) _ htoken
  rw [calls_eq, String.toList_ofList, lexemes_append_of_isPlain hplain hlast, locate_append,
    callsFrom_of_isPlain hpassed, List.append_nil, map_token_locate, ← bareTokens,
    callsFrom_outermostCall _ _ _ hnames, total_lineEnds_of_isPlain hplain, ← openNames]

end Code

namespace Collection

open Code

/-- **A call that is named from the outermost scope on makes one message.**  Its context is the
names of the call if and only if the code in front of it does not end in a word; a word there,
whatever it is, becomes part of the context. -/
theorem ofFiles_qualified (defaultContext file : String) {code : List Char}
    (hplain : ∀ l ∈ lexemes code, l.isPlain = true)
    (hlast : ∀ c ∈ code.getLast?, Text.isBlank c = true) {names : List Identifier}
    (hnames : names ≠ []) (text : List Char) :
    (ofFiles defaultContext
        [(file, String.ofList (code ++ outermostCall names text))]).contexts =
      [{ name := String.intercalate "::" (openNames code ++ names.map Identifier.text)
         messages := [{ source := String.ofList text
                        places := [.inFile file (UInt32.ofNat (1 + code.count '\n'))] }] }] ∧
    (String.intercalate "::" (openNames code ++ names.map Identifier.text) =
        String.intercalate "::" (names.map Identifier.text) ↔
      ∀ name, (bareTokens code).getLast? ≠ some (.word name)) := by
  refine ⟨?_, ?_⟩
  · show ((calls defaultContext _).foldl (addCall file) .empty).contexts = _
    rw [calls_outermostCall defaultContext hplain hlast hnames]
    rfl
  · rw [← openNames_eq_nil_iff]
    refine ⟨fun h => ?_, fun h => by rw [h, List.nil_append]⟩
    have hne : names.map Identifier.text ≠ [] := mt List.map_eq_nil_iff.1 hnames
    have hlonger := length_intercalate_append (openNames code) hne
    rw [h] at hlonger
    exact List.length_eq_zero_iff.1 (by omega)

/-- Code ends in a blank if its last character is one. -/
theorem isBlank_getLast?_of_eq {code : List Char} {c : Char} (h : code.getLast? = some c)
    (hblank : Text.isBlank c = true) : ∀ d ∈ code.getLast?, Text.isBlank d = true := by
  rintro d hd
  rw [h] at hd
  exact Option.some.inj hd ▸ hblank

/-- Behind an operator the context is the qualifier. -/
theorem ofFiles_assigned :
    (ofFiles "Main" [("menu.cpp", "title =\n  ::Menu::File::tr(\"Open\")")]).contexts =
      [{ name := "Menu::File"
         messages := [{ source := "Open", places := [.inFile "menu.cpp" 2] }] }] := by
  have hcode : String.ofList ("title =\n  ".toList ++ outermostCall menuFile "Open".toList) =
      "title =\n  ::Menu::File::tr(\"Open\")" := by decide +kernel
  have hcontext : String.intercalate "::"
      (openNames "title =\n  ".toList ++ menuFile.map Identifier.text) = "Menu::File" := by
    decide +kernel
  have hplain : ∀ l ∈ lexemes "title =\n  ".toList, l.isPlain = true := by decide +kernel
  have hlast : ∀ c ∈ "title =\n  ".toList.getLast?, Text.isBlank c = true :=
    isBlank_getLast?_of_eq (c := ' ') (by decide) (by decide)
  have hnames : menuFile ≠ [] := by decide
  have hcontexts :=
    (ofFiles_qualified "Main" "menu.cpp" hplain hlast hnames "Open".toList).1
  rw [hcode, hcontext] at hcontexts
  exact hcontexts

/-- Behind a word it is not: a word is taken for a name, even if it is `return`. -/
theorem not_ofFiles_returned :
    ¬ ∀ code : List Char, (∀ l ∈ lexemes code, l.isPlain = true) → code ≠ [] →
      (∀ c ∈ code.getLast?, Text.isBlank c = true) →
      ∀ names : List Identifier, names ≠ [] → ∀ text : List Char,
        (ofFiles "Main"
            [("menu.cpp", String.ofList (code ++ outermostCall names text))]).contexts.map
          Context.name = [String.intercalate "::" (names.map Identifier.text)] := by
  intro h
  have hreturned : (ofFiles "Main"
      [("menu.cpp", "return ::Menu::File::tr(\"Open\")")]).contexts.map Context.name =
      ["Menu::File"] :=
    h "return ".toList (by decide +kernel) (by decide)
      (isBlank_getLast?_of_eq (c := ' ') (by decide) (by decide)) menuFile (by decide) "Open".toList
  exact absurd hreturned (by decide +kernel)

end Collection
end Linguist
