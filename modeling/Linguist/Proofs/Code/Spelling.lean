import Linguist.Collection
import Linguist.Proofs.Code.Inert

/-!
# The spellings of a call

A text can be written in code in many ways: cut into pieces, each an ordinary or a raw literal,
with blanks and comments between them.  Every way of writing the texts of a call makes the same
call of it, and the code with the call has one message (`ofFiles_spelling`).

## 1.  Pieces

A piece knows the text it stands for, and carries the proof that it can be read back: nobody
has to know more of a raw literal than that its delimiter has no parentheses and its text not
the closing mark (`Piece`).

## 2.  Arguments

The tokens of pieces are as many literals, and nothing of what is between the pieces is left.
So commas and parentheses in texts are not those of the call, and an argument ends where its
pieces end (`arguments_literals`).

## 3.  Names

A name is read back unless it runs into another one.  This is why names next to each other in
an argument need something between them (`Extra.separated`).  The names of the qualifier and
the name of the function are followed by marks.
-/

namespace Linguist
namespace Code

/-- The tokens of code without their lines. -/
def bareTokens (cs : List Char) : List Token :=
  (lexemes cs).flatMap Lexeme.tokens

theorem bareTokens_nil : bareTokens [] = [] := by rw [bareTokens, lexemes_nil, List.flatMap_nil]

theorem bareTokens_cut {c : Char} {rest after : List Char} {l : Lexeme}
    (h : cut c rest = (l, after)) : bareTokens (c :: rest) = l.tokens ++ bareTokens after := by
  rw [bareTokens, lexemes_of_cut h, List.flatMap_cons, bareTokens]

/-- Fillers leave no tokens. -/
theorem bareTokens_fillers (fillers : List Filler) (rest : List Char) :
    bareTokens (fillers.flatMap Filler.code ++ rest) = bareTokens rest := by
  induction fillers with
  | nil => rfl
  | cons f fillers ih =>
    rw [List.flatMap_cons, List.append_assoc, bareTokens, f.lexemes_append, List.flatMap_append,
      f.tokens_lexemes, ← bareTokens, ih, List.nil_append]

/-! ## Identifiers -/

/-- An identifier in code. -/
structure Identifier where
  text : String
  isIdentifier : Code.isIdentifier text.toList = true

/-- Code that no word goes on in, and that makes no more of a word than a word. -/
def EndsWord (rest : List Char) : Prop :=
  ∀ c ∈ rest.head?, isWordChar false c = false ∧ c ≠ '"'

theorem endsWord_cons {c : Char} (hword : isWordChar false c = false) (hquote : c ≠ '"')
    (rest : List Char) : EndsWord (c :: rest) := by
  rintro d hd
  obtain rfl : c = d := Option.some.inj hd
  exact ⟨hword, hquote⟩

theorem Identifier.lexemes_append (name : Identifier) {rest : List Char} (h : EndsWord rest) :
    lexemes (name.text.toList ++ rest) = .word name.text.toList :: lexemes rest := by
  have hquote : rest.head? ≠ some '"' := fun hhead => (h '"' hhead).2 rfl
  rw [lexemes_identifier name.isIdentifier fun c hc => (h c hc).1, cutWord_eq_word _ hquote]

theorem Identifier.bareTokens_append (name : Identifier) {rest : List Char} (h : EndsWord rest) :
    bareTokens (name.text.toList ++ rest) = .word name.text :: bareTokens rest := by
  rw [bareTokens, name.lexemes_append h, List.flatMap_cons, bareTokens, Lexeme.tokens,
    String.ofList_toList, List.singleton_append]

/-! ## Pieces -/

/-- A literal that stands for a text.  An ordinary one may announce its encoding, and a raw one
has one of several marks before it. -/
inductive Piece where
  | plain (encoding? : Option { name // name ∈ encodings }) (text : String)
  | raw (mark : { name // name ∈ rawMarks }) (delimiter : List Char) (text : String)
      (no_opening : '(' ∉ delimiter) (no_closing : ')' ∉ delimiter)
      (not_closed : ¬ rawMark delimiter <:+: text.toList)

namespace Piece

/-- The text that a piece stands for. -/
def text : Piece → String
  | .plain _ text => text
  | .raw _ _ text _ _ _ => text

/-- The code that a piece is. -/
def code : Piece → List Char
  | .plain encoding? text =>
    (encoding?.elim "" Subtype.val).toList ++ '"' :: (spell text.toList ++ ['"'])
  | .raw mark delimiter text _ _ _ =>
    mark.val.toList ++ '"' :: (delimiter ++ '(' :: (text.toList ++ rawMark delimiter))

theorem bareTokens_literal (text : String) (rest : List Char) :
    bareTokens ('"' :: (spell text.toList ++ '"' :: rest)) = .literal text :: bareTokens rest := by
  rw [bareTokens_cut (cut_literal text.toList rest), Lexeme.tokens, decodeBody_spell,
    String.ofList_toList, List.singleton_append]

/-- **A piece is one literal with its text,** whatever follows it. -/
theorem bareTokens_append (p : Piece) (rest : List Char) :
    bareTokens (p.code ++ rest) = .literal p.text :: bareTokens rest := by
  have hquote : ∀ cs : List Char, ∀ c ∈ ('"' :: cs).head?, isWordChar false c = false := by
    rintro cs c hc
    obtain rfl : '"' = c := Option.some.inj hc
    decide
  cases p with
  | plain encoding? text =>
    rw [code, List.append_assoc, List.cons_append, List.append_assoc, List.singleton_append]
    cases encoding? with
    | none => exact bareTokens_literal text rest
    | some encoding =>
      obtain ⟨name, hname⟩ := encoding
      have hisName : ∀ s ∈ encodings, isIdentifier s.toList = true := by decide
      rw [Option.elim_some, bareTokens, lexemes_identifier (hisName name hname) (hquote _),
        cutWord_encoding (by rwa [String.ofList_toList])]
      exact bareTokens_literal text rest
  | raw mark delimiter text hopening hclosing hopen =>
    obtain ⟨name, hname⟩ := mark
    have hisName : ∀ s ∈ rawMarks, isIdentifier s.toList = true := by decide
    simp only [code, List.append_assoc, List.cons_append]
    rw [bareTokens, lexemes_identifier (hisName name hname) (hquote _),
      cutWord_raw (by rwa [String.ofList_toList]) hopening hclosing hopen, List.flatMap_cons,
      Lexeme.tokens, String.ofList_toList, List.singleton_append]
    rfl

end Piece

/-- The texts of an argument that is nothing but literals and notes. -/
def literalTexts? : List Token → Option (List String)
  | [] => some []
  | .note _ :: ts => literalTexts? ts
  | .literal text :: ts => (literalTexts? ts).map (text :: ·)
  | _ => none

theorem literalText?_eq (argument : List Token) :
    literalText? argument = (literalTexts? argument).bind fun texts =>
      if texts.isEmpty then none else some (String.join texts) := by
  unfold literalText?
  simp only
  congr 1
  induction argument with
  | nil => rfl
  | cons t ts ih =>
    cases t with
    | note text => exact ih
    | literal text =>
      rw [literalTexts?, List.filter_cons_of_pos rfl, List.mapM_cons, ih]
      cases literalTexts? ts <;> rfl
    | _ =>
      rw [List.filter_cons_of_pos rfl, List.mapM_cons]
      rfl

theorem literalTexts?_map_literal (texts : List String) :
    literalTexts? (texts.map .literal) = some texts := by
  induction texts with
  | nil => rfl
  | cons text texts ih =>
    rw [List.map_cons, literalTexts?, ih]
    rfl

/-- A text as an argument: pieces, each with what is before it, and what is behind the last. -/
structure Literals where
  pieces : List (List Filler × Piece)
  pieces_ne_nil : pieces ≠ []
  behind : List Filler

namespace Literals

/-- The texts of the pieces. -/
def texts (ls : Literals) : List String :=
  ls.pieces.map fun p => p.2.text

/-- The text that an argument stands for. -/
def text (ls : Literals) : String :=
  String.join ls.texts

/-- The code that an argument is. -/
def code (ls : Literals) : List Char :=
  (ls.pieces.flatMap fun p => p.1.flatMap Filler.code ++ p.2.code) ++
    ls.behind.flatMap Filler.code

/-- The tokens of an argument. -/
def tokens (ls : Literals) : List Token :=
  ls.texts.map .literal

theorem bareTokens_pieces (pieces : List (List Filler × Piece)) (rest : List Char) :
    bareTokens ((pieces.flatMap fun p => p.1.flatMap Filler.code ++ p.2.code) ++ rest) =
      (pieces.map fun p => p.2.text).map .literal ++ bareTokens rest := by
  induction pieces with
  | nil => rfl
  | cons p pieces ih =>
    rw [List.flatMap_cons, List.append_assoc, List.append_assoc, bareTokens_fillers,
      p.2.bareTokens_append, ih]
    rfl

/-- The tokens of an argument are its pieces. -/
theorem bareTokens_append (ls : Literals) (rest : List Char) :
    bareTokens (ls.code ++ rest) = ls.tokens ++ bareTokens rest := by
  rw [code, List.append_assoc, bareTokens_pieces, bareTokens_fillers, tokens, texts]

theorem texts_ne_nil (ls : Literals) : ls.texts ≠ [] :=
  mt List.map_eq_nil_iff.1 ls.pieces_ne_nil

/-- The text of an argument is that of all its pieces. -/
theorem literalText?_tokens (ls : Literals) : literalText? ls.tokens = some ls.text := by
  rw [literalText?_eq, tokens, literalTexts?_map_literal, Option.bind_some,
    if_neg (by simpa using ls.texts_ne_nil), text]

end Literals

/-! ## Arguments -/

/-- No text ends an argument. -/
theorem arguments_literals (texts : List String) (argument rest : List Token) :
    arguments 0 argument (texts.map .literal ++ rest) =
      arguments 0 ((texts.map .literal).reverse ++ argument) rest := by
  induction texts generalizing argument with
  | nil => rfl
  | cons text texts ih =>
    rw [List.map_cons, List.cons_append, List.reverse_cons, List.append_assoc,
      List.singleton_append, ← ih]
    rfl

theorem Literals.arguments_comma (ls : Literals) (rest : List Token) :
    arguments 0 [] (ls.tokens ++ .comma :: rest) = ls.tokens :: arguments 0 [] rest := by
  rw [tokens, arguments_literals, List.append_nil, arguments, List.reverse_reverse]

theorem Literals.arguments_closing (ls : Literals) (rest : List Token) :
    arguments 0 [] (ls.tokens ++ .closing :: rest) = [ls.tokens] := by
  have htokens : ¬ (ls.texts.map Token.literal).reverse.isEmpty = true := by
    simpa using ls.texts_ne_nil
  rw [tokens, arguments_literals, List.append_nil, arguments, lastArgument, if_neg htokens,
    List.reverse_reverse]

/-- An argument that has been begun is an argument. -/
theorem arguments_ne_nil (depth : Nat) {argument : List Token} (h : argument ≠ [])
    (rest : List Token) : arguments depth argument rest ≠ [] := by
  have hlast : ∀ {argument : List Token}, argument ≠ [] → lastArgument argument ≠ [] := by
    intro argument hne
    cases argument with
    | nil => exact absurd rfl hne
    | cons => exact List.cons_ne_nil _ _
  induction rest generalizing depth argument with
  | nil =>
    rw [arguments]
    exact hlast h
  | cons t rest ih =>
    cases t with
    | closing =>
      cases depth with
      | zero => exact hlast h
      | succ depth => exact ih depth (List.cons_ne_nil _ _)
    | comma =>
      cases depth with
      | zero => exact List.cons_ne_nil _ _
      | succ depth => exact ih (depth + 1) (List.cons_ne_nil _ _)
    | opening => exact ih (depth + 1) (List.cons_ne_nil _ _)
    | _ => cases depth <;> exact ih _ (List.cons_ne_nil _ _)

/-- A part of the code of an argument that is no text. -/
inductive Part where
  | filler (f : Filler)
  | identifier (name : Identifier)
  | comma
  | opening
  | closing

namespace Part

/-- The code that a part is. -/
def code : Part → List Char
  | .filler f => f.code
  | .identifier name => name.text.toList
  | .comma => [',']
  | .opening => ['(']
  | .closing => [')']

/-- The tokens that a part is, one at most. -/
def tokens : Part → List Token
  | .filler _ => []
  | .identifier name => [.word name.text]
  | .comma => [.comma]
  | .opening => [.opening]
  | .closing => [.closing]

/-- Whether a part is a name. -/
def isIdentifier : Part → Bool
  | .identifier _ => true
  | _ => false

/-- Whether all parentheses among parts are closed, some number of them being open before. -/
def areBalanced : Nat → List Part → Bool
  | depth, [] => depth == 0
  | depth, .opening :: rest => areBalanced (depth + 1) rest
  | 0, .closing :: _ => false
  | depth + 1, .closing :: rest => areBalanced depth rest
  | depth, _ :: rest => areBalanced depth rest

/-- No word goes on in a part that is no name. -/
theorem endsWord_append {part : Part} (h : part.isIdentifier = false) (rest : List Char) :
    EndsWord (part.code ++ rest) := by
  cases part with
  | filler f =>
    cases f with
    | blank c hblank =>
      refine endsWord_cons (isWordChar_of_isBlank hblank) ?_ rest
      rintro rfl
      exact absurd hblank (by decide)
    | blockComment text => exact endsWord_cons (by decide) (by decide) _
    | lineComment text => exact endsWord_cons (by decide) (by decide) _
  | identifier name => cases h
  | comma => exact endsWord_cons (by decide) (by decide) rest
  | opening => exact endsWord_cons (by decide) (by decide) rest
  | closing => exact endsWord_cons (by decide) (by decide) rest

/-- A part is its token, if names do not run into other names. -/
theorem bareTokens_append (part : Part) {rest : List Char}
    (h : part.isIdentifier = true → EndsWord rest) :
    bareTokens (part.code ++ rest) = part.tokens ++ bareTokens rest := by
  cases part with
  | filler f =>
    have hfiller := bareTokens_fillers [f] rest
    rwa [List.flatMap_singleton] at hfiller
  | identifier name => exact name.bareTokens_append (h rfl)
  | comma => exact bareTokens_cut (cut_mark (by decide) rest)
  | opening => exact bareTokens_cut (cut_mark (by decide) rest)
  | closing => exact bareTokens_cut (cut_mark (by decide) rest)

/-- Parts are their tokens, if something is between names. -/
theorem bareTokens_flatMap {parts : List Part}
    (h : parts.IsChain fun a b => a.isIdentifier = true → b.isIdentifier = false)
    {rest : List Char} (hrest : EndsWord rest) :
    bareTokens (parts.flatMap code ++ rest) = parts.flatMap tokens ++ bareTokens rest := by
  induction parts with
  | nil => rfl
  | cons part parts ih =>
    have hnext : part.isIdentifier = true → EndsWord (parts.flatMap code ++ rest) := by
      intro hpart
      cases parts with
      | nil => exact hrest
      | cons next parts =>
        rw [List.flatMap_cons, List.append_assoc]
        exact endsWord_append ((List.isChain_cons_cons.1 h).1 hpart) _
    rw [List.flatMap_cons, List.append_assoc, part.bareTokens_append hnext, ih h.tail,
      List.flatMap_cons, List.append_assoc]

/-- Balanced parts do not begin with a closing parenthesis. -/
theorem head?_tokens_of_areBalanced {parts : List Part} (h : areBalanced 0 parts = true) :
    (parts.flatMap tokens).head? ≠ some .closing := by
  induction parts with
  | nil => exact nofun
  | cons part parts ih =>
    cases part with
    | filler f => exact ih h
    | closing => cases h
    | _ => exact nofun

end Part

/-- An argument that is no text.  Names stand apart, parentheses are closed, there is a token at
least, and no name asks for a message. -/
structure Extra where
  parts : List Part
  separated : parts.IsChain fun a b => a.isIdentifier = true → b.isIdentifier = false
  balanced : Part.areBalanced 0 parts = true
  tokens_ne_nil : parts.flatMap Part.tokens ≠ []
  noCalls : ∀ name, Part.identifier name ∈ parts → Asking.ofName? name.text = none

namespace Extra

/-- The code that an argument is. -/
def code (extra : Extra) : List Char :=
  extra.parts.flatMap Part.code

/-- The tokens of an argument. -/
def tokens (extra : Extra) : List Token :=
  extra.parts.flatMap Part.tokens

theorem bareTokens_append (extra : Extra) {rest : List Char} (hrest : EndsWord rest) :
    bareTokens (extra.code ++ rest) = extra.tokens ++ bareTokens rest :=
  Part.bareTokens_flatMap extra.separated hrest

/-- Such an argument is at least one more argument of the call. -/
theorem arguments_ne_nil (extra : Extra) (rest : List Token) :
    arguments 0 [] (extra.tokens ++ rest) ≠ [] := by
  have hhead : extra.tokens.head? ≠ some .closing :=
    Part.head?_tokens_of_areBalanced extra.balanced
  cases htokens : extra.tokens with
  | nil => exact absurd htokens extra.tokens_ne_nil
  | cons t ts =>
    rw [htokens] at hhead
    cases t with
    | closing => exact absurd rfl hhead
    | comma => exact List.cons_ne_nil _ _
    | opening => exact Code.arguments_ne_nil 1 (List.cons_ne_nil _ _) _
    | _ => exact Code.arguments_ne_nil 0 (List.cons_ne_nil _ _) _

/-- The names in such an argument ask for nothing. -/
theorem ofName?_tokens (extra : Extra) {name : String} (h : .word name ∈ extra.tokens) :
    Asking.ofName? name = none := by
  obtain ⟨part, hpart, htoken⟩ := List.mem_flatMap.1 h
  cases part with
  | identifier name' =>
    obtain rfl := Token.word.inj (List.mem_singleton.1 htoken)
    exact extra.noCalls name' hpart
  | filler f => cases htoken
  | _ => exact absurd (List.mem_singleton.1 htoken) nofun

end Extra

/-! ## Calls -/

/-- A call as it is written: qualifier, source text, comment, and perhaps one more argument. -/
structure Spelling where
  qualifier : List Identifier
  source : Literals
  comment : Literals
  extra? : Option Extra

namespace Spelling

/-- The code of the arguments, from the source text on. -/
def argumentsCode (s : Spelling) : List Char :=
  s.source.code ++ ',' :: (s.comment.code ++
    ((s.extra?.elim [] fun extra => ',' :: extra.code) ++ [')']))

/-- The code of the call. -/
def code (s : Spelling) : List Char :=
  (s.qualifier.flatMap fun name => name.text.toList ++ [':', ':']) ++
    't' :: 'r' :: '(' :: s.argumentsCode

/-- The context of the call. -/
def context (defaultContext : String) (s : Spelling) : String :=
  if s.qualifier = [] then defaultContext
  else String.intercalate "::" (s.qualifier.map Identifier.text)

/-- The call that is meant. -/
def call (defaultContext : String) (s : Spelling) : Call where
  context := s.context defaultContext
  source := s.source.text
  comment? := if s.comment.text = "" then none else some s.comment.text
  note? := none
  isPlural := s.extra?.isSome
  line := 1

/-- The tokens of the arguments. -/
def argumentTokens (s : Spelling) : List Token :=
  s.source.tokens ++ .comma :: (s.comment.tokens ++
    ((s.extra?.elim [] fun extra => .comma :: extra.tokens) ++ [.closing]))

theorem bareTokens_argumentsCode (s : Spelling) :
    bareTokens s.argumentsCode = s.argumentTokens := by
  have hcomma : ∀ rest, bareTokens (',' :: rest) = .comma :: bareTokens rest := fun rest =>
    bareTokens_cut (cut_mark (by decide) rest)
  have hclosing : bareTokens [')'] = [.closing] := by
    rw [bareTokens_cut (cut_mark (by decide) []), bareTokens_nil]
    rfl
  have hextra : bareTokens ((s.extra?.elim [] fun extra => ',' :: extra.code) ++ [')']) =
      (s.extra?.elim [] fun extra => .comma :: extra.tokens) ++ [.closing] := by
    cases s.extra? with
    | none => exact hclosing
    | some extra =>
      rw [Option.elim_some, Option.elim_some, List.cons_append, hcomma,
        extra.bareTokens_append (endsWord_cons (by decide) (by decide) []), hclosing,
        List.cons_append]
  rw [argumentsCode, s.source.bareTokens_append, hcomma, s.comment.bareTokens_append, hextra,
    argumentTokens]

/-- **The arguments of the call** are the two texts, and more if there is more. -/
theorem arguments_argumentTokens (s : Spelling) :
    ∃ more, arguments 0 [] s.argumentTokens = s.source.tokens :: s.comment.tokens :: more ∧
      (more ≠ [] ↔ s.extra?.isSome = true) := by
  rw [argumentTokens, s.source.arguments_comma]
  cases s.extra? with
  | none => exact ⟨[], congrArg _ (s.comment.arguments_closing []), by decide⟩
  | some extra =>
    rw [Option.elim_some, List.cons_append, s.comment.arguments_comma]
    exact ⟨_, rfl, fun _ => rfl, fun _ => extra.arguments_ne_nil _⟩

/-! ## Before and behind the call -/

variable {defaultContext : String}

theorem lexemes_qualifier (names : List Identifier) (rest : List Char) :
    lexemes ((names.flatMap fun name => name.text.toList ++ [':', ':']) ++ rest) =
      (names.flatMap fun name => [.word name.text.toList, .scope]) ++ lexemes rest := by
  induction names with
  | nil => rfl
  | cons name names ih =>
    rw [List.flatMap_cons, List.append_assoc, List.append_assoc, List.cons_append,
      List.singleton_append,
      name.lexemes_append (endsWord_cons (c := ':') (by decide) (by decide) _),
      lexemes_of_cut (cut_scope _), ih]
    rfl

/-- A name with a scope mark behind it is no call, whatever name it is. -/
theorem callsFrom_qualifier (names : List Identifier) (line : Nat) (before : List Token)
    (ls : List Lexeme) :
    callsFrom defaultContext before []
        (locate line ((names.flatMap fun name => [.word name.text.toList, .scope]) ++ ls)) =
      callsFrom defaultContext
        ((names.flatMap fun name => [.word name.text, .scope]).reverse ++ before) []
        (locate line ls) := by
  have hnone : ∀ (before : List Token) name (rest : List Located),
      callAt? defaultContext before [] name line (⟨.scope, line⟩ :: rest) = none := by
    intro before name rest
    unfold callAt?
    cases Asking.ofName? name <;> rfl
  induction names generalizing before with
  | nil => rfl
  | cons name names ih =>
    have hlocate : ∀ ls, locate line (.word name.text.toList :: .scope :: ls) =
        ⟨.word name.text, line⟩ :: ⟨.scope, line⟩ :: locate line ls := by
      intro ls
      simp only [locate, Lexeme.tokens, Lexeme.lineEnds, String.ofList_toList]
      rfl
    simp only [List.flatMap_cons, List.cons_append, List.nil_append, hlocate, List.reverse_cons,
      List.append_assoc]
    rw [callsFrom, hnone]
    exact ih _

/-- The qualifier of a function, read back from the tokens before it, goes on with what is before
it. -/
theorem qualifierNames_reverse_append (names : List Identifier) (before : List Token) :
    qualifierNames ((names.flatMap fun name => [.word name.text, .scope]).reverse ++ before) =
      (names.map Identifier.text).reverse ++ qualifierNames before := by
  rw [List.reverse_flatMap, ← List.map_reverse]
  induction names.reverse with
  | nil => rfl
  | cons name names ih => exact congrArg (name.text :: ·) ih

/-- The qualifier of a function, read back from the tokens before it. -/
theorem qualifierNames_reverse (names : List Identifier) :
    qualifierNames ((names.flatMap fun name => [.word name.text, .scope]).reverse) =
      (names.map Identifier.text).reverse := by
  have hnil : qualifierNames [] = [] := rfl
  have hnames := qualifierNames_reverse_append names []
  rwa [hnil, List.append_nil, List.append_nil] at hnames

theorem context_eq (s : Spelling) : s.context defaultContext =
    (qualifier? (s.qualifier.flatMap fun name => [.word name.text, .scope]).reverse).getD
      defaultContext := by
  rw [qualifier?, qualifierNames_reverse, context]
  cases hnames : s.qualifier with
  | nil => rfl
  | cons name names =>
    rw [if_neg (List.cons_ne_nil _ _)]
    split
    · rename_i hnil
      simp at hnil
    · rw [List.reverse_reverse, Option.getD_some]

/-- Words that ask for nothing are no calls. -/
theorem callsFrom_eq_nil {ts : List Located}
    (h : ∀ t ∈ ts, ∀ name, t.token = .word name → Asking.ofName? name = none)
    (before : List Token) (notes : List String) :
    callsFrom defaultContext before notes ts = [] := by
  induction ts generalizing before notes with
  | nil => rfl
  | cons t ts ih =>
    obtain ⟨token, line⟩ := t
    obtain ⟨ht, hts⟩ := List.forall_mem_cons.1 h
    cases token with
    | word name =>
      have hnone : callAt? defaultContext before notes name line ts = none := by
        rw [callAt?, ht name rfl]
        rfl
      rw [callsFrom, hnone]
      exact ih hts _ _
    | _ => exact ih hts _ _

/-- The words among the arguments ask for nothing. -/
theorem ofName?_argumentTokens (s : Spelling) {name : String}
    (h : .word name ∈ s.argumentTokens) : Asking.ofName? name = none := by
  have htexts : ∀ ls : Literals, .word name ∉ ls.tokens := by
    intro ls hmem
    obtain ⟨text, -, htext⟩ := List.mem_map.1 hmem
    cases htext
  simp only [argumentTokens, List.mem_append, List.mem_cons, List.not_mem_nil, or_false,
    reduceCtorEq, false_or, htexts] at h
  cases hextra : s.extra? with
  | none =>
    rw [hextra] at h
    cases h
  | some extra =>
    rw [hextra, Option.elim_some] at h
    exact extra.ofName?_tokens ((List.mem_cons.1 h).resolve_left nofun)

/-- **A written call is found.** -/
theorem callAt?_spelling (s : Spelling) {after : List Located}
    (h : after.map Located.token = s.argumentTokens) :
    callAt? defaultContext (s.qualifier.flatMap fun name => [.word name.text, .scope]).reverse []
      "tr" 1 (⟨.opening, 1⟩ :: after) = some (s.call defaultContext) := by
  obtain ⟨more, harguments, hmore⟩ := s.arguments_argumentTokens
  have hname : Asking.ofName? "tr" = some .inClass := rfl
  have hplural : decide (3 ≤ (s.source.tokens :: s.comment.tokens :: more).length) =
      s.extra?.isSome := by
    rw [Bool.eq_iff_iff, ← hmore, decide_eq_true_iff, ← List.length_pos_iff, List.length_cons,
      List.length_cons]
    omega
  have hread : Asking.read? defaultContext
      (s.qualifier.flatMap fun name => [.word name.text, .scope]).reverse
      (s.source.tokens :: s.comment.tokens :: more) .inClass =
      some (s.context defaultContext, s.source.text, some s.comment.text, s.extra?.isSome) := by
    simp only [Asking.read?, Asking.read?.argument, List.getElem?_cons_zero,
      List.getElem?_cons_succ, Option.bind_some, Literals.literalText?_tokens, hplural,
      ← s.context_eq]
    rfl
  have hcomment : (some s.comment.text).filter (fun text => !text.isEmpty) =
      if s.comment.text = "" then none else some s.comment.text := by
    rw [Option.filter_some]
    by_cases htext : s.comment.text = ""
    · rw [if_pos htext, htext]
      rfl
    · rw [if_neg htext, if_pos (by simpa using htext)]
  rw [callAt?, hname]
  simp only [Option.bind_eq_bind, Option.bind_some, h, harguments, hread, hcomment]
  rfl

/-- **A written call is the only call.** -/
theorem calls_spelling (defaultContext : String) (s : Spelling) :
    calls defaultContext (String.ofList s.code) = [s.call defaultContext] := by
  have hhead : lexemes ('t' :: 'r' :: '(' :: s.argumentsCode) =
      .word ['t', 'r'] :: .mark '(' :: lexemes s.argumentsCode := by
    have hword := Identifier.lexemes_append ⟨"tr", by decide⟩
      (endsWord_cons (c := '(') (by decide) (by decide) s.argumentsCode)
    rwa [lexemes_of_cut (cut_mark (by decide) _)] at hword
  have htokens : (locate 1 (lexemes s.argumentsCode)).map Located.token = s.argumentTokens := by
    rw [map_token_locate, ← s.bareTokens_argumentsCode, bareTokens]
  have hlocate : locate 1 (.word ['t', 'r'] :: .mark '(' :: lexemes s.argumentsCode) =
      ⟨.word "tr", 1⟩ :: ⟨.opening, 1⟩ :: locate 1 (lexemes s.argumentsCode) := rfl
  rw [calls_eq, String.toList_ofList, code, lexemes_qualifier, callsFrom_qualifier,
    List.append_nil, hhead, hlocate, callsFrom, s.callAt?_spelling htokens]
  refine congrArg (s.call defaultContext :: ·) (callsFrom_eq_nil ?_ _ _)
  intro t ht name hname
  rcases List.mem_cons.1 ht with rfl | ht
  · cases hname
  · refine s.ofName?_argumentTokens ?_
    rw [← htokens, ← hname]
    exact List.mem_map_of_mem ht

end Spelling

end Code

namespace Collection

/-- **Every spelling of a call makes the same message,** and no other. -/
theorem ofFiles_spelling (defaultContext file : String) (s : Code.Spelling) :
    Code.calls defaultContext (String.ofList s.code) = [s.call defaultContext] ∧
    (ofFiles defaultContext [(file, String.ofList s.code)]).contexts =
      [{ name := s.context defaultContext
         messages := [{ source := s.source.text
                        comment? := if s.comment.text = "" then none else some s.comment.text
                        isPlural := s.extra?.isSome
                        places := [.inFile file 1] }] }] := by
  have hcalls := Code.Spelling.calls_spelling defaultContext s
  refine ⟨hcalls, ?_⟩
  show ((Code.calls defaultContext (String.ofList s.code)).foldl (addCall file) .empty).contexts = _
  rw [hcalls]
  rfl

/-- The qualifier `Menu::File`. -/
def menuFile : List Code.Identifier :=
  [⟨"Menu", by decide⟩, ⟨"File", by decide⟩]

/-- A call with a qualifier, its source text in two pieces with a comment between them, and a
number. -/
def openFile : Code.Spelling where
  qualifier := menuFile
  source := {
    pieces := [
      ([], .plain (some ⟨"u8", by decide⟩) "Op"),
      ([.blank ' ' (by decide), .blockComment " tr ".toList (by decide), .blank ' ' (by decide)],
        .raw ⟨"R", by decide⟩ ['x'] "en\n" (by decide) (by decide) (by decide))]
    pieces_ne_nil := List.cons_ne_nil _ _
    behind := [] }
  comment := {
    pieces := [([.blank ' ' (by decide)], .plain none "verb")]
    pieces_ne_nil := List.cons_ne_nil _ _
    behind := [] }
  extra? := some {
    parts := [.filler (.blank ' ' (by decide)), .identifier ⟨"f", by decide⟩, .opening,
      .identifier ⟨"n", by decide⟩, .closing]
    separated := by decide
    balanced := by decide
    tokens_ne_nil := List.cons_ne_nil _ _
    noCalls := by
      intro name h
      have hname : name = ⟨"f", by decide⟩ ∨ name = ⟨"n", by decide⟩ := by simpa using h
      rcases hname with rfl | rfl <;> rfl }

theorem openFile_is_found :
    String.ofList openFile.code =
        "Menu::File::tr(u8\"Op\" /* tr */ R\"x(en\n)x\", \"verb\", f(n))" ∧
      Code.calls "Main" (String.ofList openFile.code) =
        [⟨"Menu::File", "Open\n", some "verb", none, true, 1⟩] ∧
      (ofFiles "Main" [("menu.cpp", String.ofList openFile.code)]).contexts =
        [{ name := "Menu::File"
           messages := [{ source := "Open\n", comment? := some "verb", isPlural := true
                          places := [.inFile "menu.cpp" 1] }] }] := by
  obtain ⟨hcalls, hcontexts⟩ := ofFiles_spelling "Main" "menu.cpp" openFile
  exact ⟨by decide, hcalls, hcontexts⟩

end Collection
end Linguist
