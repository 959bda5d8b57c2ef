import Linguist.Proofs.Code.Returns
import Linguist.Proofs.Code.Spelling
import Linguist.Proofs.Collection.Grouping

/-!
# Line ends do not matter

In code with carriage returns the tokens are on the same lines, and differ from those of the code
without them in nothing but carriage returns in texts.  So do the calls, since nothing that
decides whether there is a call looks into a text (`callsFrom_withoutReturns`).  Only a comment
that is empty is none at all, and may have been a carriage return before.

If no literal takes a carriage return into its text (`takesReturns`), the tokens are the same,
and so are the messages (`ofFiles_withReturns`).
-/

namespace Linguist
namespace Code

/-! ## Texts but for carriage returns -/

/-- A text without its carriage returns. -/
def withoutReturns (s : String) : String :=
  String.ofList (s.toList.filter (· != '\r'))

theorem withoutReturns_append (s t : String) :
    withoutReturns (s ++ t) = withoutReturns s ++ withoutReturns t := by
  rw [withoutReturns, String.toList_append, List.filter_append, String.ofList_append]
  rfl

theorem withoutReturns_join (texts : List String) :
    withoutReturns (String.join texts) = String.join (texts.map withoutReturns) := by
  induction texts with
  | nil => rfl
  | cons text texts ih =>
    rw [String.join_cons, withoutReturns_append, ih, List.map_cons, String.join_cons]

@[simp] theorem withoutReturns_withoutReturns (s : String) :
    withoutReturns (withoutReturns s) = withoutReturns s := by
  rw [withoutReturns, withoutReturns, String.toList_ofList, List.filter_filter]
  simp only [Bool.and_self]

theorem withoutReturns_withReturns (cs : List Char) :
    withoutReturns (String.ofList (withReturns cs)) = withoutReturns (String.ofList cs) := by
  rw [withoutReturns, withoutReturns, String.toList_ofList, String.toList_ofList]
  refine congrArg String.ofList ?_
  induction cs with
  | nil => rfl
  | cons c cs ih =>
    by_cases hc : c = '\n'
    · rw [hc, withReturns_newline]
      exact congrArg ('\n' :: ·) ih
    · rw [withReturns_cons hc, List.filter_cons, List.filter_cons, ih]

/-- A token without the carriage returns of its text. -/
def Token.withoutReturns : Token → Token
  | .literal text => .literal (Code.withoutReturns text)
  | t => t

/-- A token without the carriage returns of its text, on its line. -/
def Located.withoutReturns (t : Located) : Located :=
  { t with token := t.token.withoutReturns }

/-- A call without the carriage returns of its texts.  A comment of nothing else is none. -/
def Call.withoutReturns (call : Call) : Call :=
  { call with
    context := Code.withoutReturns call.context
    source := Code.withoutReturns call.source
    comment? := (call.comment?.map Code.withoutReturns).filter fun s => !s.isEmpty }

theorem returnTokens_withoutReturns (l : Lexeme) (isLast : Bool) :
    (l.returnTokens isLast).map Token.withoutReturns = l.tokens.map Token.withoutReturns := by
  cases l with
  | literal body isClosed =>
    have htext : withoutReturns (String.ofList
        (decodeBody body ++ if isClosed || isLast then [] else ['\r'])) =
        withoutReturns (String.ofList (decodeBody body)) := by
      rw [String.ofList_append, withoutReturns_append]
      split <;> exact String.append_empty
    exact congrArg (fun text => [Token.literal text]) htext
  | rawLiteral head opening body closing =>
    exact congrArg (fun text => [Token.literal text]) (withoutReturns_withReturns body)
  | _ => rfl

/-- But for carriage returns the tokens are the same, and on the same lines. -/
theorem locateReturns_withoutReturns (line : Nat) (ls : List Lexeme) :
    (locateReturns line ls).map Located.withoutReturns =
      (locate line ls).map Located.withoutReturns := by
  have hlocated : ∀ (line : Nat) (ts : List Token),
      (ts.map (⟨·, line⟩ : Token → Located)).map Located.withoutReturns =
        (ts.map Token.withoutReturns).map (⟨·, line⟩) := by
    intro line ts
    rw [List.map_map, List.map_map]
    rfl
  induction ls generalizing line with
  | nil => rfl
  | cons l ls ih =>
    rw [locateReturns, locate, List.map_append, List.map_append, ih, hlocated, hlocated,
      returnTokens_withoutReturns]

/-! ### What is read from tokens -/

theorem literalText?_withoutReturns (argument : List Token) :
    literalText? (argument.map Token.withoutReturns) =
      (literalText? argument).map withoutReturns := by
  have htexts : ∀ ts, literalTexts? (ts.map Token.withoutReturns) =
      (literalTexts? ts).map (List.map withoutReturns) := by
    intro ts
    fun_induction literalTexts? ts with
    | case1 => rfl
    | case2 text ts ih => exact ih
    | case3 text ts ih =>
      rw [List.map_cons, Token.withoutReturns, literalTexts?, ih, Option.map_map, Option.map_map]
      rfl
    | case4 ts hnil hnote hliteral =>
      cases ts with
      | nil => exact (hnil rfl).elim
      | cons t ts =>
        cases t with
        | note text => exact (hnote text ts rfl).elim
        | literal text => exact (hliteral text ts rfl).elim
        | _ => rfl
  rw [literalText?_eq, literalText?_eq, htexts]
  cases literalTexts? argument with
  | none => rfl
  | some texts =>
    cases texts with
    | nil => rfl
    | cons text texts => exact congrArg some (withoutReturns_join (text :: texts)).symm

theorem arguments_withoutReturns (depth : Nat) (argument ts : List Token) :
    arguments depth (argument.map Token.withoutReturns) (ts.map Token.withoutReturns) =
      (arguments depth argument ts).map (List.map Token.withoutReturns) := by
  have hlast : ∀ argument : List Token, lastArgument (argument.map Token.withoutReturns) =
      (lastArgument argument).map (List.map Token.withoutReturns) := by
    intro argument
    cases argument with
    | nil => rfl
    | cons t ts =>
      rw [lastArgument, lastArgument, ← List.map_reverse]
      rfl
  fun_induction arguments depth argument ts with
  | case1 depth argument => rw [List.map_nil, arguments, hlast]
  | case2 depth argument rest ih => exact ih
  | case3 argument rest => exact hlast argument
  | case4 depth argument rest ih => exact ih
  | case5 argument rest ih =>
    exact congrArg₂ List.cons List.map_reverse.symm ih
  | case6 depth argument token rest hopening hclosing hclosing' hcomma ih =>
    cases token with
    | opening => exact (hopening rfl).elim
    | closing =>
      cases depth with
      | zero => exact (hclosing rfl rfl).elim
      | succ depth => exact (hclosing' depth rfl rfl).elim
    | comma =>
      cases depth with
      | zero => exact (hcomma rfl rfl).elim
      | succ depth => exact ih
    | _ => cases depth <;> exact ih

theorem qualifierNames_withoutReturns (before : List Token) :
    qualifierNames (before.map Token.withoutReturns) = qualifierNames before := by
  fun_induction qualifierNames before with
  | case1 name rest ih => exact congrArg (name :: ·) ih
  | case2 before hscope =>
    rcases before with _ | ⟨a, _ | ⟨b, rest⟩⟩
    · rfl
    · cases a <;> rfl
    · cases a with
      | scope =>
        cases b with
        | word name => exact (hscope name rest rfl).elim
        | _ => rfl
      | _ => rfl

/-- A comment that is empty anyway need not be left out before. -/
theorem filter_map_filter (comment? : Option String) :
    ((comment?.filter fun s => !s.isEmpty).map withoutReturns).filter (fun s => !s.isEmpty) =
      (comment?.map withoutReturns).filter fun s => !s.isEmpty := by
  cases comment? with
  | none => rfl
  | some s =>
    by_cases hs : s = ""
    · rw [hs]
      rfl
    · rw [Option.filter_some_pos (by simpa using hs)]

/-- What a call asks for, without carriage returns. -/
def askedWithoutReturns : String × String × Option String × Bool →
    String × String × Option String × Bool
  | (context, source, comment?, isPlural) =>
    (withoutReturns context, withoutReturns source, comment?.map withoutReturns, isPlural)

theorem read?_withoutReturns (defaultContext : String) (asking : Asking) (before : List Token)
    (args : List (List Token)) :
    (asking.read? defaultContext (before.map Token.withoutReturns)
        (args.map (List.map Token.withoutReturns))).map askedWithoutReturns =
      (asking.read? defaultContext before args).map askedWithoutReturns := by
  have hargument : ∀ n, Asking.read?.argument (args.map (List.map Token.withoutReturns)) n =
      (Asking.read?.argument args n).map withoutReturns := by
    intro n
    rw [Asking.read?.argument, Asking.read?.argument, List.getElem?_map]
    cases args[n]? with
    | none => rfl
    | some argument => exact literalText?_withoutReturns argument
  have hqualifier : qualifier? (before.map Token.withoutReturns) = qualifier? before := by
    rw [qualifier?, qualifier?, qualifierNames_withoutReturns]
  cases asking with
  | inClass =>
    simp only [Asking.read?, hargument, hqualifier, List.length_map]
    cases Asking.read?.argument args 0 with
    | none => rfl
    | some source => simp [askedWithoutReturns, Function.comp_def]
  | inContext =>
    simp only [Asking.read?, hargument, List.length_map]
    cases Asking.read?.argument args 0 with
    | none => rfl
    | some context =>
      cases Asking.read?.argument args 1 with
      | none => rfl
      | some source => simp [askedWithoutReturns, Function.comp_def]
  | mark isPlural =>
    simp only [Asking.read?, hargument]
    cases Asking.read?.argument args 0 with
    | none => rfl
    | some source => simp [askedWithoutReturns]
  | markInContext isPlural =>
    simp only [Asking.read?, hargument]
    cases Asking.read?.argument args 0 with
    | none => rfl
    | some context =>
      cases Asking.read?.argument args 1 with
      | none => rfl
      | some source => simp [askedWithoutReturns, Function.comp_def]

theorem callAt?_withoutReturns (defaultContext : String) (before : List Token)
    (notes : List String) (name : String) (line : Nat) (after : List Located) :
    (callAt? defaultContext (before.map Token.withoutReturns) notes name line
        (after.map Located.withoutReturns)).map Call.withoutReturns =
      (callAt? defaultContext before notes name line after).map Call.withoutReturns := by
  unfold callAt?
  cases Asking.ofName? name with
  | none => rfl
  | some asking =>
    cases after with
    | nil => rfl
    | cons t rest =>
      obtain ⟨token, tokenLine⟩ := t
      cases token with
      | opening =>
        have htokens : (rest.map Located.withoutReturns).map Located.token =
            (rest.map Located.token).map Token.withoutReturns := by
          rw [List.map_map, List.map_map]
          rfl
        have hread := read?_withoutReturns defaultContext asking before
          (arguments 0 [] (rest.map Located.token))
        rw [← arguments_withoutReturns, ← htokens, List.map_nil] at hread
        simp only [List.map_cons, Located.withoutReturns, Token.withoutReturns,
          Option.bind_eq_bind, Option.bind_some]
        cases horiginal : asking.read? defaultContext before
            (arguments 0 [] (rest.map Located.token)) with
        | none =>
          rw [horiginal, Option.map_none, Option.map_eq_none_iff] at hread
          rw [hread]
        | some asked =>
          rw [horiginal, Option.map_some, Option.map_eq_some_iff] at hread
          obtain ⟨asked', hread, hasked⟩ := hread
          rw [hread]
          simp only [askedWithoutReturns, Prod.mk.injEq] at hasked
          obtain ⟨hcontext, hsource, hcomment, hplural⟩ := hasked
          refine congrArg some ?_
          simp only [Call.withoutReturns, hcontext, hsource, hplural, filter_map_filter, hcomment]
      | _ => rfl

/-- **Calls that are read from tokens without carriage returns** are the same but for carriage
returns. -/
theorem callsFrom_withoutReturns (defaultContext : String) (before : List Token)
    (notes : List String) (ts : List Located) :
    (callsFrom defaultContext (before.map Token.withoutReturns) notes
        (ts.map Located.withoutReturns)).map Call.withoutReturns =
      (callsFrom defaultContext before notes ts).map Call.withoutReturns := by
  induction ts generalizing before notes with
  | nil => rfl
  | cons t ts ih =>
    obtain ⟨token, line⟩ := t
    cases token with
    | word name =>
      have hcall := callAt?_withoutReturns defaultContext before notes name line ts
      rw [List.map_cons]
      simp only [Located.withoutReturns, Token.withoutReturns, callsFrom]
      cases hfound : callAt? defaultContext before notes name line ts with
      | none =>
        rw [hfound, Option.map_none, Option.map_eq_none_iff] at hcall
        rw [hcall]
        exact ih (.word name :: before) notes
      | some call =>
        rw [hfound, Option.map_some, Option.map_eq_some_iff] at hcall
        obtain ⟨call', hfound', hcall⟩ := hcall
        rw [hfound']
        exact congrArg₂ List.cons hcall (ih (.word name :: before) [])
    | note text => exact ih (.note text :: before) (notes ++ [text])
    | _ => exact ih (_ :: before) notes

/-! ## Calls -/

theorem tokens_withReturns {code : String}
    (h : ∀ l ∈ lexemes code.toList, l.isSpliced = false) :
    tokens (String.ofList (withReturns code.toList)) = locateReturns 1 (lexemes code.toList) := by
  rw [tokens, String.toList_ofList, tokensFrom_withReturns 1 h]

/-- **But for carriage returns the calls are the same,** and on the same lines. -/
theorem calls_withReturns (defaultContext : String) {code : String}
    (h : ∀ l ∈ lexemes code.toList, l.isSpliced = false) :
    (calls defaultContext (String.ofList (withReturns code.toList))).map Call.withoutReturns =
      (calls defaultContext code).map Call.withoutReturns := by
  rw [calls, tokens_withReturns h, ← callsFrom_withoutReturns, locateReturns_withoutReturns,
    callsFrom_withoutReturns, ← calls_eq]

/-- Whether a lexeme is a literal whose text has one carriage return more for a line end: a raw
literal of several lines, or a literal that is cut off at the end of its line. -/
def Lexeme.takesReturn (isLast : Bool) : Lexeme → Bool
  | .literal _ isClosed => !(isClosed || isLast)
  | .rawLiteral _ _ body _ => body.contains '\n'
  | _ => false

/-- Whether some lexeme is such a literal. -/
def takesReturns : List Lexeme → Bool
  | [] => false
  | l :: ls => l.takesReturn ls.isEmpty || takesReturns ls

theorem returnTokens_of_takesReturn {l : Lexeme} {isLast : Bool}
    (h : l.takesReturn isLast = false) : l.returnTokens isLast = l.tokens := by
  cases l with
  | literal body isClosed =>
    rw [Lexeme.takesReturn, Bool.not_eq_false'] at h
    rw [Lexeme.returnTokens, if_pos h, List.append_nil]
    rfl
  | rawLiteral head opening body closing =>
    have hone : '\n' ∉ body := by simpa [Lexeme.takesReturn] using h
    rw [Lexeme.returnTokens, withReturns_of_notMem hone]
    rfl
  | _ => rfl

theorem locateReturns_of_takesReturns (line : Nat) {ls : List Lexeme}
    (h : takesReturns ls = false) : locateReturns line ls = locate line ls := by
  induction ls generalizing line with
  | nil => rfl
  | cons l ls ih =>
    rw [takesReturns, Bool.or_eq_false_iff] at h
    rw [locateReturns, locate, returnTokens_of_takesReturn h.1, ih _ h.2]

/-- Without such literals the calls are the same. -/
theorem calls_withReturns_eq (defaultContext : String) {code : String}
    (h : ∀ l ∈ lexemes code.toList, l.isSpliced = false)
    (htexts : takesReturns (lexemes code.toList) = false) :
    calls defaultContext (String.ofList (withReturns code.toList)) = calls defaultContext code := by
  rw [calls, tokens_withReturns h, locateReturns_of_takesReturns 1 htexts, ← calls_eq]

end Code

namespace Collection

open Code

/-- **Line ends do not matter where messages are collected,** except in literals.  Let no ordinary
literal and no character literal go on in the next line behind a backslash.  With a carriage
return before each line end, the tokens of every file are known, and its calls are the same but
for carriage returns in their texts.  The messages are the same if no raw literal has several
lines and no literal is cut off at the end of its line. -/
theorem ofFiles_withReturns (defaultContext : String) {files : List (String × String)}
    (hspliced : ∀ file ∈ files, ∀ l ∈ lexemes file.2.toList, l.isSpliced = false) :
    (∀ file ∈ files,
      tokens (String.ofList (withReturns file.2.toList)) =
          locateReturns 1 (lexemes file.2.toList) ∧
        (calls defaultContext (String.ofList (withReturns file.2.toList))).map
            Call.withoutReturns =
          (calls defaultContext file.2).map Call.withoutReturns) ∧
    ((∀ file ∈ files, takesReturns (lexemes file.2.toList) = false) →
      ofFiles defaultContext
          (files.map fun file => (file.1, String.ofList (withReturns file.2.toList))) =
        ofFiles defaultContext files) := by
  refine ⟨fun file hfile => ⟨tokens_withReturns (hspliced file hfile),
    calls_withReturns defaultContext (hspliced file hfile)⟩, fun htexts => ?_⟩
  rw [ofFiles_eq_foldl, ofFiles_eq_foldl]
  refine congrArg (List.foldl _ _) ?_
  rw [uses, uses, List.flatMap_map]
  refine List.flatMap_congr fun file hfile => ?_
  exact congrArg (List.map _)
    (calls_withReturns_eq defaultContext (hspliced file hfile) (htexts file hfile))

/-- A call in two lines behind a note. -/
theorem ofFiles_menu_withReturns :
    ofFiles "Main" [("menu.cpp", "//: Menu\r\ntr(\"Open\",\r\n  R\"(verb)\");\r\n")] =
      ofFiles "Main" [("menu.cpp", "//: Menu\ntr(\"Open\",\n  R\"(verb)\");\n")] := by
  have hcode : String.ofList (withReturns "//: Menu\ntr(\"Open\",\n  R\"(verb)\");\n".toList) =
      "//: Menu\r\ntr(\"Open\",\r\n  R\"(verb)\");\r\n" := by decide +kernel
  have hspliced : ∀ file ∈ [("menu.cpp", "//: Menu\ntr(\"Open\",\n  R\"(verb)\");\n")],
      ∀ l ∈ lexemes file.2.toList, l.isSpliced = false := by decide +kernel
  rw [← hcode]
  exact (ofFiles_withReturns "Main" hspliced).2 (by decide +kernel)

/-- A raw literal of several lines is a text with carriage returns. -/
theorem not_ofFiles_withReturns :
    ¬ ∀ (defaultContext : String) (files : List (String × String)),
      (∀ file ∈ files, '\r' ∉ file.2.toList) →
      ofFiles defaultContext
          (files.map fun file => (file.1, String.ofList (withReturns file.2.toList))) =
        ofFiles defaultContext files := by
  intro h
  have hraw := congrArg (fun c => c.contexts.map fun x => x.messages.map Message.source)
    (h "Main" [("menu.cpp", "tr(R\"(Open\nfile)\")")] (by decide +kernel))
  exact absurd hraw (by decide +kernel)

/-- A line that ends in a backslash is not joined to the next one, and the call is lost. -/
example : calls "Main" "tr(\"Open \\\nfile\")" =
      [⟨"Main", "Open file", none, none, false, 1⟩] ∧
    calls "Main" "tr(\"Open \\\r\nfile\")" = [] := by decide +kernel

end Collection
end Linguist
