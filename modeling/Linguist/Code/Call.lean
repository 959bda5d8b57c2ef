import Linguist.Code.Token

/-!
# Calls that ask for a message

A program asks for a message by calling one of a few functions with literal
arguments.  The functions differ in where the context comes from and in what makes
a message plural; what they have in common is that a source text which is not
written out as literals is passed over.

## Context

A function that is a member of a class takes the class as its context: the names
and scope marks right before it, read backwards as far as they alternate.  Without
such a qualifier a default stands in.

## Notes

Notes are collected until the next call that is found, and go to it, whether they
stand before it or among the arguments of one that was passed over.
-/

namespace Linguist
namespace Code

/-- A kind of function that asks for a message. -/
inductive Asking where
  | inClass
  | inContext
  | mark (isPlural : Bool)
  | markInContext (isPlural : Bool)
  deriving DecidableEq, Repr

/-- The kind of a function by its name. -/
def Asking.ofName? : String → Option Asking
  | "tr" | "trUtf8" => some .inClass
  | "translate" => some .inContext
  | "QT_TR_NOOP" | "QT_TR_NOOP_UTF8" => some (.mark false)
  | "QT_TR_N_NOOP" => some (.mark true)
  | "QT_TRANSLATE_NOOP" | "QT_TRANSLATE_NOOP_UTF8" | "QT_TRANSLATE_NOOP3"
  | "QT_TRANSLATE_NOOP3_UTF8" => some (.markInContext false)
  | "QT_TRANSLATE_N_NOOP" | "QT_TRANSLATE_N_NOOP3" => some (.markInContext true)
  | _ => none

/-- A call that asks for a message. -/
structure Call where
  context : String
  source : String
  comment? : Option String
  note? : Option String
  isPlural : Bool
  line : Nat
  deriving DecidableEq, Repr

/-- An argument, unless it is empty, as the last one of a call. -/
def lastArgument (argument : List Token) : List (List Token) :=
  if argument.isEmpty then [] else [argument.reverse]

/-- The arguments of a call, its opening parenthesis being read already; `depth`
counts the parentheses open inside an argument, whose tokens so far come last
first.  A call without its closing parenthesis runs to the end. -/
def arguments : Nat → List Token → List Token → List (List Token)
  | _, argument, [] => lastArgument argument
  | depth, argument, .opening :: rest => arguments (depth + 1) (.opening :: argument) rest
  | 0, argument, .closing :: _ => lastArgument argument
  | depth + 1, argument, .closing :: rest => arguments depth (.closing :: argument) rest
  | 0, argument, .comma :: rest => argument.reverse :: arguments 0 [] rest
  | depth, argument, token :: rest => arguments depth (token :: argument) rest

/-- The text of an argument that is nothing but literals, at least one. -/
def literalText? (argument : List Token) : Option String :=
  let texts? := (argument.filter fun
    | .note _ => false
    | _ => true).mapM fun
      | .literal s => some s
      | _ => none
  texts?.bind fun texts => if texts.isEmpty then none else some (String.join texts)

/-- The names that qualify a function, given the tokens before it, last first. -/
def qualifierNames : List Token → List String
  | .scope :: .word name :: rest => name :: qualifierNames rest
  | _ => []

/-- The qualifier of a function, given the tokens before it, last first. -/
def qualifier? (before : List Token) : Option String :=
  match qualifierNames before with
  | [] => none
  | names => some (String.intercalate "::" names.reverse)

/-- What a call asks for: context, source, comment and whether it is plural. -/
def Asking.read? (defaultContext : String) (before : List Token) (args : List (List Token)) :
    Asking → Option (String × String × Option String × Bool)
  | .inClass => do
    let source ← argument 0
    return ((qualifier? before).getD defaultContext, source, argument 1, 3 ≤ args.length)
  | .inContext => do
    return (← argument 0, ← argument 1, argument 2, 4 ≤ args.length)
  | .mark isPlural => do
    return (defaultContext, ← argument 0, none, isPlural)
  | .markInContext isPlural => do
    return (← argument 0, ← argument 1, argument 2, isPlural)
where
  /-- The text of an argument that consists of literals. -/
  argument (n : Nat) : Option String :=
    args[n]?.bind literalText?

/-- The notes as one text. -/
def joinNotes? (notes : List String) : Option String :=
  if notes.isEmpty then none else some (String.intercalate " " notes)

/-- The call that begins with a word, given the tokens before and after it and the
notes that wait for a call. -/
def callAt? (defaultContext : String) (before : List Token) (notes : List String)
    (name : String) (line : Nat) (after : List Located) : Option Call := do
  let asking ← Asking.ofName? name
  let ⟨.opening, _⟩ :: rest := after | none
  let (context, source, comment?, isPlural) ←
    asking.read? defaultContext before (arguments 0 [] (rest.map (·.token)))
  return {
    context
    source
    comment? := comment?.filter fun s => !s.isEmpty
    note? := joinNotes? notes
    isPlural
    line }

/-- The calls among tokens, given the tokens before them, last first, and the
notes that wait for a call. -/
def callsFrom (defaultContext : String) : List Token → List String → List Located → List Call
  | _, _, [] => []
  | before, notes, ⟨token, line⟩ :: rest =>
    match token with
    | .note text => callsFrom defaultContext (token :: before) (notes ++ [text]) rest
    | .word name =>
      match callAt? defaultContext before notes name line rest with
      | some call => call :: callsFrom defaultContext (token :: before) [] rest
      | none => callsFrom defaultContext (token :: before) notes rest
    | _ => callsFrom defaultContext (token :: before) notes rest

/-- The calls in a source file that ask for a message. -/
def calls (defaultContext : String) (code : String) : List Call :=
  callsFrom defaultContext [] [] (tokens code)

end Code
end Linguist
