import Linguist.Sequence

/-!
# The form of a command line

A command line is a list of words.  Some name options, by a letter or by a name, and
some are values of the option before them.  This module knows what options look
like but not which there are: that is said by a `Level`, a list of options together
with what else may stand between them.

## One value or many

An option takes no value, one, or as many as follow.  Its value may be part of the
word that names it; then no other word belongs to it.  An option that takes one value
may be given once, unless it says that it repeats.

## Which fault is reported

Words are read from left to right, and the values of an option are looked at when
the next option begins, or at the end.  So a fault in a value is reported before
anything that is wrong further on, except that a word nobody knows is reported
first.
-/

namespace Linguist
namespace Command

/-- Why a command line is not carried out. -/
inductive UsageFault where
  | help
  | version
  | nothingGiven
  | noCommand
  | unknownCommand
  | unknownWord
  | wrongValue
  | refusedValue
  | repeated
  | missing
  | surplusValue
  deriving DecidableEq, Repr

/-- The wording of a fault of a command line. -/
def UsageFault.message : UsageFault → String
  | help => "help was asked for"
  | version => "the version was asked for"
  | nothingGiven => "nothing was given"
  | noCommand => "a command is missing"
  | unknownCommand => "there is no such command"
  | unknownWord => "there is a word that nothing here expects"
  | wrongValue => "an option has no value, or none that it knows"
  | refusedValue => "an option has a value that it cannot read"
  | repeated => "an option was given more than once"
  | missing => "an option that is needed was not given"
  | surplusValue => "an option has a value but takes none"

/-- Whether asking for this was the purpose of the command line. -/
def UsageFault.isAnswer : UsageFault → Bool
  | help | version => true
  | _ => false

/-- How many values an option takes. -/
inductive Arity where
  | none
  | one
  | many
  deriving DecidableEq, Repr

/-- What is wrong with a value, if anything. -/
abbrev Check := String → Option UsageFault

/-- An option, or a word without one that a level expects. -/
structure Choice where
  name : String
  letter? : Option Char := none
  arity : Arity := .one
  repeats : Bool := false
  isRequired : Bool := false
  /-- Whether a value may look like a negative number. -/
  takesNegative : Bool := false
  check : Check := fun _ => none

/-- What may be given at one place of a command line. -/
structure Level where
  choices : List Choice
  /-- What a word without option stands for. -/
  operand? : Option Choice := none
  commands : List String := []

/-- Asks for the help text. -/
def helpChoice : Choice := { name := "help", letter? := some 'h', arity := .none }

/-- Asks for the version. -/
def versionChoice : Choice := { name := "version", letter? := some 'V', arity := .none }

/-- The values that were given, with the names of their options. -/
abbrev Given := List (String × List String)

/-- How far the reading of a command line is. -/
structure Reading where
  given : Given := []
  /-- The option that was read last, with the words that belong to it. -/
  pending? : Option (Choice × List String) := none
  /-- Whether the next word may belong to it. -/
  isOpen : Bool := false
  /-- Whether no more options are expected. -/
  onlyOperands : Bool := false
  operandCount : Nat := 0

namespace Reading

/-- Takes an option with its values. -/
def accept (r : Reading) (choice : Choice) (values : List String) :
    Except UsageFault Reading :=
  if choice.arity ≠ .none ∧ values.isEmpty then .error .wrongValue
  else if !choice.repeats ∧ r.given.any (·.1 == choice.name) then .error .repeated
  else match values.findSome? choice.check with
    | some fault => .error fault
    | none => .ok { r with given := r.given ++ [(choice.name, values)] }

/-- Takes the option that was read last. -/
def settle (r : Reading) : Except UsageFault Reading :=
  match r.pending? with
  | none => .ok r
  | some (choice, values) => { r with pending? := none, isOpen := false }.accept choice values

/-- Takes an option that has been named, with the value in the same word if there
is one. -/
def name (r : Reading) (choice : Choice) (value? : Option String) :
    Except UsageFault Reading := do
  let r ← r.settle
  match choice.arity, value? with
  | .none, some _ => .error .surplusValue
  | .none, none =>
    if choice.name = "help" then .error .help
    else if choice.name = "version" then .error .version
    else r.accept choice []
  | _, some value => r.accept choice [value]
  | _, none => .ok { r with pending? := some (choice, []), isOpen := true }

/-- Takes a name after two dashes. -/
def takeLong (level : Level) (r : Reading) (word : List Char) : Except UsageFault Reading :=
  let name := String.ofList (word.takeWhile (· != '='))
  let value? := match word.dropWhile (· != '=') with
    | _ :: value => some (String.ofList value)
    | [] => none
  match level.choices.find? (·.name == name) with
  | none => .error .unknownWord
  | some choice =>
    if choice.arity = .none ∧ value?.isSome then .error .surplusValue
    else r.name choice value?

/-- Takes letters after a dash; what follows the letter of an option with a value is
the value, an equals sign before it left out. -/
def takeLetters (level : Level) (r : Reading) : List Char → Except UsageFault Reading
  | [] => .ok r
  | c :: rest =>
    match level.choices.find? (·.letter? == some c) with
    | none => .error .unknownWord
    | some choice =>
      if choice.arity = .none then (r.name choice none).bind fun r => r.takeLetters level rest
      else match rest with
        | [] => r.name choice none
        | '=' :: value => r.name choice (some (String.ofList value))
        | value => r.name choice (some (String.ofList value))

/-- Takes a word that belongs to the option before it. -/
def takeValue (r : Reading) (choice : Choice) (values : List String) (word : String) : Reading :=
  { r with pending? := some (choice, values ++ [word]), isOpen := choice.arity = .many }

/-- Takes a word that belongs to no option. -/
def takeOperand (level : Level) (r : Reading) (word : String) : Except UsageFault Reading :=
  match level.operand? with
  | some choice =>
    if r.operandCount = 0 then
      r.settle.map fun r =>
        { r with pending? := some (choice, [word]), isOpen := false, operandCount := 1 }
    else .error .unknownWord
  | none =>
    if level.commands.isEmpty then .error .unknownWord
    else if r.onlyOperands ∧ level.commands.contains word then .error .unknownWord
    else .error .unknownCommand

/-- Whether the text is a number without sign: digits, with at most one point and
then at most one exponent mark, neither of them first and the mark not last. -/
def isNumber (cs : List Char) : Bool :=
  let whole := cs.takeWhile fun c => c.isDigit || c == '.'
  let isCounted := whole.count '.' ≤ 1 && whole.head? != some '.'
  match cs.drop whole.length with
  | [] => isCounted
  | 'e' :: digits => isCounted && !whole.isEmpty && !digits.isEmpty && digits.all Char.isDigit
  | _ => false

/-- Takes a word that names no command. -/
def take (level : Level) (r : Reading) (word : String) : Except UsageFault Reading :=
  let value? : Option (Choice × List String) := if r.isOpen then r.pending? else none
  if r.onlyOperands then r.takeOperand level word
  else match word.toList, value? with
    | ['-', '-'], _ => .ok { r with onlyOperands := true }
    | '-' :: '-' :: name, _ => r.takeLong level name
    | '-' :: a :: rest, some (choice, values) =>
      if choice.takesNegative && isNumber (a :: rest) then .ok (r.takeValue choice values word)
      else r.takeLetters level (a :: rest)
    | '-' :: a :: rest, none => r.takeLetters level (a :: rest)
    | _, some (choice, values) => .ok (r.takeValue choice values word)
    | _, none => r.takeOperand level word

/-- Whether a word names a command here. -/
def isCommand (level : Level) (r : Reading) (word : String) : Bool :=
  !r.onlyOperands && !(r.isOpen && r.pending?.isSome) && level.commands.contains word

/-- Reads words up to the first that names a command. -/
def readWords (level : Level) : Reading → List String →
    Except UsageFault (Reading × Option (String × List String))
  | r, [] => .ok (r, none)
  | r, word :: rest =>
    if r.isCommand level word then .ok (r, some (word, rest))
    else (r.take level word).bind fun r => readWords level r rest

/-- What was given, if nothing is missing. -/
def finish (level : Level) (r : Reading) : Except UsageFault Given :=
  r.settle.bind fun r =>
    if (level.choices ++ level.operand?.toList).any fun c =>
        c.isRequired && !r.given.any (·.1 == c.name)
    then .error .missing
    else .ok r.given

end Reading

/-- What is given at a level without commands. -/
def Level.read (level : Level) (words : List String) : Except UsageFault Given :=
  (Reading.readWords level {} words).bind fun (r, _) => r.finish level

/-! ## What was given -/

/-- The values of an option, of all times that it was given. -/
def Given.values (g : Given) (name : String) : List String :=
  (g.filter (·.1 == name)).flatMap (·.2)

/-- The value of an option. -/
def Given.value? (g : Given) (name : String) : Option String :=
  (g.values name).head?

/-- Whether an option was given. -/
def Given.has (g : Given) (name : String) : Bool :=
  g.any (·.1 == name)

end Command
end Linguist
