import Linguist.Catalogue.Places
import Linguist.Json.Value
import Linguist.LanguageTag
import Linguist.Plural
import Linguist.Template

/-!
# Auditing a catalogue

An audit lists what looks wrong in a catalogue.  Each finding has a cause, which
decides how grave it is and what is said about it, and the message it was found
at.  Nothing is changed.

## Order

First come the languages of the catalogue, then the messages in their order, each
with its causes in a fixed order, and last the places that two messages claim.

## Options

`findings` is the full account of a catalogue.  An audit with options goes through
the same checks and reports on its way: a finding of an ignored kind is dropped
where it turns up, and markers are compared only if that is asked for.
-/

namespace Linguist
namespace Audit

/-- What is wrong. -/
inductive Cause where
  | emptySource
  | conflictingPlace (file : String) (line : UInt32) (owner : String)
  | duplicateMessage
  | unfinishedWithText (text : String)
  | finishedEmpty
  | markerMismatch (text : String) (found expected : List Nat)
  | formCount (found expected : Nat)
  | invalidLanguage (role language : String)
  | zeroLine
  deriving DecidableEq, Repr

/-- The kinds of causes. -/
inductive Kind where
  | emptySource
  | conflictingPlace
  | duplicateMessage
  | unfinishedWithText
  | finishedEmpty
  | markerMismatch
  | formCount
  | invalidLanguage
  | zeroLine
  deriving DecidableEq, Repr

/-- How grave a finding is. -/
inductive Severity where
  | error
  | warning
  deriving DecidableEq, Repr

namespace Kind

/-- The name of a kind. -/
def name : Kind → String
  | emptySource => "empty_source"
  | conflictingPlace => "conflicting_location"
  | duplicateMessage => "duplicate_message"
  | unfinishedWithText => "unfinished_with_text"
  | finishedEmpty => "finished_empty"
  | markerMismatch => "placeholder_mismatch"
  | formCount => "numerus_form_count"
  | invalidLanguage => "invalid_language"
  | zeroLine => "zero_line"

/-- All kinds. -/
def all : List Kind :=
  [emptySource, conflictingPlace, duplicateMessage, unfinishedWithText, finishedEmpty,
    markerMismatch, formCount, invalidLanguage, zeroLine]

/-- The kind of a name. -/
def ofName? (s : String) : Option Kind :=
  all.find? (·.name == s)

/-- How grave findings of a kind are. -/
def severity : Kind → Severity
  | conflictingPlace | markerMismatch | formCount | invalidLanguage => .warning
  | emptySource | duplicateMessage | unfinishedWithText | finishedEmpty | zeroLine => .error

end Kind

/-- The name of a severity. -/
def Severity.name : Severity → String
  | error => "error"
  | warning => "warning"

namespace Cause

/-- The kind of a cause. -/
def kind : Cause → Kind
  | emptySource => .emptySource
  | conflictingPlace _ _ _ => .conflictingPlace
  | duplicateMessage => .duplicateMessage
  | unfinishedWithText _ => .unfinishedWithText
  | finishedEmpty => .finishedEmpty
  | markerMismatch _ _ _ => .markerMismatch
  | formCount _ _ => .formCount
  | invalidLanguage _ _ => .invalidLanguage
  | zeroLine => .zeroLine

/-- A set of numbers between braces. -/
def numberSetText (numbers : List Nat) : String :=
  "\x7b" ++ String.intercalate ", " (numbers.map fun n => String.ofList (Text.decimal n)) ++ "\x7d"

/-- What is said about a cause. -/
def message : Cause → String
  | emptySource => "message with locations has an empty source"
  | conflictingPlace file line owner =>
    (Place.inFile file line).text ++ " already belongs to " ++ Text.quoted owner
  | duplicateMessage => "source and comment repeat within the context"
  | unfinishedWithText text => "translation " ++ Text.quoted text ++ " is still unfinished"
  | finishedEmpty => "finished translation is empty"
  | markerMismatch text found expected =>
    "translation " ++ Text.quoted text ++ " uses markers " ++ numberSetText found ++
      ", source uses " ++ numberSetText expected
  | formCount found expected =>
    String.ofList (Text.decimal found) ++ " numerus form(s), language expects " ++
      String.ofList (Text.decimal expected)
  | invalidLanguage role language =>
    role ++ " \x60" ++ language ++ "\x60 is not a valid language identifier"
  | zeroLine => "location with line 0"

end Cause

/-- Something wrong, and the message where it was found. -/
structure Finding where
  cause : Cause
  context? : Option String := none
  source? : Option String := none
  deriving DecidableEq, Repr

namespace Finding

/-- The kind of a finding. -/
def kind (f : Finding) : Kind :=
  f.cause.kind

/-- How grave a finding is. -/
def severity (f : Finding) : Severity :=
  f.kind.severity

/-- The finding on one line. -/
def text (f : Finding) : String :=
  "[" ++ f.kind.name ++ "] " ++
    (match f.context? with
      | some context => context ++ ": "
      | none => "") ++
    (match f.source? with
      | some source => Text.quoted source ++ ": "
      | none => "") ++
    f.cause.message

/-- The finding as a record whose members are in alphabetical order. -/
def toJson (f : Finding) : Json :=
  .object <| Json.memberOf "context" .string f.context? ++
    [("kind", .string f.kind.name), ("message", .string f.cause.message),
      ("severity", .string f.severity.name)] ++
    Json.memberOf "source" .string f.source?

end Finding

/-! ## Checks -/

/-- The languages of the catalogue that are no language tags. -/
def languageCauses (c : Catalogue) : List Cause :=
  [("language", c.language?), ("sourcelanguage", c.sourceLanguage?)].filterMap
    fun (role, language?) =>
      language?.bind fun language =>
        if (LanguageTag.ofText? language).isSome then none
        else some (.invalidLanguage role language)

/-- A cause if a condition holds. -/
def causeIf (condition : Bool) (cause : Cause) : List Cause :=
  if condition then [cause] else []

/-- Whether the status of a target fits its text. -/
def statusCauses (t : Target) : List Cause :=
  causeIf (t.status == .unfinished && !t.isEmpty) (.unfinishedWithText t.wording.text) ++
    causeIf (t.status == .finished && t.isEmpty) .finishedEmpty

/-- The texts of a wording that ask for other arguments than the source. -/
def markerCauses (source : String) (w : Wording) : List Cause :=
  w.texts.flatMap fun s =>
    let found := Template.numberSet s
    let expected := Template.numberSet source
    causeIf (found != expected) (.markerMismatch s found expected)

/-- Whether a wording has as many plural forms as the language. -/
def formCauses (rule? : Option PluralRule) (w : Wording) : List Cause :=
  match rule?, w with
  | some rule, .plural forms =>
    causeIf (forms.length != rule.formCount) (.formCount forms.length rule.formCount)
  | _, _ => []

/-- What is wrong with a message; `repeats` says that its key stands earlier in its
context. -/
def messageCauses (rule? : Option PluralRule) (repeats : Bool) (m : Message) : List Cause :=
  causeIf (!m.places.isEmpty && m.source.isEmpty) .emptySource ++
    causeIf repeats .duplicateMessage ++
    causeIf (m.places.any fun p => p.line? == some (.absolute 0)) .zeroLine ++
    statusCauses m.target ++
    if m.target.status.isActive && !m.target.isEmpty then
      markerCauses m.source m.target.wording ++ formCauses rule? m.target.wording
    else []

/-- The findings at the messages of a context, after messages with the keys
seen. -/
def messageFindings (rule? : Option PluralRule) (context : String) :
    List Message.Key → List Message → List Finding
  | _, [] => []
  | seen, m :: rest =>
    ((messageCauses rule? (seen.contains m.key) m).map (⟨·, some context, some m.source⟩)) ++
      messageFindings rule? context (m.key :: seen) rest

/-! ## Places that two messages claim -/

/-- A place of a file, and the source of the message that claimed it first. -/
abbrev Owner := (String × UInt32) × String

/-- The findings at places of one message, and the owners after it. -/
def placeFindings (context source : String) : List Owner → List Place → List Finding × List Owner
  | owners, [] => ([], owners)
  | owners, p :: rest =>
    match p.file?, p.line? with
    | some file, some (.absolute line) =>
      match owners.lookup (file, line) with
      | some owner =>
        let (findings, owners) := placeFindings context source owners rest
        if owner = source then (findings, owners)
        else
          (⟨.conflictingPlace file line owner, some context, some source⟩ :: findings, owners)
      | none => placeFindings context source (owners ++ [((file, line), source)]) rest
    | _, _ => placeFindings context source owners rest

/-- The findings at the places of messages, after owners. -/
def conflictFindings : List Owner → List (String × Message) → List Finding
  | _, [] => []
  | owners, (context, m) :: rest =>
    let (findings, owners) := placeFindings context m.source owners m.places
    findings ++ conflictFindings owners rest

/-! ## The audit -/

/-- Everything that is wrong with a catalogue. -/
def findings (c : Catalogue) : List Finding :=
  (languageCauses c).map (⟨·, none, none⟩) ++
    (c.contexts.flatMap fun x =>
      messageFindings (c.language?.map .ofLanguage) x.name [] x.messages) ++
    conflictFindings [] c.resolve.messages

/-- What an audit reports and what it accepts. -/
structure Options where
  ignore : List Kind := []
  denyWarnings : Bool := false
  checkMarkers : Bool := true
  deriving DecidableEq, Repr

/-- Whether findings of a kind are reported. -/
def Options.reports (o : Options) (k : Kind) : Bool :=
  !o.ignore.contains k && (o.checkMarkers || k != .markerMismatch)

/-- The outcome of an audit. -/
structure Report where
  findings : List Finding
  denyWarnings : Bool
  deriving DecidableEq, Repr

namespace Report

/-- The findings that make the audit fail. -/
def failing (r : Report) : List Finding :=
  r.findings.filter fun f => f.severity == .error || r.denyWarnings

/-- Whether the audit failed. -/
def hasErrors (r : Report) : Bool :=
  !r.failing.isEmpty

/-- The number of findings of a severity. -/
def count (r : Report) (s : Severity) : Nat :=
  r.findings.countP (·.severity == s)

/-- The report itself unless the audit failed. -/
def accept (r : Report) : Except Fault Report :=
  if r.hasErrors then .error (.rejected (r.failing.map Finding.text)) else .ok r

end Report

/-! ## Carrying it out -/

/-- An audit under way; its state is what it has reported so far. -/
abbrev Inspection := StateM (Array Finding)

/-- Reports a finding, unless its kind is ignored. -/
def Options.note (o : Options) (f : Finding) : Inspection Unit :=
  if o.ignore.contains f.kind then pure () else modify (·.push f)

/-- Reports what is wrong with one message, or with none. -/
def Options.noteAll (o : Options) (context? source? : Option String) (causes : List Cause) :
    Inspection Unit :=
  causes.forM fun cause => o.note ⟨cause, context?, source?⟩

/-- Looks at one message; `repeats` says that its key stands earlier in its context.
Only a wording that is in use and says something is compared with the source. -/
def inspectMessage (o : Options) (rule? : Option PluralRule) (context : String)
    (repeats : Bool) (m : Message) : Inspection Unit := do
  let note := o.noteAll (some context) (some m.source)
  note (causeIf (!m.places.isEmpty && m.source.isEmpty) .emptySource)
  note (causeIf repeats .duplicateMessage)
  note (causeIf (m.places.any fun p => p.line? == some (.absolute 0)) .zeroLine)
  note (statusCauses m.target)
  if m.target.status.isActive && !m.target.isEmpty then
    note (if o.checkMarkers then markerCauses m.source m.target.wording else [])
    note (formCauses rule? m.target.wording)

/-- Looks at the messages of a context, after messages with the keys seen. -/
def inspectMessages (o : Options) (rule? : Option PluralRule) (context : String) :
    List Message.Key → List Message → Inspection Unit
  | _, [] => pure ()
  | seen, m :: rest => do
    inspectMessage o rule? context (seen.contains m.key) m
    inspectMessages o rule? context (m.key :: seen) rest

/-- Looks at a catalogue from its languages to its places. -/
def inspect (o : Options) (c : Catalogue) : Inspection Unit := do
  o.noteAll none none (languageCauses c)
  c.contexts.forM fun x =>
    inspectMessages o (c.language?.map .ofLanguage) x.name [] x.messages
  (conflictFindings [] c.resolve.messages).forM o.note

/-- Audits a catalogue. -/
def run (o : Options) (c : Catalogue) : Report :=
  ⟨((inspect o c).run #[]).2.toList, o.denyWarnings⟩

end Audit
end Linguist
