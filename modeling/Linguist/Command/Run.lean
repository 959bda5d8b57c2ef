import Linguist.Command.Gathering
import Linguist.Command.Inquiry
import Linguist.Command.Request
import Linguist.Command.Revision
import Linguist.Text.Width

/-!
# Running a command line

A command line is understood, the settings are read, and the request is performed.
What comes of it is an `Outcome`: the disk as it is afterwards, what was printed, and
how it ended.  A command line that is not understood leaves the disk as it is and
prints nothing.

What a run depends on besides the disk and the words is the registry of character sets
and the measure of texts that it works with.  Where none are given, these are
`Bytes.registry` and `Text.Terminal.measure`.
-/

namespace Linguist
namespace Command

variable [Bytes.Registry] [Text.Measure]

/-- How a run ends. -/
inductive Ending where
  | done
  | failed (failure : Failure)
  | misused (fault : UsageFault)
  deriving DecidableEq, Repr

/-- The number that a run gives back: 0 if it did what it was asked for, 1 if it
failed, and 2 if it was not understood. -/
def Ending.exitCode : Ending → Nat
  | done => 0
  | failed _ => 1
  | misused fault => if fault.isAnswer then 0 else 2

/-- What comes of a run. -/
structure Outcome where
  disk : Disk
  output : String := ""
  notes : String := ""
  ending : Ending
  deriving DecidableEq, Repr

/-- The work that a request asks for. -/
def Request.action (settings : Settings) : Request → Action Unit
  | .view input context? status? inFull => Action.view input context? status? inFull
  | .stats inputs asJson => Action.stats inputs asJson
  | .validate inputs isStrict asJson => Action.validate settings.audit inputs isStrict asJson
  | .diff before after asJson output? => Action.diff before after asJson output?
  | .convert input output inputFormat? outputFormat? language? =>
    Action.convert input output inputFormat? outputFormat? language?
  | .edit input context source comment? values unfinished output? dryRun =>
    Action.edit input context source comment? values unfinished output? dryRun
  | .lookup input source context comment? count? values includeUnfinished =>
    Action.lookup (settings.includeUnfinished || includeUnfinished) input source context
      comment? count? values
  | .extract sources output language? defaultContext? places? =>
    Action.extract settings sources output language? defaultContext? places?
  | .update sources catalogue language? dropVanished places? asJson =>
    Action.update settings sources catalogue language? dropVanished places? asJson
  | .normalize input output? places sort => Action.normalize input output? places sort
  | .importTable input table markFinished output? =>
    Action.importTable input table markFinished output?
  | .completions _ => pure ()

/-- The outcome of an action in a new session. -/
def Action.outcome (action : Action Unit) (disk : Disk) : Outcome :=
  match action.run { disk } with
  | .ok _ s => ⟨s.disk, s.output, s.notes, .done⟩
  | .error failure s => ⟨s.disk, s.output, s.notes, .failed failure⟩

/-- Performs what was understood. -/
def Invocation.action (i : Invocation) : Action Unit := do
  i.request.action (← Action.readSettings i.settings?)

/-- Runs a command line. -/
def run (disk : Disk) (words : List String) : Outcome :=
  match understand words with
  | .error fault => { disk, ending := .misused fault }
  | .ok invocation => invocation.action.outcome disk

end Command
end Linguist
