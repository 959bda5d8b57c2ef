import Linguist.Message
import Linguist.Sequence

/-!
# Catalogues

A catalogue holds the messages of a program for one target language.  Messages
are grouped in contexts, and both lists keep the order of their file.  Names may
repeat: a lookup by name always means the first context of that name, and inside
it the first message with the key.
-/

namespace Linguist

/-- A named group of messages. -/
structure Context where
  name : String
  comment? : Option String := none
  messages : List Message := []
  deriving DecidableEq, Repr

/-- The messages of a program for one target language. -/
structure Catalogue where
  version : String := "2.1"
  language? : Option String := none
  sourceLanguage? : Option String := none
  contexts : List Context := []
  deriving DecidableEq, Repr

namespace Context

/-- The first message with this source text and comment. -/
def find? (c : Context) (source : String) (comment? : Option String) : Option Message :=
  c.messages.find? (·.isFor source comment?)

/-- The context with its first message of this key changed; fails if there is
none. -/
def changeMessage? (c : Context) (source : String) (comment? : Option String)
    (f : Message → Message) : Option Context :=
  (Sequence.changeFirst? (·.isFor source comment?) (some ∘ f) c.messages).map
    fun messages => { c with messages }

/-- The context with its messages replaced. -/
def withMessages (c : Context) (messages : List Message) : Context :=
  { c with messages }

end Context

namespace Catalogue

/-- The catalogue without messages. -/
def empty : Catalogue := {}

/-- The first context of this name. -/
def context? (c : Catalogue) (name : String) : Option Context :=
  c.contexts.find? (·.name == name)

/-- The message with this key in the first context of this name. -/
def find? (c : Catalogue) (context source : String) (comment? : Option String) :
    Option Message :=
  (c.context? context).bind (·.find? source comment?)

/-- Every message with the name of its context. -/
def messages (c : Catalogue) : List (String × Message) :=
  c.contexts.flatMap fun context => context.messages.map (context.name, ·)

/-- The number of messages. -/
def messageCount (c : Catalogue) : Nat :=
  Sequence.total (·.messages.length) c.contexts

/-- The contexts, the one of this name put at the end unless it is there, and
then changed. -/
def changeContext (name : String) (f : Context → Context) : List Context → List Context
  | [] => [f { name }]
  | c :: rest => if c.name == name then f c :: rest else c :: changeContext name f rest

/-- The catalogue with a message appended to the context of this name. -/
def addMessage (c : Catalogue) (context : String) (m : Message) : Catalogue :=
  { c with
    contexts := changeContext context (fun x => x.withMessages (x.messages ++ [m])) c.contexts }

/-- The catalogue with one message changed; fails if there is no such message. -/
def changeMessage? (c : Catalogue) (context source : String) (comment? : Option String)
    (f : Message → Message) : Option Catalogue :=
  (Sequence.changeFirst? (·.name == context) (·.changeMessage? source comment? f) c.contexts).map
    fun contexts => { c with contexts }

/-- The catalogue with the target of one message replaced. -/
def setTarget (c : Catalogue) (context source : String) (comment? : Option String)
    (target : Target) : Except Fault Catalogue :=
  match c.changeMessage? context source comment? fun m => { m with target } with
  | some c => .ok c
  | none => .error (.messageNotFound context source)

@[simp] theorem messages_empty : empty.messages = [] := rfl

/-- The count is that of the listing. -/
theorem length_messages (c : Catalogue) : c.messages.length = c.messageCount := by
  unfold messages messageCount
  induction c.contexts with
  | nil => rfl
  | cons x rest ih => simp [ih]

end Catalogue
end Linguist
