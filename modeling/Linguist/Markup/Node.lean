import Linguist.Markup.Event

/-!
# Markup as a tree

The pieces of a file are folded into a tree of elements.  A file may be broken at
any point, and what stands before that point is still read in order; so every
element records how it ended: with its end tag, with the end of the file, or with
a fault.  If an element did not end with its end tag, then it is the last node of
its parent and the parent did not either, up to the file itself.

An end tag closes the innermost open element and has to bear its name; any other
end tag is a fault.
-/

namespace Linguist
namespace Markup

/-- How an element ended. -/
inductive Ending where
  | closed
  | endOfFile
  | fault
  deriving DecidableEq, Repr

/-- A node of markup. -/
inductive Node where
  | text (raw : List Char)
  | literal (content : List Char)
  | aside (raw : List Char)
  | empty (tag : Tag)
  | element (tag : Tag) (children : List Node) (ending : Ending)
  deriving Repr

/-- An element that is still open: its tag, and the nodes before it in its
parent, last node first. -/
structure Frame where
  tag : Tag
  before : List Node

/-- Ends all open elements alike, innermost first. -/
def wrapUp (ending : Ending) : List Frame → List Node → List Node × Ending
  | [], seen => (seen.reverse, ending)
  | f :: outer, seen => wrapUp ending outer (.element f.tag seen.reverse ending :: f.before)

/-- Folds pieces into nodes: the open elements, the nodes seen in the innermost
one, last node first, and the pieces to come. -/
def grow : List Frame → List Node → List Event → List Node × Ending
  | stack, seen, [] => wrapUp .endOfFile stack seen
  | stack, seen, .text raw :: rest => grow stack (.text raw :: seen) rest
  | stack, seen, .literal content :: rest => grow stack (.literal content :: seen) rest
  | stack, seen, .aside raw :: rest => grow stack (.aside raw :: seen) rest
  | stack, seen, .empty tag :: rest => grow stack (.empty tag :: seen) rest
  | stack, seen, .start tag :: rest => grow (⟨tag, seen⟩ :: stack) [] rest
  | [], seen, .finish _ :: _ => wrapUp .fault [] seen
  | f :: outer, seen, .finish name :: rest =>
    if f.tag.name = name then grow outer (.element f.tag seen.reverse .closed :: f.before) rest
    else wrapUp .fault (f :: outer) seen
  | stack, seen, .fault :: _ => wrapUp .fault stack seen

/-- The nodes of a file, and whether a fault follows them. -/
def nodesOfFile (cs : List Char) : List Node × Ending :=
  grow [] [] (eventsOfFile cs)

/-! ## Writing -/

mutual

/-- The text of a node whose elements are all closed. -/
def Node.render : Node → List Char
  | .text raw => raw
  | .literal content => "<![CDATA[".toList ++ content ++ "]]>".toList
  | .aside raw => raw
  | .empty tag => '<' :: tag.text ++ ['/', '>']
  | .element tag children _ =>
    '<' :: tag.text ++ '>' :: renderAll children ++ '<' :: '/' :: tag.name.toList ++ ['>']

/-- The text of a list of nodes. -/
def renderAll : List Node → List Char
  | [] => []
  | n :: rest => n.render ++ renderAll rest

end

@[simp] theorem Node.render_text (raw : List Char) : (Node.text raw).render = raw := rfl

@[simp] theorem Node.render_aside (raw : List Char) : (Node.aside raw).render = raw := rfl

@[simp] theorem Node.render_empty (tag : Tag) :
    (Node.empty tag).render = '<' :: tag.text ++ ['/', '>'] := rfl

@[simp] theorem Node.render_element (tag : Tag) (children : List Node) (ending : Ending) :
    (Node.element tag children ending).render =
      '<' :: tag.text ++ '>' :: renderAll children ++ '<' :: '/' :: tag.name.toList ++ ['>'] :=
  rfl

@[simp] theorem renderAll_nil : renderAll [] = [] := rfl

@[simp] theorem renderAll_cons (n : Node) (rest : List Node) :
    renderAll (n :: rest) = n.render ++ renderAll rest := rfl

namespace Node

/-- An element that ended with its end tag. -/
def ofTag (tag : Tag) (children : List Node) : Node :=
  .element tag children .closed

/-- An element with a text as its content; an empty text leaves no node. -/
def ofText (name : String) (text : String) : Node :=
  .ofTag (.plain name) (if text.isEmpty then [] else [.text (protect text.toList)])

/-- A line break and an indentation. -/
def newline (indent : Nat) : Node :=
  .text ('\n' :: List.replicate indent ' ')

end Node
end Markup
end Linguist
