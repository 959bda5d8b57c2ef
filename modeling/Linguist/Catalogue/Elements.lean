import Linguist.Catalogue
import Linguist.Markup.Node

/-!
# A catalogue as elements

The file form of a catalogue is a tree of elements in a fixed layout: one element
a line, children indented by four blanks from the second level on, and nothing
between an element and its text.  Optional parts that are absent leave no element
and no attribute; a part that is present but empty leaves an empty element, so
that the two stay apart.
-/

namespace Linguist

open Markup (Node Tag)

namespace Place

/-- The element of a place. -/
def toNode (p : Place) : Node :=
  .empty (((Tag.plain "location").addOption "filename" p.file?).addOption "line"
    (p.line?.map LineNumber.text))

end Place

namespace Wording

/-- Elements of one name, one a line, with the line break after the last. -/
def formNodes (element : String) (texts : List String) : List Node :=
  (texts.flatMap fun s => [.newline 12, .ofText element s]) ++
    if texts.isEmpty then [] else [.newline 8]

/-- What stands inside the element of a wording. -/
def toNodes : Wording → List Node
  | plain text => if text.isEmpty then [] else [.text (Markup.protect text.toList)]
  | plural forms => formNodes "numerusform" forms
  | lengths variants => formNodes "lengthvariant" variants

/-- The mark of a wording in several lengths. -/
def mark? : Wording → Option String
  | lengths _ => some "yes"
  | _ => none

end Wording

namespace Target

/-- The element of a target. -/
def toNode (t : Target) : Node :=
  .ofTag (((Tag.plain "translation").addOption "type" t.status.typeAttribute?).addOption
    "variants" t.wording.mark?) t.wording.toNodes

end Target

namespace Message

/-- The elements of the optional texts, in the order of the file. -/
def noteNodes (m : Message) : List Node :=
  [("oldsource", m.oldSource?), ("comment", m.comment?), ("oldcomment", m.oldComment?),
    ("extracomment", m.extraComment?), ("translatorcomment", m.translatorComment?)].flatMap
    fun (element, text?) =>
      match text? with
      | some text => [.newline 8, .ofText element text]
      | none => []

/-- The tag of a message. -/
def tag (m : Message) : Tag :=
  ((Tag.plain "message").addOption "id" m.id?).addOption "numerus"
    (if m.isPlural then some "yes" else none)

/-- The element of a message. -/
def toNode (m : Message) : Node :=
  .ofTag m.tag <|
    (m.places.flatMap fun p => [.newline 8, p.toNode]) ++
      [.newline 8, .ofText "source" m.source] ++ m.noteNodes ++
      [.newline 8, m.target.toNode, .newline 4]

end Message

namespace Context

/-- The element of a context. -/
def toNode (c : Context) : Node :=
  .ofTag (.plain "context") <|
    [.newline 4, .ofText "name" c.name] ++
      (match c.comment? with
        | some comment => [.newline 4, .ofText "comment" comment]
        | none => []) ++
      (c.messages.flatMap fun m => [.newline 4, m.toNode]) ++ [.newline 0]

end Context

namespace Catalogue

/-- The tag of a catalogue. -/
def tag (c : Catalogue) : Tag :=
  (((Tag.plain "TS").add "version" c.version).addOption "language" c.language?).addOption
    "sourcelanguage" c.sourceLanguage?

/-- The element of a catalogue. -/
def toNode (c : Catalogue) : Node :=
  .ofTag c.tag (.newline 0 :: c.contexts.flatMap fun x => [x.toNode, .newline 0])

/-- The nodes of the file of a catalogue. -/
def toNodes (c : Catalogue) : List Node :=
  [.aside "<?xml version=\"1.0\" encoding=\"utf-8\"?>".toList, .newline 0,
    .aside "<!DOCTYPE TS>".toList, .newline 0, c.toNode, .newline 0]

/-- The text of the file of a catalogue. -/
def fileText (c : Catalogue) : String :=
  String.ofList (Markup.renderAll c.toNodes)

end Catalogue
end Linguist
