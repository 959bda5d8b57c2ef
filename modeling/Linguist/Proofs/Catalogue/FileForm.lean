import Linguist.Proofs.Catalogue.Elements
import Linguist.Proofs.Markup.Declaration

/-!
# The file form is faithful

A catalogue survives being written to a file and read again
(`Catalogue.ofFileText_fileText`).  The file is encoded, decoded, cut into pieces,
folded into a tree and read as a catalogue, and each of these steps has its statement in
a module of its own; here they are put together, and what remains is the declaration in
the first line, which names the character set that the file is then read in.

Two things do not survive.  U+0000 has no written form in the content of an element, and
a wording may be of a kind that the plural mark of its message contradicts.  Nothing
else about a catalogue matters: not its attributes, not its places, and not whether a
part that may be absent is present and empty.
-/

namespace Linguist

open Bytes (Utf8.encode)

namespace Markup

/-- The first line of a written file. -/
def declaration : List Char :=
  "<?xml version=\"1.0\" encoding=\"utf-8\"?>".toList

/-- **A file that declares UTF-8 is read as UTF-8.** -/
theorem decodeFile_declaration [Bytes.Registry] (rest : List Char) :
    decodeFile (Utf8.encode (declaration ++ rest)) = .ok (declaration ++ rest) := by
  have hdeclaration : declaration = declarationOf "1.0".toList "utf-8".toList := rfl
  rw [hdeclaration]
  exact decodeFile_declared rfl (by decide +kernel) (by decide) (Bytes.Charset.encode?_utf8 _)

end Markup

namespace Catalogue

/-- A written file begins with its declaration. -/
theorem fileText_eq (c : Catalogue) :
    ∃ rest, c.fileText.toList = Markup.declaration ++ rest := by
  rw [fileText, String.toList_ofList]
  exact ⟨_, rfl⟩

theorem decodeFile_fileText [Bytes.Registry] (c : Catalogue) :
    Markup.decodeFile (Bytes.ofText c.fileText) = .ok c.fileText.toList := by
  obtain ⟨rest, hrest⟩ := c.fileText_eq
  rw [Bytes.ofText, hrest]
  exact Markup.decodeFile_declaration rest

/-- **A catalogue survives its file,** if no text that becomes the content of an element
contains U+0000 and every wording fits the plural mark of its message. -/
theorem ofFileText_fileText [Bytes.Registry] (c : Catalogue)
    (htexts : ∀ s ∈ c.contents, '\x00' ∉ s.toList)
    (hfits : ∀ x ∈ c.contexts, ∀ m ∈ x.messages, m.target.wording.Fits m.isPlural) :
    ofFileText c.fileText = .ok c := by
  rw [ofFileText, ofFile, c.decodeFile_fileText, Markup.ok_bind, ofMarkup,
    c.nodesOfFile_fileText]
  exact ofNodes_toNodes hfits htexts

/-- Every shape of wording, quoted and empty texts, and places with parts left out. -/
def varied : Catalogue where
  language? := some "\"fr\"<&>"
  contexts := [
    { name := " a\x07\n", comment? := some "", messages := [
      { source := "<b>&amp;", comment? := some "", places := [⟨none, some (.relative (-3))⟩],
        target := ⟨.vanished, .plain "\t'x'"⟩ },
      { id? := some "", isPlural := true, source := "", places := [⟨some "a b.c", none⟩],
        target := ⟨.finished, .plural ["", " "]⟩ },
      { source := "\x01", places := [⟨some "", some (.absolute 7)⟩, ⟨none, none⟩],
        target := ⟨.obsolete, .lengths []⟩ }] }]

theorem varied_survives : ofFileText varied.fileText = .ok varied :=
  ofFileText_fileText varied (by decide) (by decide)

end Catalogue
end Linguist
