import Linguist.Proofs.Catalogue.Answers
import Linguist.Proofs.Catalogue.Rows
import Linguist.Proofs.Merge.Survival

/-!
# A catalogue between two files

A catalogue is read from its file, merged with what was collected from the code or answered
by a table, and written to its file again.  Each of the two operations writes one half of
what a file ties together: a merge takes the plural mark from the code and keeps the wording,
and an import takes the wording from the table and keeps the plural mark.  Whether the
catalogue that is left survives its file is decided by the halves that meet
(`Catalogue.survives_upkeep`), and neither operation makes sure that they fit
(`Catalogue.upkeep_parts`).
-/

namespace Linguist

open Csv (Row)
open Merge (merge Agrees)
open Markup (IsContent)

namespace Catalogue

/-- **What is left of a catalogue that survives its file survives as well,** after a merge
if the plural marks of the code agree with the wordings that are kept, after an import if
the wordings of the table suit the plural marks that are kept and can stand in an element,
and else not. -/
theorem survives_upkeep [Bytes.Registry] {c : Catalogue} (hc : c.Survives) :
    (∀ options extracted, extracted.Survives →
      ((merge options c extracted).1.Survives ↔ Agrees c extracted)) ∧
    ∀ markFinished rows c' report, c.importRows markFinished rows = (c', .ok report) →
      (c'.Survives ↔ c.Suits rows) :=
  ⟨fun options _ hextracted => Merge.survives_merge_iff options hc hextracted,
    fun _ _ _ _ h => survives_importRows_iff hc h⟩

/-- A catalogue with a message that is not counted. -/
def uncounted : Catalogue where
  contexts := [{ name := "Q", messages := [{ source := "a", target := ⟨.finished, .plain "x"⟩ }] }]

/-- A catalogue with the same message, counted and not yet worked on. -/
def counted : Catalogue where
  contexts := [{ name := "Q", messages := [
    { isPlural := true, source := "a", target := ⟨.unfinished, .plural []⟩ }] }]

theorem uncounted_upkeep : uncounted.Survives ∧ counted.Survives ∧
    ((merge {} uncounted counted).1.Survives ↔ Agrees uncounted counted) ∧
    uncounted.importRows true [{ context := "Q", source := "a", wording := "y" }] =
      ({ contexts := [{ name := "Q", messages := [
          { source := "a", target := ⟨.finished, .plain "y"⟩ }] }] }, .ok { applied := 1 }) ∧
    (({ contexts := [{ name := "Q", messages := [
          { source := "a", target := ⟨.finished, .plain "y"⟩ }] }] } : Catalogue).Survives ↔
      uncounted.Suits [{ context := "Q", source := "a", wording := "y" }]) := by
  have huncounted : uncounted.Survives := by decide
  have hcounted : counted.Survives := by decide
  have himport : uncounted.importRows true [{ context := "Q", source := "a", wording := "y" }] =
      ({ contexts := [{ name := "Q", messages := [
          { source := "a", target := ⟨.finished, .plain "y"⟩ }] }] }, .ok { applied := 1 }) := by
    rfl
  exact ⟨huncounted, hcounted, (survives_upkeep huncounted).1 {} counted hcounted, himport,
    (survives_upkeep huncounted).2 _ _ _ _ himport⟩

/-- A message whose only text is U+0000, which its row writes as an escape. -/
def escaped : Message :=
  { source := "a", target := ⟨.unfinished, .lengths ["\x00"]⟩ }

theorem importRows_escaped : uncounted.importRows false [Row.ofMessage "Q" escaped] =
    ({ contexts := [{ name := "Q", messages := [escaped] }] }, .ok { applied := 1 }) := by
  have hrow : applyRow false (Row.ofMessage "Q" escaped) uncounted {} =
      .ok ({ contexts := [{ name := "Q", messages := [escaped] }] }, { applied := 1 }) := by
    rw [applyRow, Row.readWording_ofMessage]
    rfl
  rw [importRows, applyRows, hrow]
  rfl

/-- A merge may put a plural mark on a wording that it does not fit, an import may put a
wording under a plural mark that it does not fit, and an import may bring U+0000 from a table
without it. -/
theorem upkeep_parts :
    (uncounted.Survives ∧ counted.Survives ∧ ¬ (merge {} uncounted counted).1.Survives) ∧
    (∃ rows c' report, (∀ r ∈ rows, ∀ s ∈ Row.cells r, '\x00' ∉ s.toList) ∧
      counted.importRows false rows = (c', .ok report) ∧ ¬ c'.Survives) ∧
    ∃ rows c' report, (∀ r ∈ rows, ∀ s ∈ Row.cells r, '\x00' ∉ s.toList) ∧
      uncounted.importRows false rows = (c', .ok report) ∧ ¬ c'.Survives := by
  refine ⟨⟨by decide, by decide, by decide⟩,
    ⟨[{ context := "Q", source := "a", wording := "x" }],
      { contexts := [{ name := "Q", messages := [
        { isPlural := true, source := "a", target := ⟨.unfinished, .plain "x"⟩ }] }] },
      { applied := 1 }, by decide, rfl, by decide⟩, ?_⟩
  exact ⟨_, _, _, by decide, importRows_escaped, by decide⟩

end Catalogue
end Linguist
