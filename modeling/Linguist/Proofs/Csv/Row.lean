import Linguist.Csv.Row
import Linguist.Proofs.Bytes.Utf8
import Linguist.Proofs.Csv.Cells

/-!
# Rows survive their table

Rows that are written as a table and read again are the same rows
(`readRows_renderRows`), whatever their texts are.  A table has a first line with the names
of the columns in their usual order, so that every cell is found under its name; and it has
eight columns, so that no line can be taken for a blank one.
-/

namespace Linguist
namespace Csv

/-- Lines of at least two cells read back in order. -/
theorem readLines_renderLines {table : List (List String)}
    (h : ∀ line ∈ table, ∃ s t more, line = s :: t :: more) :
    readLines .lineStart [] []
        ((table.flatMap fun line => renderLine (line.map String.toList)).map some) =
      table.map (List.map cellOf) := by
  induction table with
  | nil => rfl
  | cons line table ih =>
    obtain ⟨⟨s, t, more, rfl⟩, hrest⟩ := List.forall_mem_cons.1 h
    rw [List.flatMap_cons, List.map_append, readLines_renderLine, ih hrest]
    rfl

/-- A table without a byte order mark is read from its first character on. -/
theorem lines_of_head {c : Char} (hc : c ≠ '\ufeff') (cs : List Char) :
    lines ((c :: cs).map some) = readLines .lineStart [] [] ((c :: cs).map some) := by
  unfold lines
  split
  · rename_i h
    exact absurd (Option.some.inj (List.cons.inj h).1) hc
  · rfl

namespace Row

/-- A row is found under the usual names. -/
theorem ofLine?_cells (r : Row) : ofLine? (some columns) r.cells = some r := rfl

end Row

theorem mapM_cellText?_map_cellOf (line : List String) :
    (line.map cellOf).mapM cellText? = some line := by
  refine (Sequence.mapM_map_eq_pure fun s _ => cellText?_cellOf s).trans ?_
  rw [List.map_id']
  rfl

theorem rowsOfLines?_map_cellOf (rows : List Row) :
    rowsOfLines? ((columns :: rows.map Row.cells).map (List.map cellOf)) = some rows := by
  have hrow : ∀ r : Row, (if (r.cells.map cellOf).length = (columns.map cellOf).length then
      ((r.cells.map cellOf).mapM cellText?).bind (Row.ofLine? (some columns)) else none) =
      some r := by
    intro r
    have hlength : (r.cells.map cellOf).length = (columns.map cellOf).length := rfl
    rw [if_pos hlength, mapM_cellText?_map_cellOf, Option.bind_some, r.ofLine?_cells]
  rw [List.map_cons, List.map_map, rowsOfLines?, mapM_cellText?_map_cellOf]
  refine (Sequence.mapM_map_eq_pure fun r _ => hrow r).trans ?_
  rw [List.map_id']
  rfl

/-- **Rows survive their table,** whatever their texts are. -/
theorem readRows_renderRows (rows : List Row) :
    readRows (Bytes.ofText (renderRows rows)) = .ok rows := by
  cases rows with
  | nil => rfl
  | cons r rows =>
    have htable : ∀ line ∈ columns :: (r :: rows).map Row.cells,
        ∃ s t more, line = s :: t :: more :=
      List.forall_mem_cons.2 ⟨⟨_, _, _, rfl⟩, List.forall_mem_map.2 fun _ _ => ⟨_, _, _, rfl⟩⟩
    have hlines : lines (((columns :: (r :: rows).map Row.cells).flatMap fun line =>
        renderLine (line.map String.toList)).map some) =
        (columns :: (r :: rows).map Row.cells).map (List.map cellOf) := by
      rw [← readLines_renderLines htable]
      exact lines_of_head (c := 'c') (by decide) _
    rw [readRows, Bytes.ofText, Bytes.Utf8.decode_encode, renderRows, if_neg (by simp),
      String.toList_ofList, hlines, rowsOfLines?_map_cellOf]

end Csv
end Linguist
