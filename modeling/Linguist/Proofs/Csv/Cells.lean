import Linguist.Csv.Cells
import Linguist.Sequence

/-!
# Reading back a table

A line is written cell by cell, each cell with what separates it from the next, and read by
a machine that goes through the text once.  The machine stands *inside* a line whenever a
comma or a line end would end a cell: at the beginning of a cell, in a bare cell, or after a
closing quote.  Reading a written cell leads from the beginning of a cell to inside the line
(`exists_readLines_renderCell`), and from there the rest of the line is one cell after the
other (`readLines_renderCells`).

The beginning of a line is different, because a line end there would be a blank line and no
line at all.  A line of at least two cells has no such place: if its first cell is empty, a
comma follows.
-/

namespace Linguist

namespace Csv

/-- The machine stands where a comma or a line end ends a cell. -/
def Position.IsInside (p : Position) : Prop :=
  p ≠ .lineStart ∧ p ≠ .quoted

instance (p : Position) : Decidable p.IsInside :=
  inferInstanceAs (Decidable (_ ∧ _))

variable {position : Position} (cells : List Cell) (cell : Cell) (rest : List (Option Char))

theorem readLines_comma (h : position.IsInside) :
    readLines position cells cell (some ',' :: rest) =
      readLines .cellStart (cell.reverse :: cells) [] rest := by
  cases position with
  | lineStart => exact absurd rfl h.1
  | quoted => exact absurd rfl h.2
  | cellStart => rfl
  | bare => rfl
  | afterQuote => rfl

theorem readLines_lineEnd (h : position.IsInside) :
    readLines position cells cell (some '\n' :: rest) =
      (cell.reverse :: cells).reverse :: readLines .lineStart [] [] rest := by
  cases position with
  | lineStart => exact absurd rfl h.1
  | quoted => exact absurd rfl h.2
  | cellStart => rfl
  | bare => rfl
  | afterQuote => rfl

/-! ## Bare cells -/

/-- A character that may stand in a bare cell. -/
def IsBare (c : Char) : Prop :=
  c ≠ ',' ∧ c ≠ '"' ∧ c ≠ '\n' ∧ c ≠ '\r'

theorem readLines_bare_cons {c : Char} (hc : IsBare c) (h : position ≠ .quoted) :
    readLines position cells cell (some c :: rest) =
      readLines .bare cells (some c :: cell) rest := by
  obtain ⟨hcomma, hquote, hfeed, hreturn⟩ := hc
  have hend : isLineEnd (some c) = false := by simp [isLineEnd, hfeed, hreturn]
  cases position with
  | quoted => exact absurd rfl h
  | lineStart => simp [readLines, hend, hcomma, hquote]
  | cellStart => simp [readLines, hend, hcomma, hquote]
  | bare => simp [readLines, hend, hcomma, hquote]
  | afterQuote => simp [readLines, hend, hcomma, hquote]

/-- Bare characters are collected. -/
theorem readLines_bare {cs : List Char} (hcs : ∀ c ∈ cs, IsBare c) :
    readLines .bare cells cell (cs.map some ++ rest) =
      readLines .bare cells (cs.reverse.map some ++ cell) rest := by
  induction cs generalizing cell with
  | nil => rfl
  | cons c cs ih =>
    obtain ⟨hc, hcs⟩ := List.forall_mem_cons.1 hcs
    rw [List.map_cons, List.cons_append, readLines_bare_cons _ _ _ hc (by decide), ih _ hcs]
    simp

/-! ## Quoted cells -/

/-- A text with each quote doubled. -/
def doubled (cs : List Char) : List Char :=
  cs.flatMap fun c => if c = '"' then ['"', '"'] else [c]

/-- Between quotes everything is collected, a doubled quote as one. -/
theorem readLines_doubled (cs : List Char) :
    readLines .quoted cells cell ((doubled cs ++ ['"']).map some ++ rest) =
      readLines .afterQuote cells (cs.reverse.map some ++ cell) rest := by
  induction cs generalizing cell with
  | nil => rfl
  | cons c cs ih =>
    have hstep : readLines .quoted cells cell ((doubled (c :: cs) ++ ['"']).map some ++ rest) =
        readLines .quoted cells (some c :: cell) ((doubled cs ++ ['"']).map some ++ rest) := by
      by_cases hc : c = '"'
      · subst hc
        rfl
      · have hdoubled : doubled (c :: cs) = c :: doubled cs := by simp [doubled, hc]
        rw [hdoubled, List.cons_append, List.map_cons, List.cons_append, readLines,
          if_neg fun h => hc (Option.some.inj h)]
    rw [hstep, ih]
    simp

/-! ## Written cells -/

theorem isBare_of_needsQuotes {cs : List Char} (h : needsQuotes cs = false) :
    ∀ c ∈ cs, IsBare c := by
  intro c hc
  have hnot := List.any_eq_false.1 h c hc
  simp only [Bool.or_eq_true, beq_iff_eq, not_or] at hnot
  exact ⟨hnot.1.1.1, hnot.1.1.2, hnot.1.2, hnot.2⟩

theorem renderCell_of_quotes {cs : List Char} (h : needsQuotes cs = true) :
    renderCell cs = '"' :: (doubled cs ++ ['"']) := by
  rw [renderCell, if_pos h]
  rfl

/-- **A written cell is collected** from the beginning of a cell to inside the line. -/
theorem exists_readLines_renderCell (cs : List Char) :
    ∃ position : Position, position.IsInside ∧
      readLines .cellStart cells [] ((renderCell cs).map some ++ rest) =
        readLines position cells (cs.reverse.map some) rest := by
  cases hquotes : needsQuotes cs with
  | true =>
    refine ⟨.afterQuote, by decide, ?_⟩
    have hquoted := readLines_doubled cells [] rest cs
    rw [List.append_nil] at hquoted
    rw [renderCell_of_quotes hquotes, ← hquoted]
    rfl
  | false =>
    have hbare := isBare_of_needsQuotes hquotes
    rw [renderCell, if_neg (by simp [hquotes])]
    cases cs with
    | nil => exact ⟨.cellStart, by decide, rfl⟩
    | cons c cs =>
      obtain ⟨hc, hcs⟩ := List.forall_mem_cons.1 hbare
      refine ⟨.bare, by decide, ?_⟩
      rw [List.map_cons, List.cons_append, readLines_bare_cons _ _ _ hc (by decide),
        readLines_bare _ _ _ hcs]
      simp

/-- At the beginning of a line a written cell is collected as well, unless it is empty and
the machine stays where it is. -/
theorem readLines_renderCell_comma (cs : List Char) :
    readLines .lineStart [] [] ((renderCell cs).map some ++ some ',' :: rest) =
      readLines .cellStart [cs.map some] [] rest := by
  cases hquotes : needsQuotes cs with
  | true =>
    have hquoted := readLines_doubled [] [] (some ',' :: rest) cs
    rw [List.append_nil, readLines_comma _ _ _ (by decide), List.map_reverse,
      List.reverse_reverse] at hquoted
    rw [renderCell_of_quotes hquotes, ← hquoted]
    rfl
  | false =>
    have hbare := isBare_of_needsQuotes hquotes
    rw [renderCell, if_neg (by simp [hquotes])]
    cases cs with
    | nil => rfl
    | cons c cs =>
      obtain ⟨hc, hcs⟩ := List.forall_mem_cons.1 hbare
      rw [List.map_cons, List.cons_append, readLines_bare_cons _ _ _ hc (by decide),
        readLines_bare _ _ _ hcs, readLines_comma _ _ _ (by decide)]
      simp

/-- A cell as it is read. -/
def cellOf (s : String) : Cell :=
  s.toList.map some

theorem cellText?_cellOf (s : String) : cellText? (cellOf s) = some s := by
  have hchar : ∀ c ∈ s.toList, id (some c) = some (id c) := fun _ _ => rfl
  have hchars : (cellOf s).mapM id = some (s.toList.map id) :=
    Sequence.mapM_map_eq_pure hchar
  rw [cellText?, hchars, List.map_id, Option.map_some, String.ofList_toList]

/-! ## Written lines -/

/-- The rest of a line is read cell by cell. -/
theorem readLines_renderCells (h : position.IsInside) (line : List String) :
    readLines position cells cell ((renderCells (line.map String.toList)).map some ++ rest) =
      ((cell.reverse :: cells).reverse ++ line.map cellOf) ::
        readLines .lineStart [] [] rest := by
  induction line generalizing position cells cell with
  | nil =>
    simp only [List.map_nil, List.append_nil]
    exact readLines_lineEnd cells cell rest h
  | cons s line ih =>
    have htext : (renderCells ((s :: line).map String.toList)).map some ++ rest =
        some ',' :: ((renderCell s.toList).map some ++
          ((renderCells (line.map String.toList)).map some ++ rest)) := by
      simp [renderCells]
    obtain ⟨inner, hinner, hcell⟩ := exists_readLines_renderCell (cell.reverse :: cells)
      ((renderCells (line.map String.toList)).map some ++ rest) s.toList
    rw [htext, readLines_comma _ _ _ h, hcell, ih _ _ hinner]
    simp [cellOf, List.map_reverse]

/-- **A line of at least two cells reads back.** -/
theorem readLines_renderLine (s t : String) (line : List String) :
    readLines .lineStart [] []
        ((renderLine ((s :: t :: line).map String.toList)).map some ++ rest) =
      (s :: t :: line).map cellOf :: readLines .lineStart [] [] rest := by
  have htext : (renderLine ((s :: t :: line).map String.toList)).map some ++ rest =
      (renderCell s.toList).map some ++ some ',' :: ((renderCell t.toList).map some ++
        ((renderCells (line.map String.toList)).map some ++ rest)) := by
    simp [renderLine, renderCells]
  obtain ⟨inner, hinner, hcell⟩ := exists_readLines_renderCell [s.toList.map some]
    ((renderCells (line.map String.toList)).map some ++ rest) t.toList
  rw [htext, readLines_renderCell_comma, hcell, readLines_renderCells _ _ _ hinner]
  simp [cellOf, List.map_reverse]

end Csv
end Linguist
