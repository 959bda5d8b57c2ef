import Linguist.Catalogue.Rows
import Linguist.Proofs.Text.Numeral
import Linguist.Sequence
import Mathlib.Data.List.Basic

/-!
# Places in a cell

The places of a message stand in one cell, with semicolons between them, and nothing in it
is quoted.  Reading cuts at the semicolons, trims the items, passes over empty ones, and
takes what follows the last colon of an item for its line.

A place is *tabular* if it can be told apart that way: its file is given, is not empty, has
no semicolon and no blanks at its ends, and has no colon if there is no line.  Tabular places
read back (`readPlaces_of_tabular`).  A colon in a file with a line does no harm, because a
line is written with digits and signs only.
-/

namespace Linguist

/-! ## Trimming -/

namespace Text

theorem trimStart_eq_self {cs : List Char} {c : Char} (hhead : cs.head? = some c)
    (hc : isBlank c = false) : trimStart cs = cs := by
  cases cs with
  | nil => rfl
  | cons b bs =>
    cases Option.some.inj hhead
    rw [trimStart, List.dropWhile_cons_of_neg (by simp [hc])]

/-- Nothing is trimmed off a list that begins and ends with no blank. -/
theorem trim_eq_self {cs : List Char} {c d : Char} (hhead : cs.head? = some c)
    (hlast : cs.getLast? = some d) (hc : isBlank c = false) (hd : isBlank d = false) :
    trim cs = cs := by
  rw [trim, trimStart_eq_self hhead hc, trimEnd,
    trimStart_eq_self (List.head?_reverse.trans hlast) hd, List.reverse_reverse]

theorem length_trimStart_le (cs : List Char) : (trimStart cs).length ≤ cs.length :=
  (List.dropWhile_sublist isBlank).length_le

theorem length_trim_le (cs : List Char) : (trim cs).length ≤ (trimStart cs).length := by
  have hend := length_trimStart_le (trimStart cs).reverse
  rwa [List.length_reverse, ← List.length_reverse] at hend

/-- A list that nothing is trimmed off begins with no blank. -/
theorem isBlank_head_of_trim {c : Char} {cs : List Char} (h : trim (c :: cs) = c :: cs) :
    isBlank c = false := by
  by_contra hblank
  have hstart : trimStart (c :: cs) = trimStart cs :=
    List.dropWhile_cons_of_pos (by simpa using hblank)
  have hlength := length_trim_le (c :: cs)
  rw [h, hstart, List.length_cons] at hlength
  have hrest := length_trimStart_le cs
  omega

theorem trim_toList {s : String} (h : trimmed s = s) : trim s.toList = s.toList := by
  have hlist := congrArg String.toList h
  rwa [trimmed, String.toList_ofList] at hlist

theorem isBlank_of_isDigit {c : Char} (h : c.isDigit = true) : isBlank c = false := by
  simp only [Char.isDigit, Bool.and_eq_true, decide_eq_true_eq] at h
  have hlow : 48 ≤ c.toNat := h.1
  have hhigh : c.toNat ≤ 57 := h.2
  simp [isBlank]
  omega

end Text

/-! ## Lines -/

namespace LineNumber

variable {l : LineNumber} {c : Char}

/-- A line is written as a number, which a sign may lead. -/
theorem exists_toList_text (l : LineNumber) : ∃ n, l.text.toList = Text.decimal n ∨
    l.text.toList = '+' :: Text.decimal n ∨ l.text.toList = '-' :: Text.decimal n := by
  cases l with
  | absolute line => exact ⟨line.toNat, Or.inl String.toList_ofList⟩
  | relative offset =>
    have htext : (relative offset).text.toList = Text.signed offset := String.toList_ofList
    rw [htext]
    rcases Text.signed_eq_cons offset with ⟨hs, -⟩ | ⟨hs, -⟩
    · exact ⟨_, Or.inr (Or.inl hs)⟩
    · exact ⟨_, Or.inr (Or.inr hs)⟩

theorem toList_text_ne_nil (l : LineNumber) : l.text.toList ≠ [] := by
  obtain ⟨n, h | h | h⟩ := l.exists_toList_text
  · rw [h]
    exact Nat.toDigits_ne_nil
  · rw [h]
    exact List.cons_ne_nil _ _
  · rw [h]
    exact List.cons_ne_nil _ _

theorem isDigit_or_sign (hc : c ∈ l.text.toList) : c.isDigit = true ∨ c = '+' ∨ c = '-' := by
  have hdigit : ∀ {n : Nat}, c ∈ Text.decimal n → c.isDigit = true := fun h =>
    Nat.isDigit_of_mem_toDigits (by decide) (by decide) h
  obtain ⟨n, h | h | h⟩ := l.exists_toList_text
  · rw [h] at hc
    exact Or.inl (hdigit hc)
  · rw [h, List.mem_cons] at hc
    exact hc.elim (fun hsign => Or.inr (Or.inl hsign)) fun hc => Or.inl (hdigit hc)
  · rw [h, List.mem_cons] at hc
    exact hc.elim (fun hsign => Or.inr (Or.inr hsign)) fun hc => Or.inl (hdigit hc)

/-- No character of a line separates items, and none is blank. -/
theorem ne_mark_of_mem_text (hc : c ∈ l.text.toList) :
    c ≠ ':' ∧ c ≠ ';' ∧ Text.isBlank c = false := by
  rcases isDigit_or_sign hc with hdigit | rfl | rfl
  · refine ⟨?_, ?_, Text.isBlank_of_isDigit hdigit⟩ <;> rintro rfl <;>
      exact absurd hdigit (by decide)
  · decide
  · decide

end LineNumber

/-! ## Places -/

namespace Place

/-- The place can be told apart in a list. -/
def Tabular : Place → Prop
  | ⟨none, _⟩ => False
  | ⟨some file, line?⟩ =>
    file ≠ "" ∧ ';' ∉ file.toList ∧ Text.trimmed file = file ∧ (line? = none → ':' ∉ file.toList)

instance (p : Place) : Decidable p.Tabular :=
  match p with
  | ⟨none, _⟩ => inferInstanceAs (Decidable False)
  | ⟨some _, _⟩ => inferInstanceAs (Decidable (_ ∧ _))

theorem toList_text_line (file : String) (line : LineNumber) :
    (text ⟨some file, some line⟩).toList = file.toList ++ ':' :: line.text.toList := by
  simp [text]

/-- What is written for a tabular place. -/
theorem Tabular.text_spec {p : Place} (h : p.Tabular) :
    p.text.toList ≠ [] ∧ ';' ∉ p.text.toList ∧ Text.trim p.text.toList = p.text.toList := by
  obtain ⟨file?, line?⟩ := p
  cases file? with
  | none => exact h.elim
  | some file =>
    obtain ⟨hfile, hsemicolon, htrimmed, -⟩ := h
    have htrim := Text.trim_toList htrimmed
    have hne : file.toList ≠ [] := fun hnil => hfile (String.toList_eq_nil_iff.1 hnil)
    cases line? with
    | none => exact ⟨hne, hsemicolon, htrim⟩
    | some line =>
      rw [toList_text_line]
      refine ⟨by simp, ?_, ?_⟩
      · rw [List.mem_append, List.mem_cons]
        rintro (hmem | hcolon | hmem)
        · exact hsemicolon hmem
        · exact absurd hcolon (by decide)
        · exact (LineNumber.ne_mark_of_mem_text hmem).2.1 rfl
      · -- The item begins as the file does and ends as the line does.
        obtain ⟨c, cs, hcs⟩ := List.exists_cons_of_ne_nil hne
        have hlast := List.getLast?_eq_some_getLast line.toList_text_ne_nil
        have hhead : Text.isBlank c = false := Text.isBlank_head_of_trim (hcs ▸ htrim)
        have hend := (LineNumber.ne_mark_of_mem_text (List.getLast_mem line.toList_text_ne_nil)).2.2
        refine Text.trim_eq_self (by rw [hcs]; rfl) ?_ hhead hend
        rw [List.getLast?_append, List.getLast?_cons, hlast]
        rfl

end Place

namespace Csv
namespace Row

/-! ## Items -/

theorem all_bne_reverse {c : Char} {cs : List Char} (h : c ∉ cs) :
    ∀ d ∈ cs.reverse, (d != c) = true := by
  intro d hd
  rw [bne_iff_ne]
  rintro rfl
  exact h (List.mem_reverse.1 hd)

theorem splitLast_append {c : Char} (before : List Char) {after : List Char} (h : c ∉ after) :
    splitLast c (before ++ c :: after) = some (before, after) := by
  have hall := all_bne_reverse h
  have hreverse : (before ++ c :: after).reverse = after.reverse ++ c :: before.reverse := by simp
  rw [splitLast, hreverse, List.dropWhile_append_of_pos hall, List.takeWhile_append_of_pos hall,
    List.dropWhile_cons_of_neg (by simp), List.takeWhile_cons_of_neg (by simp)]
  simp

theorem splitLast_eq_none {c : Char} {cs : List Char} (h : c ∉ cs) : splitLast c cs = none := by
  rw [splitLast, ← List.append_nil cs.reverse, List.dropWhile_append_of_pos (all_bne_reverse h)]
  rfl

/-- **The item of a tabular place reads back.** -/
theorem readPlace_text {p : Place} (h : p.Tabular) : readPlace p.text.toList = .ok p := by
  obtain ⟨file?, line?⟩ := p
  cases file? with
  | none => exact h.elim
  | some file =>
    obtain ⟨hfile, -, -, hcolon⟩ := h
    cases line? with
    | none =>
      rw [readPlace, Place.text, splitLast_eq_none (hcolon rfl), String.ofList_toList]
    | some line =>
      have hline : ':' ∉ line.text.toList := fun hmem =>
        (LineNumber.ne_mark_of_mem_text hmem).1 rfl
      have hne : file.toList.isEmpty = false := by simpa using hfile
      rw [readPlace, Place.toList_text_line, splitLast_append _ hline]
      dsimp only
      rw [String.ofList_toList, String.ofList_toList, LineNumber.ofText?_text, hne]
      rfl

/-! ## The list -/

/-- **Tabular places read back.** -/
theorem readPlaces_of_tabular {r : Row} {places : List Place}
    (hr : r.places = String.intercalate ";" (places.map Place.text))
    (h : ∀ p ∈ places, p.Tabular) : r.readPlaces = .ok places := by
  have hitems : (((r.places.toList.splitOn ';').map Text.trim).filter (!·.isEmpty)) =
      places.map fun p => p.text.toList := by
    have hcell : r.places.toList = [';'].intercalate (places.map fun p => p.text.toList) := by
      rw [hr, String.toList_intercalate, List.map_map]
      rfl
    cases places with
    | nil =>
      rw [hcell]
      rfl
    | cons p places =>
      have htrim : ((p :: places).map fun p => p.text.toList).map Text.trim =
          (p :: places).map fun p => p.text.toList := by
        rw [List.map_map]
        exact List.map_congr_left fun q hq => (h q hq).text_spec.2.2
      have hsplit : r.places.toList.splitOn ';' = (p :: places).map fun p => p.text.toList := by
        rw [hcell]
        refine List.splitOn_intercalate ';' ?_ (by simp)
        exact List.forall_mem_map.2 fun q hq => (h q hq).text_spec.2.1
      rw [hsplit, htrim, List.filter_eq_self]
      exact List.forall_mem_map.2 fun q hq => by simpa using (h q hq).text_spec.1
  have hplaces : (places.map fun p => p.text.toList).mapM readPlace = .ok (places.map id) :=
    Sequence.mapM_map_eq_pure fun p hp => readPlace_text (h p hp)
  rw [readPlaces, hitems, hplaces, List.map_id]

end Row
end Csv
end Linguist
