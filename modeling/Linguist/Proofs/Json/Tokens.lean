import Linguist.Json.Printer
import Linguist.Json.Reader
import Linguist.Proofs.Text.Numeral

/-!
# Tokens read back

The smallest pieces of a JSON text are read as the tokens that they were written for,
whatever follows them, or nearly so.

* A character of a string is escaped on its own, so a string reads back character by
  character.  A control character may come back as the number of a code unit instead of as
  itself; both denote the same text (`readString?_escapeChar`).
* A mark is a token on its own, and a blank is none.
* A string ends where its quote is, but a number or a word ends only where the text goes on
  with another kind of character.  So what follows has to be *apart* from it
  (`tokens?_number`, `tokens?_word`).
-/

namespace Linguist
namespace Json

/-! ## Strings -/

theorem readNat?_fourDigits {n : Nat} (hn : n < 32) :
    Text.readNat? 16 ['0', '0', Nat.digitChar (n / 16), Nat.digitChar (n % 16)] = some n := by
  have hall : ∀ n < 32,
      Text.readNat? 16 ['0', '0', Nat.digitChar (n / 16), Nat.digitChar (n % 16)] = some n := by
    decide
  exact hall n hn

/-- **A written character reads back** as one part of a string, whatever follows it. -/
theorem readString?_escapeChar (c : Char) : ∃ piece : Piece,
    (∀ rest, readString? ((escapeChar c).map some ++ rest) =
      (readString? rest).map fun (pieces, rest) => (piece :: pieces, rest)) ∧
    ∀ pieces, textOfPieces? (piece :: pieces) = (textOfPieces? pieces).map (c :: ·) := by
  fun_cases escapeChar c
  case case1 h | case2 h | case3 h | case4 h | case5 h | case6 h | case7 h =>
    -- The escapes of two characters, each of a character of its own.
    obtain rfl := beq_iff_eq.1 h
    exact ⟨.char _, fun _ => rfl, fun _ => rfl⟩
  case case8 hcontrol =>
    refine ⟨.unit c.toNat, fun rest => ?_, fun pieces => ?_⟩
    · have hdigits : fourDigits? [some '0', some '0', some (Nat.digitChar (c.toNat / 16)),
          some (Nat.digitChar (c.toNat % 16))] = some c.toNat := readNat?_fourDigits hcontrol
      simp only [List.map_cons, List.map_nil, List.cons_append, List.nil_append, readString?,
        hdigits, Option.bind_some]
    · have hlow : c.toNat < 0xD800 ∨ 0xE000 ≤ c.toNat := Or.inl (by omega)
      rw [textOfPieces?.eq_def]
      dsimp only
      rw [if_pos hlow, Char.ofNat_toNat]
  case case9 hquote hslash _ _ _ _ _ hcontrol =>
    refine ⟨.char c, fun rest => ?_, fun _ => rfl⟩
    have hquote : c ≠ '"' := fun h => hquote (beq_iff_eq.2 h)
    have hslash : c ≠ '\\' := fun h => hslash (beq_iff_eq.2 h)
    simp [readString?, hslash, hcontrol]

/-- A written text reads back up to its closing quote. -/
theorem readString?_flatMap_escapeChar (cs : List Char) (rest : List (Option Char)) :
    ∃ pieces, readString? ((cs.flatMap escapeChar ++ ['"']).map some ++ rest) =
      some (pieces, rest) ∧ textOfPieces? pieces = some cs := by
  induction cs with
  | nil => exact ⟨[], rfl, rfl⟩
  | cons c cs ih =>
    obtain ⟨pieces, hread, htext⟩ := ih
    obtain ⟨piece, hchar, hpiece⟩ := readString?_escapeChar c
    refine ⟨piece :: pieces, ?_, by rw [hpiece, htext, Option.map_some]⟩
    rw [List.flatMap_cons, List.append_assoc, List.map_append, List.append_assoc, hchar, hread,
      Option.map_some]

/-! ## Tokens -/

theorem tokens?_nil : tokens? [] = some [] := by
  rw [tokens?]

theorem tokens?_blank {c : Char} (h : isSpace c = true) (rest : List (Option Char)) :
    tokens? (some c :: rest) = tokens? rest := by
  rw [tokens?, if_pos h]

theorem tokens?_renderText (s : String) (rest : List (Option Char)) :
    tokens? ((renderText s).map some ++ rest) = (tokens? rest).map (.text (some s) :: ·) := by
  obtain ⟨pieces, hread, htext⟩ := readString?_flatMap_escapeChar s.toList rest
  have hquote : (renderText s).map some ++ rest =
      some '"' :: ((s.toList.flatMap escapeChar ++ ['"']).map some ++ rest) := rfl
  rw [hquote, tokens?, if_neg (by decide), if_pos rfl]
  split
  · rename_i pieces' more h
    rw [hread] at h
    cases h
    rw [htext, Option.map_some, String.ofList_toList]
  · rename_i h
    rw [hread] at h
    cases h

/-- A mark is a token on its own. -/
theorem tokens?_mark {c : Char} {token : Token} (h : markToken? c = some token)
    (rest : List (Option Char)) : tokens? (some c :: rest) = (tokens? rest).map (token :: ·) := by
  fun_cases markToken? c with
  | case7 => simp [markToken?] at h
  | _ => cases h; rw [tokens?]; rfl

/-- The text does not begin with a character that a number or a word may contain. -/
def Apart (cs : List (Option Char)) : Prop :=
  ∀ c rest, cs = some c :: rest → isNumberChar c = false ∧ c.isAlpha = false

theorem apart_nil : Apart [] :=
  nofun

theorem apart_cons {c : Char} (hnumber : isNumberChar c = false) (hword : c.isAlpha = false)
    (rest : List (Option Char)) : Apart (some c :: rest) := by
  intro d more h
  obtain ⟨rfl, -⟩ : c = d ∧ rest = more := by simpa using h
  exact ⟨hnumber, hword⟩

theorem isSpace_iff {c : Char} : isSpace c = true ↔ c = ' ' ∨ c = '\n' ∨ c = '\t' ∨ c = '\r' := by
  simp [isSpace, or_assoc]

theorem apart_blank {c : Char} (h : isSpace c = true) (rest : List (Option Char)) :
    Apart (some c :: rest) := by
  rcases isSpace_iff.1 h with rfl | rfl | rfl | rfl <;>
    exact apart_cons (by decide) (by decide) rest

/-- Blanks keep apart what follows them. -/
theorem apart_append {bs : List Char} (h : ∀ c ∈ bs, isSpace c = true)
    {rest : List (Option Char)} (hrest : Apart rest) : Apart (bs.map some ++ rest) := by
  cases bs with
  | nil => exact hrest
  | cons b bs => exact apart_blank (h b List.mem_cons_self) _

/-- The characters that pass a test are taken up to the first that does not. -/
theorem takeChars_append {p : Char → Bool} {cs : List Char} {rest : List (Option Char)}
    (hcs : ∀ c ∈ cs, p c = true) (hrest : ∀ c more, rest = some c :: more → p c = false) :
    takeChars p (cs.map some ++ rest) = cs ∧ dropChars p (cs.map some ++ rest) = rest := by
  induction cs with
  | nil =>
    rw [List.map_nil, List.nil_append]
    match rest with
    | [] => exact ⟨rfl, rfl⟩
    | none :: more => exact ⟨rfl, rfl⟩
    | some c :: more =>
      have hc := hrest c more rfl
      rw [takeChars, dropChars, hc]
      exact ⟨rfl, rfl⟩
  | cons c cs ih =>
    obtain ⟨hc, hcs⟩ := List.forall_mem_cons.1 hcs
    obtain ⟨htake, hdrop⟩ := ih hcs
    rw [List.map_cons, List.cons_append, takeChars, dropChars, if_pos hc, if_pos hc, htake]
    exact ⟨rfl, hdrop⟩

/-- What begins a number or a word is neither a blank nor a quote. -/
theorem not_blank_of_begins {c : Char} (h : isNumberChar c = true ∨ c.isAlpha = true) :
    isSpace c = false ∧ c ≠ '"' := by
  constructor
  · rw [Bool.eq_false_iff]
    intro hspace
    rcases isSpace_iff.1 hspace with rfl | rfl | rfl | rfl <;> revert h <;> decide
  · rintro rfl
    revert h
    decide

/-- A word is a token if what follows is apart from it. -/
theorem tokens?_word {c : Char} {cs : List Char} {token : Token}
    (hcs : (c :: cs).all Char.isAlpha = true) (htoken : wordToken? (c :: cs) = some token)
    {rest : List (Option Char)} (hrest : Apart rest) :
    tokens? ((c :: cs).map some ++ rest) = (tokens? rest).map (token :: ·) := by
  obtain ⟨hc, hcs⟩ := List.forall_mem_cons.1 (List.all_eq_true.1 hcs)
  obtain ⟨hspace, hquote⟩ := not_blank_of_begins (Or.inr hc)
  obtain ⟨htake, hdrop⟩ := takeChars_append hcs fun d more h => (hrest d more h).2
  rw [List.map_cons, List.cons_append, tokens?]
  simp only [hspace, hquote, hc, htake, hdrop, htoken, Bool.not_true, Bool.and_false,
    Bool.false_eq_true, if_false, if_true, Option.bind_some]

/-! ## Numbers -/

theorem isNumberChar_of_isDigit {c : Char} (h : c.isDigit = true) : isNumberChar c = true := by
  simp [isNumberChar, h]

theorem isNumberChar_of_isExponent {cs : List Char} (h : isExponent cs = true) :
    ∀ c ∈ cs, isNumberChar c = true := by
  have hmark : ∀ c : Char, (c == 'e' || c == 'E') = true → isNumberChar c = true := by
    intro c hc
    rcases Bool.or_eq_true_iff.1 hc with hc | hc <;> (obtain rfl := beq_iff_eq.1 hc; decide)
  have hdigits : ∀ ds : List Char, (!ds.isEmpty && ds.all Char.isDigit) = true →
      ∀ d ∈ ds, isNumberChar d = true := by
    intro ds hds d hd
    rw [Bool.and_eq_true, List.all_eq_true] at hds
    exact isNumberChar_of_isDigit (hds.2 d hd)
  unfold isExponent at h
  split at h
  · exact fun c hc => absurd hc List.not_mem_nil
  · rename_i c rest
    rw [Bool.and_eq_true] at h
    refine List.forall_mem_cons.2 ⟨hmark c h.1, ?_⟩
    -- the sign of the exponent, if it has one
    have hrest := h.2
    dsimp only at hrest
    split at hrest
    · exact List.forall_mem_cons.2 ⟨by decide, hdigits _ hrest⟩
    · exact List.forall_mem_cons.2 ⟨by decide, hdigits _ hrest⟩
    · exact hdigits _ hrest

theorem isNumberChar_of_takeDigits (cs : List Char) :
    ∀ c ∈ cs.takeWhile Char.isDigit, isNumberChar c = true :=
  fun c hc => isNumberChar_of_isDigit (List.all_eq_true.1 List.all_takeWhile c hc)

theorem isNumberChar_of_isFraction {cs : List Char} (h : isFraction cs = true) :
    ∀ c ∈ cs, isNumberChar c = true := by
  unfold isFraction at h
  split at h
  · rename_i rest
    rw [Bool.and_eq_true] at h
    rw [← List.takeWhile_append_dropWhile (p := Char.isDigit) (l := rest)]
    refine List.forall_mem_cons.2 ⟨by decide, List.forall_mem_append.2 ⟨?_, ?_⟩⟩
    · exact isNumberChar_of_takeDigits rest
    · exact isNumberChar_of_isExponent h.2
  · exact isNumberChar_of_isExponent h

theorem isNumberChar_of_digits {cs : List Char}
    (h : isFraction (cs.dropWhile Char.isDigit) = true) : ∀ c ∈ cs, isNumberChar c = true := by
  rw [← List.takeWhile_append_dropWhile (p := Char.isDigit) (l := cs)]
  exact List.forall_mem_append.2 ⟨isNumberChar_of_takeDigits cs, isNumberChar_of_isFraction h⟩

/-- What is left of a text without its sign is all of it or all but the sign. -/
theorem eq_or_eq_of_unsigned {cs ds : List Char}
    (h : (match cs with | '-' :: rest => rest | _ => cs) = ds) : cs = ds ∨ cs = '-' :: ds := by
  split at h
  · exact Or.inr (congrArg _ h)
  · exact Or.inl h

/-- **What is in a number:** perhaps a minus sign, a digit, and then nothing that may not be in
a number. -/
theorem exists_of_isNumber {cs : List Char} (h : isNumber cs = true) :
    ∃ c rest, (cs = c :: rest ∨ cs = '-' :: c :: rest) ∧ c.isDigit = true ∧
      ∀ d ∈ rest, isNumberChar d = true := by
  unfold isNumber at h
  dsimp only at h
  split at h
  · rename_i rest hzero
    exact ⟨'0', rest, eq_or_eq_of_unsigned hzero, by decide, isNumberChar_of_isFraction h⟩
  · rename_i c rest _ hcons
    rw [Bool.and_eq_true] at h
    exact ⟨c, rest, eq_or_eq_of_unsigned hcons, h.1, isNumberChar_of_digits h.2⟩
  · cases h

/-- A number is a token if what follows is apart from it. -/
theorem tokens?_number {cs : List Char} (h : isNumber cs = true) {rest : List (Option Char)}
    (hrest : Apart rest) : tokens? (cs.map some ++ rest) =
      (tokens? rest).map (.scalar (.number (String.ofList cs)) :: ·) := by
  obtain ⟨c, ds, hcs, hc, hds⟩ : ∃ c ds, cs = c :: ds ∧ (isNumberChar c && !c.isAlpha) = true ∧
      ∀ d ∈ ds, isNumberChar d = true := by
    obtain ⟨c, ds, hcs | hcs, hc, hds⟩ := exists_of_isNumber h
    · refine ⟨c, ds, hcs, ?_, hds⟩
      rw [isNumberChar_of_isDigit hc, Text.not_isAlpha_of_isDigit hc]
      rfl
    · exact ⟨'-', c :: ds, hcs, by decide,
        List.forall_mem_cons.2 ⟨isNumberChar_of_isDigit hc, hds⟩⟩
  subst hcs
  have hnumber : isNumberChar c = true := (Bool.and_eq_true_iff.1 hc).1
  obtain ⟨hspace, hquote⟩ := not_blank_of_begins (Or.inl hnumber)
  obtain ⟨htake, hdrop⟩ := takeChars_append hds fun d more hd => (hrest d more hd).1
  rw [List.map_cons, List.cons_append, tokens?]
  simp only [hspace, hquote, hc, htake, hdrop, h, Bool.false_eq_true, if_false, if_true]

end Json
end Linguist
