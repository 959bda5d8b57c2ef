import Linguist.Markup.Reference
import Linguist.Proofs.Text.Numeral

/-!
# Reading back escaped text

Both ways of writing text replace one character at a time, and reading is a machine
that is at rest between references.  So the statements here are about one character
in front of an arbitrary rest (`unescapeFrom?_escapeChar`, `unescapeFrom?_protectChar`),
and the statements about texts are an induction over them.

## What cannot be written

The code of a reference is not zero, so U+0000 has no reference.  In the value of an
attribute it stands for itself and reads back; in the content of an element it is
written as a control character is, and what is written there reads back as nothing.
This is the only exception (`unescape?_protect`).

## What cannot occur

The written form contains no opening bracket, and in the value of an attribute no
quote.  The modules on tags and on events use nothing else about it.
-/

namespace Linguist
namespace Markup

/-! ## Characters with a name -/

/-- The five characters that have a name. -/
theorem entity?_eq_none_iff (c : Char) :
    entity? c = none ↔ c ≠ '<' ∧ c ≠ '>' ∧ c ≠ '&' ∧ c ≠ '\'' ∧ c ≠ '"' := by
  unfold entity?
  split <;> simp_all

theorem escapeChar_of_named {c : Char} {name : String} (h : entity? c = some name) :
    escapeChar c = '&' :: name.toList ++ [';'] := by
  rw [escapeChar, h]

theorem escapeChar_of_unnamed {c : Char} (h : entity? c = none) : escapeChar c = [c] := by
  rw [escapeChar, h]

/-- A name resolves to the character that has it. -/
theorem resolve?_entity {c : Char} {name : String} (h : entity? c = some name) :
    resolve? name.toList = some c := by
  unfold entity? at h
  split at h <;> cases h <;> rfl

/-- Neither a name nor the mark of a code contains what ends a reference. -/
def IsBody (body : List Char) : Prop :=
  ∀ d ∈ body, d ≠ '&' ∧ d ≠ ';'

-- the characters of the body are tried, not all characters
instance (body : List Char) : Decidable (IsBody body) :=
  List.decidableBAll (fun d => d ≠ '&' ∧ d ≠ ';') body

theorem isBody_entity {c : Char} {name : String} (h : entity? c = some name) :
    IsBody name.toList := by
  unfold entity? at h
  split at h <;> cases h <;> decide

/-! ## One reference -/

/-- A reference that has begun is read to its semicolon. -/
theorem unescapeFrom?_body (seen : List Char) {body : List Char} (hbody : IsBody body)
    (rest : List Char) :
    unescapeFrom? (some seen) (body ++ ';' :: rest) =
      (resolve? (seen.reverse ++ body)).bind fun d => (unescapeFrom? none rest).map (d :: ·) := by
  induction body generalizing seen with
  | nil => simp [unescapeFrom?]
  | cons d body ih =>
    obtain ⟨hamp, hsemi⟩ := hbody d List.mem_cons_self
    have htail : IsBody body := fun e he => hbody e (List.mem_cons_of_mem d he)
    rw [List.cons_append, unescapeFrom?, if_neg hamp, if_neg hsemi, ih (d :: seen) htail,
      List.reverse_cons, List.append_assoc, List.singleton_append]

/-- A reference that denotes a character reads as that character. -/
theorem unescapeFrom?_reference {body : List Char} (hbody : IsBody body) {c : Char}
    (hc : resolve? body = some c) (rest : List Char) :
    unescapeFrom? none ('&' :: body ++ [';'] ++ rest) =
      (unescapeFrom? none rest).map (c :: ·) := by
  rw [List.append_assoc, List.singleton_append, List.cons_append, unescapeFrom?, if_pos rfl,
    unescapeFrom?_body [] hbody, List.reverse_nil, List.nil_append, hc, Option.bind_some]

theorem unescapeFrom?_escapeChar (c : Char) (rest : List Char) :
    unescapeFrom? none (escapeChar c ++ rest) = (unescapeFrom? none rest).map (c :: ·) := by
  cases h : entity? c with
  | some name =>
    rw [escapeChar_of_named h]
    exact unescapeFrom?_reference (isBody_entity h) (resolve?_entity h) rest
  | none =>
    have hamp : c ≠ '&' := ((entity?_eq_none_iff c).1 h).2.2.1
    rw [escapeChar_of_unnamed h, List.singleton_append, unescapeFrom?, if_neg hamp]

/-! ## Control characters -/

theorem charOfCode?_toNat (c : Char) : Text.charOfCode? c.toNat = some c := by
  have hvalid : c.toNat.isValidChar := c.valid
  rw [Text.charOfCode?, dif_pos hvalid]
  rfl

/-- The code of a character other than U+0000 resolves to it. -/
theorem resolve?_hexadecimal {c : Char} (hc : c ≠ '\x00') :
    resolve? ('#' :: 'x' :: Text.hexadecimal c.toNat) = some c := by
  have hcode : c.toNat ≠ 0 := fun h => hc (Char.toNat_inj.1 h)
  have hread : Text.readNat? 16 (Text.hexadecimal c.toNat) = some c.toNat :=
    Text.readNat?_toDigits (by decide) (by decide) c.toNat
  show charOfReference? 16 (Text.hexadecimal c.toNat) = some c
  unfold charOfReference?
  rw [hread]
  split
  · rename_i h
    exact absurd (Option.some.inj h) hcode
  · rename_i n _ h
    rw [← Option.some.inj h]
    exact charOfCode?_toNat c
  · rename_i h
    exact absurd h (Option.some_ne_none _)

theorem isBody_hexadecimal {n : Nat} (hn : n < 0x20) :
    IsBody ('#' :: 'x' :: Text.hexadecimal n) := by
  have hall : ∀ n < 0x20, IsBody ('#' :: 'x' :: Text.hexadecimal n) := by decide
  exact hall n hn

theorem unescapeFrom?_protectChar {c : Char} (hc : c ≠ '\x00') (rest : List Char) :
    unescapeFrom? none (protectChar c ++ rest) = (unescapeFrom? none rest).map (c :: ·) := by
  unfold protectChar
  split
  · rename_i h
    rw [Bool.and_eq_true, decide_eq_true_iff] at h
    exact unescapeFrom?_reference (isBody_hexadecimal h.1) (resolve?_hexadecimal hc) rest
  · exact unescapeFrom?_escapeChar c rest

/-! ## Texts -/

/-- **The value of an attribute reads back,** whatever its characters are. -/
theorem unescape?_escape (cs : List Char) : unescape? (escape cs) = some cs := by
  unfold unescape? escape
  induction cs with
  | nil => rfl
  | cons c cs ih => rw [List.flatMap_cons, unescapeFrom?_escapeChar, ih, Option.map_some]

/-- **The content of an element reads back,** unless U+0000 occurs in it. -/
theorem unescape?_protect {cs : List Char} (h : '\x00' ∉ cs) : unescape? (protect cs) = some cs := by
  unfold unescape? protect
  induction cs with
  | nil => rfl
  | cons c cs ih =>
    rw [List.mem_cons, not_or] at h
    rw [List.flatMap_cons, unescapeFrom?_protectChar (Ne.symm h.1), ih h.2, Option.map_some]

/-- **U+0000 has no written form:** what is written for it reads back as nothing. -/
theorem unescape?_protect_of_mem {cs : List Char} (h : '\x00' ∈ cs) :
    unescape? (protect cs) = none := by
  have hbody : IsBody ['#', 'x', '0'] := by decide
  unfold unescape? protect
  induction cs with
  | nil => cases h
  | cons c cs ih =>
    rw [List.flatMap_cons]
    by_cases hc : c = '\x00'
    · subst hc
      show unescapeFrom? none ('&' :: (['#', 'x', '0'] ++ ';' :: _)) = none
      rw [unescapeFrom?, if_pos rfl, unescapeFrom?_body [] hbody]
      rfl
    · have hcs : '\x00' ∈ cs := (List.mem_cons.1 h).resolve_left (Ne.symm hc)
      rw [unescapeFrom?_protectChar hc, ih hcs, Option.map_none]

/-- A text without references reads as it stands. -/
theorem unescape?_of_notMem {cs : List Char} (h : '&' ∉ cs) : unescape? cs = some cs := by
  unfold unescape?
  induction cs with
  | nil => rfl
  | cons c cs ih =>
    rw [List.mem_cons, not_or] at h
    rw [unescapeFrom?, if_neg (Ne.symm h.1), ih h.2, Option.map_some]

/-! ## What the written form leaves out -/

theorem notMem_escapeChar {c d : Char} (hd : d = '<' ∨ d = '>' ∨ d = '\'' ∨ d = '"') :
    d ∉ escapeChar c := by
  cases h : entity? c with
  | some name =>
    rw [escapeChar_of_named h]
    unfold entity? at h
    split at h <;> cases h <;> rcases hd with rfl | rfl | rfl | rfl <;> decide
  | none =>
    obtain ⟨h1, h2, -, h4, h5⟩ := (entity?_eq_none_iff c).1 h
    rw [escapeChar_of_unnamed h, List.mem_singleton]
    rcases hd with rfl | rfl | rfl | rfl
    · exact Ne.symm h1
    · exact Ne.symm h2
    · exact Ne.symm h4
    · exact Ne.symm h5

theorem quote_notMem_escape (cs : List Char) : '"' ∉ escape cs := by
  intro h
  obtain ⟨c, -, hc⟩ := List.mem_flatMap.1 h
  exact notMem_escapeChar (by simp) hc

theorem bracket_notMem_protectChar (c : Char) : '<' ∉ protectChar c := by
  unfold protectChar
  split
  · rename_i h
    rw [Bool.and_eq_true, decide_eq_true_iff] at h
    have hall : ∀ n < 0x20, '<' ∉ ['&', '#', 'x'] ++ Text.hexadecimal n ++ [';'] := by decide
    exact hall c.toNat h.1
  · exact notMem_escapeChar (by simp)

theorem bracket_notMem_protect (cs : List Char) : '<' ∉ protect cs := by
  intro h
  obtain ⟨c, -, hc⟩ := List.mem_flatMap.1 h
  exact bracket_notMem_protectChar c hc

theorem protectChar_ne_nil (c : Char) : protectChar c ≠ [] := by
  unfold protectChar escapeChar
  split
  · simp
  · split <;> simp

theorem protect_ne_nil {cs : List Char} (h : cs ≠ []) : protect cs ≠ [] := by
  obtain ⟨c, cs, rfl⟩ := List.exists_cons_of_ne_nil h
  rw [protect, List.flatMap_cons]
  exact List.append_ne_nil_of_left_ne_nil (protectChar_ne_nil c) _

end Markup
end Linguist
