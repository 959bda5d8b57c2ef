import Linguist.Place
import Mathlib.Data.Nat.Notation

/-!
# Reading back written numbers

Numbers are written with `Nat.toDigits` and read digit by digit from the left, so the
induction follows the digits from the right: the last one is the remainder by the
base, and what stands before it is the quotient.

The written form of a number never begins with a sign.  That is what keeps the two
kinds of line numbers apart, an absolute line being written without a sign and a
relative one always with one (`LineNumber.ofText?_text`).
-/

namespace Linguist
namespace Text

/-! ## Digits -/

/-- A digit is no letter. -/
theorem not_isAlpha_of_isDigit {c : Char} (h : c.isDigit = true) : c.isAlpha = false := by
  have hnine : c ≤ '9' := (decide_eq_true_iff.1 (Bool.and_eq_true_iff.1 h).2 : c.val ≤ '9'.val)
  have hupper : ¬ 'A' ≤ c := fun hc => absurd (Char.le_trans hc hnine) (by decide)
  have hlower : ¬ 'a' ≤ c := fun hc => absurd (Char.le_trans hc hnine) (by decide)
  show (c.isUpper || c.isLower) = false
  rw [Bool.or_eq_false_iff, Bool.eq_false_iff, Bool.eq_false_iff]
  constructor
  · intro hc
    exact hupper (of_decide_eq_true hc).1
  · intro hc
    exact hlower (of_decide_eq_true (Bool.and_eq_true_iff.1 hc).1)

theorem digit?_digitChar {base n : Nat} (hbase : base ≤ 16) (hn : n < base) :
    digit? base n.digitChar = some n := by
  have hall : ∀ n < 16, ∀ base ≤ 16, n < base → digit? base n.digitChar = some n := by decide
  exact hall n (by omega) base hbase hn

theorem readDigits_append (base start : Nat) (cs ds : List Char) :
    readDigits base start (cs ++ ds) =
      (readDigits base start cs).bind fun n => readDigits base n ds := by
  induction cs generalizing start with
  | nil => rfl
  | cons c cs ih =>
    rw [List.cons_append, readDigits, readDigits]
    cases digit? base c with
    | none => rfl
    | some d => exact ih (start * base + d)

theorem readDigits_toDigits {base : Nat} (h₁ : 1 < base) (h₂ : base ≤ 16) (n : Nat) :
    readDigits base 0 (Nat.toDigits base n) = some n := by
  induction n using Nat.strongRecOn with
  | ind n ih =>
    by_cases hn : n < base
    · rw [Nat.toDigits_of_lt_base hn, readDigits, digit?_digitChar h₂ hn]
      simp [readDigits]
    · have hlast := digit?_digitChar h₂ (Nat.mod_lt n (show 0 < base by omega))
      rw [Nat.toDigits_of_base_le h₁ (by omega), readDigits_append,
        ih (n / base) (Nat.div_lt_self (by omega) h₁), Option.bind_some, readDigits, hlast]
      simp [readDigits, Nat.div_add_mod']

/-- **A number reads back** in every base up to sixteen. -/
theorem readNat?_toDigits {base : Nat} (h₁ : 1 < base) (h₂ : base ≤ 16) (n : Nat) :
    readNat? base (Nat.toDigits base n) = some n := by
  unfold readNat?
  split
  · rename_i h
    exact absurd h Nat.toDigits_ne_nil
  · exact readDigits_toDigits h₁ h₂ n

theorem readNat?_decimal (n : Nat) : readNat? 10 (decimal n) = some n :=
  readNat?_toDigits (by decide) (by decide) n

theorem isDigit_of_mem_decimal {n : Nat} {c : Char} (h : c ∈ decimal n) : c.isDigit = true :=
  Nat.isDigit_of_mem_toDigits (by decide) (by decide) h

/-- The decimal form of a number begins with a digit, hence with no sign. -/
theorem decimal_eq_cons (n : Nat) : ∃ c cs, decimal n = c :: cs ∧ c.isDigit = true := by
  cases h : decimal n with
  | nil => exact absurd h Nat.toDigits_ne_nil
  | cons c cs => exact ⟨c, cs, rfl, isDigit_of_mem_decimal (h ▸ List.mem_cons_self)⟩

/-- The first digit of a number is zero only if the number is. -/
theorem decimal_eq_zero_or (n : Nat) :
    n = 0 ∧ decimal n = ['0'] ∨ ∃ c cs, decimal n = c :: cs ∧ c ≠ '0' := by
  induction n using Nat.strongRecOn with
  | ind n ih =>
    by_cases hn : n < 10
    · have hdigits : decimal n = [n.digitChar] := Nat.toDigits_of_lt_base hn
      have hall : ∀ n < 10, n = 0 ∨ n.digitChar ≠ '0' := by decide
      rcases hall n hn with rfl | hne
      · exact Or.inl ⟨rfl, hdigits⟩
      · exact Or.inr ⟨_, _, hdigits, hne⟩
    · have hdigits : decimal n = decimal (n / 10) ++ [(n % 10).digitChar] :=
        Nat.toDigits_of_base_le (by decide) (by omega)
      rcases ih (n / 10) (by omega) with ⟨hzero, -⟩ | ⟨c, cs, hcs, hc⟩
      · omega
      · refine Or.inr ⟨c, cs ++ [(n % 10).digitChar], ?_, hc⟩
        rw [hdigits, hcs, List.cons_append]

theorem ne_sign_of_isDigit {c : Char} (h : c.isDigit = true) : c ≠ '+' ∧ c ≠ '-' := by
  refine ⟨?_, ?_⟩ <;> rintro rfl <;> exact absurd h (by decide)

/-! ## Bounded numbers -/

theorem readUInt32?_decimal (n : UInt32) : readUInt32? 10 (decimal n.toNat) = some n := by
  obtain ⟨c, cs, hcs, hc⟩ := decimal_eq_cons n.toNat
  have hread := readNat?_decimal n.toNat
  have hlt : n.toNat < UInt32.size := n.toNat_lt_size
  unfold readUInt32?
  rw [hcs] at hread ⊢
  split
  · rename_i h
    exact absurd (List.cons.inj h).1 (ne_sign_of_isDigit hc).1
  · simp only [hread, hlt, if_true, UInt32.ofNat_toNat]

theorem fitsInt64_toInt (i : Int64) : fitsInt64 i.toInt = true := by
  have hlow := i.le_toInt
  have hhigh := i.toInt_lt
  have hmin : Int64.minValue.toInt = -2 ^ 63 := by decide
  have hmax : Int64.maxValue.toInt = 2 ^ 63 - 1 := by decide
  rw [fitsInt64, Bool.and_eq_true, decide_eq_true_iff, decide_eq_true_iff]
  omega

/-- What an offset is written as: a sign, and the digits of its size. -/
def signed (i : Int64) : List Char :=
  (if 0 ≤ i.toInt then ['+'] else []) ++ decimalInt i.toInt

theorem signed_eq_cons (i : Int64) :
    signed i = '+' :: decimal i.toInt.natAbs ∧ i.toInt = i.toInt.natAbs ∨
      signed i = '-' :: decimal i.toInt.natAbs ∧ i.toInt = -(i.toInt.natAbs : Int) := by
  unfold signed
  cases h : i.toInt with
  | ofNat n => exact Or.inl ⟨rfl, rfl⟩
  | negSucc n => exact Or.inr ⟨rfl, rfl⟩

/-- After a sign the digits of a number are read, with the sign. -/
theorem readInt64?_plus {cs : List Char} {n : Nat} (h : readNat? 10 cs = some n) :
    readInt64? ('+' :: cs) =
      if fitsInt64 (n : Int) then some (Int64.ofInt (n : Int)) else none := by
  simp only [readInt64?, h]
  rfl

theorem readInt64?_minus {cs : List Char} {n : Nat} (h : readNat? 10 cs = some n) :
    readInt64? ('-' :: cs) =
      if fitsInt64 (-(n : Int)) then some (Int64.ofInt (-(n : Int))) else none := by
  simp only [readInt64?, h]
  rfl

/-- An offset reads back from its sign and digits. -/
theorem readInt64?_signed (i : Int64) : readInt64? (signed i) = some i := by
  have hread := readNat?_decimal i.toInt.natAbs
  have hfits : fitsInt64 i.toInt = true := fitsInt64_toInt i
  rcases signed_eq_cons i with ⟨hs, hi⟩ | ⟨hs, hi⟩
  · rw [hs, readInt64?_plus hread, ← hi, if_pos hfits, Int64.ofInt_toInt]
  · rw [hs, readInt64?_minus hread, ← hi, if_pos hfits, Int64.ofInt_toInt]

end Text

namespace LineNumber

/-- A text that begins with no sign is read as an absolute line. -/
theorem ofText?_of_ne_sign {s : String} {c : Char} {cs : List Char} (hs : s.toList = c :: cs)
    (hplus : c ≠ '+') (hminus : c ≠ '-') {line : UInt32}
    (hread : Text.readUInt32? 10 (c :: cs) = some line) : ofText? s = .ok (absolute line) := by
  unfold ofText?
  rw [hs]
  dsimp only
  split
  · rename_i number hnumber
    split at hnumber
    · rename_i h
      exact absurd (List.cons.inj h).1 hplus
    · rename_i h
      exact absurd (List.cons.inj h).1 hminus
    · rw [hread] at hnumber
      rw [← Option.some.inj hnumber]
  · rename_i hnone
    split at hnone
    · rename_i h
      exact absurd (List.cons.inj h).1 hplus
    · rename_i h
      exact absurd (List.cons.inj h).1 hminus
    · rw [hread] at hnone
      exact absurd hnone (Option.some_ne_none _)

/-- **A line number reads back,** and stays absolute or relative. -/
theorem ofText?_text (l : LineNumber) : ofText? l.text = .ok l := by
  cases l with
  | absolute line =>
    obtain ⟨c, cs, hcs, hc⟩ := Text.decimal_eq_cons line.toNat
    have hread := Text.readUInt32?_decimal line
    rw [hcs] at hread
    exact ofText?_of_ne_sign (by rw [text, String.toList_ofList, hcs])
      (Text.ne_sign_of_isDigit hc).1 (Text.ne_sign_of_isDigit hc).2 hread
  | relative offset =>
    have hread := Text.readInt64?_signed offset
    rw [ofText?, text, String.toList_ofList,
      show (if 0 ≤ offset.toInt then ['+'] else []) ++ Text.decimalInt offset.toInt =
        Text.signed offset from rfl]
    rcases Text.signed_eq_cons offset with ⟨hs, -⟩ | ⟨hs, -⟩
    · rw [hs] at hread ⊢
      simp only [hread, Option.map_some]
    · rw [hs] at hread ⊢
      simp only [hread, Option.map_some]

end LineNumber
end Linguist
