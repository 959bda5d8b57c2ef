import Linguist.Bytes.Utf8
import Mathlib.Data.Char

/-!
# Reading back what was written in UTF-8

The reader of `Bytes.Utf8` is a machine with at most one unfinished character, the
writer a function of one character at a time.  They meet at the boundaries between
characters: read from a boundary, the bytes of a character give that character and
lead to the next boundary, whatever follows (`decodeFrom_utf8EncodeChar`).

The first byte of a character fixes how many bytes follow and in which interval the
next one lies.  That the second byte is in the interval is where the characters
matter: the narrow intervals after `E0`, `ED`, `F0` and `F4` leave out exactly what
is no character of that length.
-/

namespace Linguist
namespace Bytes
namespace Utf8

/-! ## The first byte -/

theorem lead_of_lt {b : UInt8} (h : b.toNat < 0x80) : lead b = .whole (Char.ofNat b.toNat) := by
  unfold lead
  rw [if_pos h]

theorem lead_of_two {b : UInt8} (h₁ : 0xC2 ≤ b.toNat) (h₂ : b.toNat < 0xE0) :
    lead b = .first ⟨1, 0x80, 0xBF, b.toNat % 32⟩ := by
  unfold lead
  rw [if_neg (by omega), if_neg (by omega), if_pos h₂]

theorem lead_of_three {b : UInt8} (h₁ : 0xE0 ≤ b.toNat) (h₂ : b.toNat < 0xF0) :
    lead b = .first ⟨2, if b.toNat = 0xE0 then 0xA0 else 0x80,
      if b.toNat = 0xED then 0x9F else 0xBF, b.toNat % 16⟩ := by
  unfold lead
  rw [if_neg (by omega), if_neg (by omega), if_neg (by omega)]
  by_cases h0 : b.toNat = 0xE0
  · rw [if_pos h0, if_pos h0, if_neg (by omega)]
  · rw [if_neg h0, if_neg h0]
    by_cases hd : b.toNat = 0xED
    · rw [if_pos hd, if_pos hd]
    · rw [if_neg hd, if_neg hd, if_pos h₂]

theorem lead_of_four {b : UInt8} (h₁ : 0xF0 ≤ b.toNat) (h₂ : b.toNat ≤ 0xF4) :
    lead b = .first ⟨3, if b.toNat = 0xF0 then 0x90 else 0x80,
      if b.toNat = 0xF4 then 0x8F else 0xBF, b.toNat % 8⟩ := by
  unfold lead
  rw [if_neg (by omega), if_neg (by omega), if_neg (by omega), if_neg (by omega),
    if_neg (by omega), if_neg (by omega)]
  by_cases h0 : b.toNat = 0xF0
  · rw [if_pos h0, if_pos h0, if_neg (by omega)]
  · rw [if_neg h0, if_neg h0]
    by_cases h4 : b.toNat = 0xF4
    · rw [if_neg (by omega), if_pos h4, if_pos h4]
    · rw [if_pos (by omega), if_neg h4]

/-! ## The bytes after it -/

theorem toNat_ofNat {n : Nat} (h : n < 256) : (UInt8.ofNat n).toNat = n := by
  rw [UInt8.toNat_ofNat']
  exact Nat.mod_eq_of_lt h

variable {p : Pending} {n : Nat} (rest : List UInt8)

/-- A byte after the first carries six bits. -/
theorem next_tail (p : Pending) (n : Nat) :
    p.next (UInt8.ofNat (n % 0x40 + 0x80)) = ⟨p.owed - 1, 0x80, 0xBF, p.code * 64 + n % 64⟩ := by
  have hbits : (n % 0x40 + 0x80) % 64 = n % 64 := by omega
  rw [Pending.next, toNat_ofNat (by omega), hbits]

variable (hlow : p.low ≤ n % 0x40 + 0x80) (hhigh : n % 0x40 + 0x80 ≤ p.high)

include hlow hhigh

theorem admits_tail : p.admits (UInt8.ofNat (n % 0x40 + 0x80)) = true := by
  rw [Pending.admits, toNat_ofNat (by omega)]
  simp [hlow, hhigh]

/-- The last byte owed completes the character. -/
theorem decodeFrom_last (howed : p.owed = 1) :
    decodeFrom (some p) (UInt8.ofNat (n % 0x40 + 0x80) :: rest) =
      some (Char.ofNat (p.code * 64 + n % 64)) :: decodeFrom none rest := by
  rw [decodeFrom, if_pos (admits_tail hlow hhigh), if_pos howed, next_tail]

/-- Any other byte owed leaves one byte less to come. -/
theorem decodeFrom_more (howed : p.owed ≠ 1) :
    decodeFrom (some p) (UInt8.ofNat (n % 0x40 + 0x80) :: rest) =
      decodeFrom (some ⟨p.owed - 1, 0x80, 0xBF, p.code * 64 + n % 64⟩) rest := by
  rw [decodeFrom, if_pos (admits_tail hlow hhigh), if_neg howed, next_tail]

omit hlow hhigh

/-! ## A whole character -/

theorem decodeFrom_of_whole {b : UInt8} {c : Char} (h : lead b = .whole c) :
    decodeFrom none (b :: rest) = some c :: decodeFrom none rest := by
  rw [decodeFrom, h]

theorem decodeFrom_of_first {b : UInt8} {q : Pending} (h : lead b = .first q) :
    decodeFrom none (b :: rest) = decodeFrom (some q) rest := by
  rw [decodeFrom, h]

/-- **A character reads back from its bytes,** and reading goes on behind them. -/
theorem decodeFrom_utf8EncodeChar (c : Char) :
    decodeFrom none (String.utf8EncodeChar c ++ rest) = some c :: decodeFrom none rest := by
  have hvalid : c.toNat < 0xD800 ∨ 0xDFFF < c.toNat ∧ c.toNat < 0x110000 := c.valid
  have hchar : c = Char.ofNat c.toNat := (Char.ofNat_toNat c).symm
  unfold String.utf8EncodeChar
  rw [show c.val.toNat = c.toNat from rfl]
  by_cases h1 : c.toNat ≤ 0x7f
  · have hb := toNat_ofNat (n := c.toNat) (by omega)
    rw [if_pos h1, List.cons_append, List.nil_append,
      decodeFrom_of_whole rest (lead_of_lt (by omega)), hb, ← hchar]
  rw [if_neg h1]
  by_cases h2 : c.toNat ≤ 0x7ff
  · have hb := toNat_ofNat (n := c.toNat / 64 % 0x20 + 0xc0) (by omega)
    rw [if_pos h2, List.cons_append, decodeFrom_of_first _ (lead_of_two (by omega) (by omega)),
      hb, List.cons_append, List.nil_append, decodeFrom_last _ _ _ rfl]
    · have hcode : (c.toNat / 64 % 0x20 + 0xc0) % 32 * 64 + c.toNat % 64 = c.toNat := by omega
      rw [hcode, ← hchar]
    all_goals dsimp only; omega
  rw [if_neg h2]
  by_cases h3 : c.toNat ≤ 0xffff
  · have hb := toNat_ofNat (n := c.toNat / 4096 % 0x10 + 0xe0) (by omega)
    -- the shortest and the surrogate range are what the two narrow intervals exclude
    have hlow : (if c.toNat / 4096 % 0x10 + 0xe0 = 0xE0 then 0xA0 else 0x80) ≤
        c.toNat / 64 % 0x40 + 0x80 := by split <;> omega
    have hhigh : c.toNat / 64 % 0x40 + 0x80 ≤
        if c.toNat / 4096 % 0x10 + 0xe0 = 0xED then 0x9F else 0xBF := by split <;> omega
    rw [if_pos h3, List.cons_append, decodeFrom_of_first _ (lead_of_three (by omega) (by omega)),
      hb, List.cons_append, List.cons_append, List.nil_append,
      decodeFrom_more _ hlow hhigh (by simp), decodeFrom_last _ _ _ rfl]
    · have hcode : ((c.toNat / 4096 % 0x10 + 0xe0) % 16 * 64 + c.toNat / 64 % 64) * 64 +
          c.toNat % 64 = c.toNat := by omega
      rw [hcode, ← hchar]
    all_goals dsimp only; omega
  rw [if_neg h3]
  have hb := toNat_ofNat (n := c.toNat / 262144 % 0x08 + 0xf0) (by omega)
  have hlow : (if c.toNat / 262144 % 0x08 + 0xf0 = 0xF0 then 0x90 else 0x80) ≤
      c.toNat / 4096 % 0x40 + 0x80 := by split <;> omega
  have hhigh : c.toNat / 4096 % 0x40 + 0x80 ≤
      if c.toNat / 262144 % 0x08 + 0xf0 = 0xF4 then 0x8F else 0xBF := by split <;> omega
  rw [List.cons_append, decodeFrom_of_first _ (lead_of_four (by omega) (by omega)), hb,
    List.cons_append, List.cons_append, List.cons_append, List.nil_append,
    decodeFrom_more _ hlow hhigh (by simp), decodeFrom_more _ _ _ (by simp),
    decodeFrom_last _ _ _ rfl]
  · have hcode : (((c.toNat / 262144 % 0x08 + 0xf0) % 8 * 64 + c.toNat / 4096 % 64) * 64 +
        c.toNat / 64 % 64) * 64 + c.toNat % 64 = c.toNat := by omega
    rw [hcode, ← hchar]
  all_goals dsimp only; omega

theorem decode_encode (cs : List Char) : decode (encode cs) = cs.map some := by
  unfold decode encode
  induction cs with
  | nil => rfl
  | cons c cs ih => rw [List.flatMap_cons, decodeFrom_utf8EncodeChar, ih, List.map_cons]

/-- **A text reads back from its bytes.** -/
theorem decode?_encode (cs : List Char) : decode? (encode cs) = some cs := by
  rw [decode?, decode_encode]
  induction cs with
  | nil => rfl
  | cons c cs ih => simp_all [List.mapM_cons]

/-- It is read back leniently as well. -/
theorem decodeLenient_encode (cs : List Char) : decodeLenient (encode cs) = cs := by
  rw [decodeLenient, decode_encode, List.map_map]
  exact List.map_id cs

theorem encode_append (cs ds : List Char) : encode (cs ++ ds) = encode cs ++ encode ds :=
  List.flatMap_append

end Utf8
end Bytes
end Linguist
