import Linguist.Proofs.Bytes.Utf8

/-!
# Boundaries between characters in UTF-8

`Bytes.Utf8` reads any bytes, with holes where they are not UTF-8.  Here it is asked
backwards which bytes a given reading stems from.

The first thing read comes from some bytes at the front, and what is read next comes from
the others, as if reading had begun there (`exists_of_decodeFrom_cons`).  If the first thing
is a character, the bytes at the front are the bytes of this character and no others
(`exists_of_decodeFrom_some`): the intervals that the reader keeps leave room for exactly
one way to write each character.  Hence the strict reader accepts the encodings of texts
and nothing else (`decode?_eq_some_iff`).

Bytes below 0x80 are boundaries wherever they stand.  Such a byte is no part of any longer
character, so it is read as itself and what was unfinished before it becomes a hole
(`decodeFrom_append_ascii`).  That is why text of that kind can be found by a reader of
UTF-8 in a file that is written in another character set.
-/

namespace Linguist
namespace Bytes
namespace Utf8

/-! ## The bytes of a character, from its code -/

theorem toNat_charOfNat {n : Nat} (h : n.isValidChar) : (Char.ofNat n).toNat = n := by
  rw [Char.ofNat, dif_pos h]
  rfl

variable {a b b₁ b₂ b₃ : UInt8} {n : Nat}

theorem utf8EncodeChar_one (hb : b.toNat < 0x80) :
    String.utf8EncodeChar (Char.ofNat b.toNat) = [b] := by
  have hcode : (Char.ofNat b.toNat).val.toNat = b.toNat := toNat_charOfNat (.inl (by omega))
  unfold String.utf8EncodeChar
  rw [hcode, if_pos (by omega), UInt8.ofNat_toNat]

theorem utf8EncodeChar_of_lt {c : Char} (hc : c.toNat < 0x80) :
    String.utf8EncodeChar c = [UInt8.ofNat c.toNat] := by
  have hb := toNat_ofNat (n := c.toNat) (by omega)
  have hchar := utf8EncodeChar_one (b := UInt8.ofNat c.toNat) (by omega)
  rwa [hb, Char.ofNat_toNat] at hchar

theorem utf8EncodeChar_two (hlow : 0xC2 ≤ b.toNat) (hhigh : b.toNat < 0xE0)
    (h₁ : 0x80 ≤ b₁.toNat ∧ b₁.toNat ≤ 0xBF) (hn : n = b.toNat % 32 * 64 + b₁.toNat % 64) :
    String.utf8EncodeChar (Char.ofNat n) = [b, b₁] := by
  have hcode : (Char.ofNat n).val.toNat = n := toNat_charOfNat (.inl (by omega))
  have hb : n / 64 % 0x20 + 0xc0 = b.toNat := by omega
  have hb₁ : n % 0x40 + 0x80 = b₁.toNat := by omega
  unfold String.utf8EncodeChar
  rw [hcode, if_neg (by omega), if_pos (by omega), hb, hb₁, UInt8.ofNat_toNat, UInt8.ofNat_toNat]

theorem utf8EncodeChar_three (hlow : 0xE0 ≤ b.toNat) (hhigh : b.toNat < 0xF0)
    (h₁ : (if b.toNat = 0xE0 then 0xA0 else 0x80) ≤ b₁.toNat ∧
      b₁.toNat ≤ if b.toNat = 0xED then 0x9F else 0xBF)
    (h₂ : 0x80 ≤ b₂.toNat ∧ b₂.toNat ≤ 0xBF)
    (hn : n = (b.toNat % 16 * 64 + b₁.toNat % 64) * 64 + b₂.toNat % 64) :
    String.utf8EncodeChar (Char.ofNat n) = [b, b₁, b₂] := by
  have hbounds : 0x80 ≤ b₁.toNat ∧ b₁.toNat ≤ 0xBF := by
    constructor
    · have := h₁.1
      split at this <;> omega
    · have := h₁.2
      split at this <;> omega
  have hshort : b.toNat = 0xE0 → 0xA0 ≤ b₁.toNat := fun h => by simpa [h] using h₁.1
  have hsurrogate : b.toNat = 0xED → b₁.toNat ≤ 0x9F := fun h => by simpa [h] using h₁.2
  have hcode : (Char.ofNat n).val.toNat = n := by
    refine toNat_charOfNat ?_
    rw [Nat.isValidChar]
    omega
  have hb : n / 4096 % 0x10 + 0xe0 = b.toNat := by omega
  have hb₁ : n / 64 % 0x40 + 0x80 = b₁.toNat := by omega
  have hb₂ : n % 0x40 + 0x80 = b₂.toNat := by omega
  unfold String.utf8EncodeChar
  rw [hcode, if_neg (by omega), if_neg (by omega), if_pos (by omega), hb, hb₁, hb₂,
    UInt8.ofNat_toNat, UInt8.ofNat_toNat, UInt8.ofNat_toNat]

theorem utf8EncodeChar_four (hlow : 0xF0 ≤ b.toNat) (hhigh : b.toNat ≤ 0xF4)
    (h₁ : (if b.toNat = 0xF0 then 0x90 else 0x80) ≤ b₁.toNat ∧
      b₁.toNat ≤ if b.toNat = 0xF4 then 0x8F else 0xBF)
    (h₂ : 0x80 ≤ b₂.toNat ∧ b₂.toNat ≤ 0xBF) (h₃ : 0x80 ≤ b₃.toNat ∧ b₃.toNat ≤ 0xBF)
    (hn : n = ((b.toNat % 8 * 64 + b₁.toNat % 64) * 64 + b₂.toNat % 64) * 64 + b₃.toNat % 64) :
    String.utf8EncodeChar (Char.ofNat n) = [b, b₁, b₂, b₃] := by
  have hbounds : 0x80 ≤ b₁.toNat ∧ b₁.toNat ≤ 0xBF := by
    constructor
    · have := h₁.1
      split at this <;> omega
    · have := h₁.2
      split at this <;> omega
  have hshort : b.toNat = 0xF0 → 0x90 ≤ b₁.toNat := fun h => by simpa [h] using h₁.1
  have hlast : b.toNat = 0xF4 → b₁.toNat ≤ 0x8F := fun h => by simpa [h] using h₁.2
  have hcode : (Char.ofNat n).val.toNat = n := by
    refine toNat_charOfNat ?_
    rw [Nat.isValidChar]
    omega
  have hb : n / 262144 % 0x08 + 0xf0 = b.toNat := by omega
  have hb₁ : n / 4096 % 0x40 + 0x80 = b₁.toNat := by omega
  have hb₂ : n / 64 % 0x40 + 0x80 = b₂.toNat := by omega
  have hb₃ : n % 0x40 + 0x80 = b₃.toNat := by omega
  unfold String.utf8EncodeChar
  rw [hcode, if_neg (by omega), if_neg (by omega), if_neg (by omega), hb, hb₁, hb₂, hb₃,
    UInt8.ofNat_toNat, UInt8.ofNat_toNat, UInt8.ofNat_toNat, UInt8.ofNat_toNat]

/-! ## The first thing read -/

variable {p : Pending} {bytes : List UInt8} {x : Option Char} {c : Char} {t : List (Option Char)}

theorem lead_of_stray (h : 0x80 ≤ b.toNat ∧ b.toNat < 0xC2 ∨ 0xF4 < b.toNat) :
    lead b = .stray := by
  unfold lead
  rw [if_neg (by omega)]
  rcases h with h | h
  · rw [if_pos (by omega)]
  · rw [if_neg (by omega), if_neg (by omega), if_neg (by omega), if_neg (by omega),
      if_neg (by omega), if_neg (by omega), if_neg (by omega), if_neg (by omega)]

/-- A byte that does not continue a character leaves a hole and begins the next one. -/
theorem decodeFrom_of_not_admits (rest : List UInt8) (h : p.admits b = false) :
    decodeFrom (some p) (b :: rest) = none :: decodeFrom none (b :: rest) := by
  cases hlead : lead b <;> simp [decodeFrom, h, hlead]

/-- What is read after an unfinished character, if it is no hole, is this character finished or
the reading of one more byte of it. -/
theorem exists_of_decodeFrom_pending (h : decodeFrom (some p) bytes = some c :: t) :
    ∃ b rest, bytes = b :: rest ∧ (p.low ≤ b.toNat ∧ b.toNat ≤ p.high) ∧
      (p.owed = 1 ∧ c = Char.ofNat (p.next b).code ∧ decodeFrom none rest = t ∨
        p.owed ≠ 1 ∧ decodeFrom (some (p.next b)) rest = some c :: t) := by
  cases bytes with
  | nil => cases h
  | cons b rest =>
    cases hadmits : p.admits b with
    | false =>
      rw [decodeFrom_of_not_admits rest hadmits] at h
      cases h
    | true =>
      have hbounds : p.low ≤ b.toNat ∧ b.toNat ≤ p.high := by simpa [Pending.admits] using hadmits
      refine ⟨b, rest, rfl, hbounds, ?_⟩
      rw [decodeFrom, if_pos hadmits] at h
      by_cases howed : p.owed = 1
      · rw [if_pos howed] at h
        obtain ⟨hc, ht⟩ := List.cons.inj h
        exact .inl ⟨howed, (Option.some.inj hc).symm, ht⟩
      · rw [if_neg howed] at h
        exact .inr ⟨howed, h⟩

theorem exists_of_decodeFrom_two (hlow : 0xC2 ≤ b.toNat) (hhigh : b.toNat < 0xE0)
    (h : decodeFrom none (b :: bytes) = some c :: t) :
    ∃ rest, b :: bytes = String.utf8EncodeChar c ++ rest ∧ decodeFrom none rest = t := by
  rw [decodeFrom_of_first bytes (lead_of_two hlow hhigh)] at h
  obtain ⟨b₁, rest, rfl, h₁, ⟨-, hc, ht⟩ | ⟨howed, -⟩⟩ := exists_of_decodeFrom_pending h
  · have hchar : String.utf8EncodeChar c = [b, b₁] := by
      rw [hc]
      exact utf8EncodeChar_two hlow hhigh h₁ rfl
    refine ⟨rest, ?_, ht⟩
    rw [hchar]
    rfl
  · exact absurd rfl howed

theorem exists_of_decodeFrom_three (hlow : 0xE0 ≤ b.toNat) (hhigh : b.toNat < 0xF0)
    (h : decodeFrom none (b :: bytes) = some c :: t) :
    ∃ rest, b :: bytes = String.utf8EncodeChar c ++ rest ∧ decodeFrom none rest = t := by
  rw [decodeFrom_of_first bytes (lead_of_three hlow hhigh)] at h
  obtain ⟨b₁, bytes, rfl, h₁, ⟨howed, -⟩ | ⟨-, h⟩⟩ := exists_of_decodeFrom_pending h
  · cases howed
  obtain ⟨b₂, rest, rfl, h₂, ⟨-, hc, ht⟩ | ⟨howed, -⟩⟩ := exists_of_decodeFrom_pending h
  · have hchar : String.utf8EncodeChar c = [b, b₁, b₂] := by
      rw [hc]
      exact utf8EncodeChar_three hlow hhigh h₁ h₂ rfl
    refine ⟨rest, ?_, ht⟩
    rw [hchar]
    rfl
  · exact absurd rfl howed

theorem exists_of_decodeFrom_four (hlow : 0xF0 ≤ b.toNat) (hhigh : b.toNat ≤ 0xF4)
    (h : decodeFrom none (b :: bytes) = some c :: t) :
    ∃ rest, b :: bytes = String.utf8EncodeChar c ++ rest ∧ decodeFrom none rest = t := by
  rw [decodeFrom_of_first bytes (lead_of_four hlow hhigh)] at h
  obtain ⟨b₁, bytes, rfl, h₁, ⟨howed, -⟩ | ⟨-, h⟩⟩ := exists_of_decodeFrom_pending h
  · cases howed
  obtain ⟨b₂, bytes, rfl, h₂, ⟨howed, -⟩ | ⟨-, h⟩⟩ := exists_of_decodeFrom_pending h
  · cases howed
  obtain ⟨b₃, rest, rfl, h₃, ⟨-, hc, ht⟩ | ⟨howed, -⟩⟩ := exists_of_decodeFrom_pending h
  · have hchar : String.utf8EncodeChar c = [b, b₁, b₂, b₃] := by
      rw [hc]
      exact utf8EncodeChar_four hlow hhigh h₁ h₂ h₃ rfl
    refine ⟨rest, ?_, ht⟩
    rw [hchar]
    rfl
  · exact absurd rfl howed

/-- **A character stems from its own bytes,** and what is read next from the others. -/
theorem exists_of_decodeFrom_some (h : decodeFrom none bytes = some c :: t) :
    ∃ rest, bytes = String.utf8EncodeChar c ++ rest ∧ decodeFrom none rest = t := by
  cases bytes with
  | nil => cases h
  | cons b rest =>
    have hrole : b.toNat < 0x80 ∨ (0x80 ≤ b.toNat ∧ b.toNat < 0xC2 ∨ 0xF4 < b.toNat) ∨
        (0xC2 ≤ b.toNat ∧ b.toNat < 0xE0) ∨ (0xE0 ≤ b.toNat ∧ b.toNat < 0xF0) ∨
          0xF0 ≤ b.toNat ∧ b.toNat ≤ 0xF4 := by omega
    rcases hrole with hone | hstray | htwo | hthree | hfour
    · rw [decodeFrom_of_whole rest (lead_of_lt hone)] at h
      obtain ⟨hc, ht⟩ := List.cons.inj h
      refine ⟨rest, ?_, ht⟩
      rw [← Option.some.inj hc, utf8EncodeChar_one hone, List.singleton_append]
    · rw [decodeFrom, lead_of_stray hstray] at h
      cases h
    · exact exists_of_decodeFrom_two htwo.1 htwo.2 h
    · exact exists_of_decodeFrom_three hthree.1 hthree.2 h
    · exact exists_of_decodeFrom_four hfour.1 hfour.2 h

/-- A hole after an unfinished character ends somewhere. -/
theorem exists_of_decodeFrom_hole (h : decodeFrom (some p) bytes = none :: t) :
    ∃ front rest, bytes = front ++ rest ∧ decodeFrom none rest = t := by
  induction bytes generalizing p with
  | nil =>
    obtain ⟨-, rfl⟩ := List.cons.inj h
    exact ⟨[], [], rfl, rfl⟩
  | cons b rest ih =>
    cases hadmits : p.admits b with
    | false =>
      rw [decodeFrom_of_not_admits rest hadmits] at h
      exact ⟨[], b :: rest, rfl, (List.cons.inj h).2⟩
    | true =>
      rw [decodeFrom, if_pos hadmits] at h
      split at h
      · cases h
      · obtain ⟨front, rest', rfl, ht⟩ := ih h
        exact ⟨b :: front, rest', rfl, ht⟩

/-- **The first thing read comes from the front,** and the rest as if reading began behind. -/
theorem exists_of_decodeFrom_cons (h : decodeFrom none bytes = x :: t) :
    ∃ front rest, bytes = front ++ rest ∧ decodeFrom none rest = t ∧
      ∀ c, x = some c → front = String.utf8EncodeChar c := by
  cases x with
  | some c =>
    obtain ⟨rest, hbytes, ht⟩ := exists_of_decodeFrom_some h
    refine ⟨_, rest, hbytes, ht, fun c' hc => ?_⟩
    rw [Option.some.inj hc]
  | none =>
    cases bytes with
    | nil => cases h
    | cons b rest =>
      rw [decodeFrom] at h
      cases hlead : lead b with
      | whole c =>
        rw [hlead] at h
        cases h
      | first p =>
        rw [hlead] at h
        obtain ⟨front, rest', rfl, ht⟩ := exists_of_decodeFrom_hole h
        exact ⟨b :: front, rest', rfl, ht, fun c hc => absurd hc (by simp)⟩
      | stray =>
        rw [hlead] at h
        exact ⟨[b], rest, rfl, (List.cons.inj h).2, fun c hc => absurd hc (by simp)⟩

/-! ## All that is read -/

/-- **Every character read has its bytes in what was read.** -/
theorem utf8EncodeChar_subset_of_mem (h : some c ∈ decodeFrom none bytes) :
    String.utf8EncodeChar c ⊆ bytes := by
  generalize hread : decodeFrom none bytes = xs at h
  induction xs generalizing bytes with
  | nil => cases h
  | cons x xs ih =>
    obtain ⟨front, rest, rfl, hrest, hfront⟩ := exists_of_decodeFrom_cons hread
    rcases List.mem_cons.1 h with hx | hxs
    · rw [hfront c hx.symm]
      exact List.subset_append_left _ _
    · exact List.Subset.trans (ih hrest hxs) (List.subset_append_right _ _)

/-- **Characters at the front of a reading stem from their encoding,** and nothing else. -/
theorem exists_of_decodeFrom_append {cs : List Char}
    (h : decodeFrom none bytes = cs.map some ++ t) :
    ∃ rest, bytes = encode cs ++ rest ∧ decodeFrom none rest = t := by
  induction cs generalizing bytes with
  | nil => exact ⟨bytes, rfl, h⟩
  | cons c cs ih =>
    obtain ⟨rest, rfl, hrest⟩ := exists_of_decodeFrom_some h
    obtain ⟨rest, rfl, ht⟩ := ih hrest
    refine ⟨rest, ?_, ht⟩
    rw [encode, encode, List.flatMap_cons, List.append_assoc]

/-- Texts read back from their bytes, and reading goes on behind them. -/
theorem decodeFrom_encode_append (cs : List Char) (rest : List UInt8) :
    decodeFrom none (encode cs ++ rest) = cs.map some ++ decodeFrom none rest := by
  induction cs with
  | nil => rfl
  | cons c cs ih =>
    rw [encode, List.flatMap_cons, List.append_assoc, decodeFrom_utf8EncodeChar, ← encode, ih,
      List.map_cons, List.cons_append]

theorem decodeLenient_encode_append (cs : List Char) (rest : List UInt8) :
    decodeLenient (encode cs ++ rest) = cs ++ decodeLenient rest := by
  rw [decodeLenient, decode, decodeFrom_encode_append, List.map_append, List.map_map]
  exact congrArg (· ++ decodeLenient rest) (List.map_id cs)

theorem mapM_id_eq_some {xs : List (Option Char)} {cs : List Char} :
    xs.mapM id = some cs ↔ xs = cs.map some := by
  induction xs generalizing cs with
  | nil => cases cs <;> simp
  | cons x xs ih =>
    cases x with
    | none => cases cs <;> simp [List.mapM_cons]
    | some c =>
      simp only [List.mapM_cons, id, bind, Option.bind_some, Option.bind_eq_some_iff, pure,
        Option.some.injEq]
      constructor
      · rintro ⟨ds, hds, rfl⟩
        rw [ih.1 hds, List.map_cons]
      · intro h
        cases cs with
        | nil => cases h
        | cons d ds =>
          obtain ⟨hc, hds⟩ := List.cons.inj h
          exact ⟨ds, ih.2 hds, by rw [Option.some.inj hc]⟩

theorem decodeFrom_pending_ne_nil (p : Pending) (bytes : List UInt8) :
    decodeFrom (some p) bytes ≠ [] := by
  induction bytes generalizing p with
  | nil => exact List.cons_ne_nil none []
  | cons b rest ih =>
    cases hadmits : p.admits b with
    | false =>
      rw [decodeFrom_of_not_admits rest hadmits]
      exact List.cons_ne_nil _ _
    | true =>
      rw [decodeFrom, if_pos hadmits]
      split
      · exact List.cons_ne_nil _ _
      · exact ih _

theorem eq_nil_of_decodeFrom (h : decodeFrom none bytes = []) : bytes = [] := by
  cases bytes with
  | nil => rfl
  | cons b rest =>
    rw [decodeFrom] at h
    split at h
    · cases h
    · exact absurd h (decodeFrom_pending_ne_nil _ _)
    · cases h

/-- **The strict reader accepts the encodings of texts** and no other bytes. -/
theorem decode?_eq_some_iff {cs : List Char} : decode? bytes = some cs ↔ bytes = encode cs := by
  constructor
  · intro h
    have hread : decodeFrom none bytes = cs.map some ++ [] := by
      rw [List.append_nil]
      exact mapM_id_eq_some.1 h
    obtain ⟨rest, rfl, hrest⟩ := exists_of_decodeFrom_append hread
    rw [eq_nil_of_decodeFrom hrest, List.append_nil]
  · rintro rfl
    exact decode?_encode cs

/-- Characters that a lenient reader finds at the front stem from their encoding, unless it has
put them there itself. -/
theorem exists_of_decodeLenient_append {cs ds : List Char} (hcs : '\ufffd' ∉ cs)
    (h : decodeLenient bytes = cs ++ ds) : ∃ rest, bytes = encode cs ++ rest := by
  obtain ⟨xs, ys, hread, rfl, -⟩ := List.map_eq_append_iff.1 h
  have hxs : xs = (xs.map (·.getD '\ufffd')).map some := by
    rw [List.map_map]
    refine (List.map_id xs).symm.trans (List.map_congr_left fun x hx => ?_)
    cases x with
    | none => exact absurd (List.mem_map.2 ⟨none, hx, rfl⟩) hcs
    | some c => rfl
  rw [decode, hxs] at hread
  obtain ⟨rest, hbytes, -⟩ := exists_of_decodeFrom_append hread
  exact ⟨rest, hbytes⟩

/-! ## Bytes that stand for themselves -/

/-- Every byte after the first of a character is from the upper half. -/
theorem low_of_lead (h : lead b = .first p) : 0x80 ≤ p.low := by
  unfold lead at h
  dsimp only at h
  split_ifs at h <;> cases h <;> simp

/-- **A byte of the lower half is read as itself** wherever it stands, and ends what was
unfinished before it. -/
theorem decodeFrom_append_ascii (ha : a.toNat < 0x80) (st : Option Pending)
    (hst : ∀ p ∈ st, 0x80 ≤ p.low) (bytes rest : List UInt8) :
    decodeFrom st (bytes ++ a :: rest) =
      decodeFrom st bytes ++ some (Char.ofNat a.toNat) :: decodeFrom none rest := by
  induction st, bytes using decodeFrom.induct with
  | case1 => exact decodeFrom_of_whole rest (lead_of_lt ha)
  | case2 p =>
    have hadmits : p.admits a = false := by
      have hlow := hst p rfl
      simp [Pending.admits]
      omega
    rw [List.nil_append, decodeFrom_of_not_admits rest hadmits,
      decodeFrom_of_whole rest (lead_of_lt ha)]
    rfl
  | case3 b bytes c hlead ih => simp [decodeFrom, hlead, ih]
  | case4 b bytes p hlead ih => simp [decodeFrom, hlead, ih, low_of_lead hlead]
  | case5 b bytes hlead ih => simp [decodeFrom, hlead, ih]
  | case6 p b bytes hadmits howed ih => simp [decodeFrom, hadmits, howed, ih]
  | case7 p b bytes hadmits howed ih =>
    have hnext : ∀ q ∈ some (p.next b), 0x80 ≤ q.low := by
      rintro q ⟨⟩
      exact Nat.le_refl _
    simp [decodeFrom, hadmits, howed, ih hnext]
  | case8 p b bytes hadmits c hlead ih => simp [decodeFrom, hadmits, hlead, ih]
  | case9 p b bytes hadmits q hlead ih =>
    simp [decodeFrom, hadmits, hlead, ih, low_of_lead hlead]
  | case10 p b bytes hadmits hlead ih => simp [decodeFrom, hadmits, hlead, ih]

theorem decodeFrom_none_append_ascii (ha : a.toNat < 0x80) (bytes rest : List UInt8) :
    decodeFrom none (bytes ++ a :: rest) =
      decodeFrom none bytes ++ some (Char.ofNat a.toNat) :: decodeFrom none rest :=
  decodeFrom_append_ascii ha none (fun _ hp => by cases hp) bytes rest

theorem decodeLenient_append_ascii (ha : a.toNat < 0x80) (bytes rest : List UInt8) :
    decodeLenient (bytes ++ a :: rest) =
      decodeLenient bytes ++ Char.ofNat a.toNat :: decodeLenient rest := by
  rw [decodeLenient, decode, decodeFrom_none_append_ascii ha, List.map_append, List.map_cons]
  rfl

/-- So a text that begins in the lower half is found behind any bytes. -/
theorem decodeLenient_append_encode (hc : c.toNat < 0x80) (bytes : List UInt8) (cs : List Char) :
    decodeLenient (bytes ++ encode (c :: cs)) = decodeLenient bytes ++ c :: cs := by
  have hb := toNat_ofNat (n := c.toNat) (by omega)
  rw [encode, List.flatMap_cons, utf8EncodeChar_of_lt hc, List.singleton_append,
    decodeLenient_append_ascii (by omega), hb, Char.ofNat_toNat, ← encode, decodeLenient_encode]

/-- A byte of the lower half is all there is of its character. -/
theorem charOfNat_of_mem_utf8EncodeChar (ha : a.toNat < 0x80) (h : a ∈ String.utf8EncodeChar c) :
    Char.ofNat a.toNat = c := by
  obtain ⟨front, rest, hbytes⟩ := List.append_of_mem h
  have hread : decodeFrom none (String.utf8EncodeChar c ++ []) = some c :: decodeFrom none [] :=
    decodeFrom_utf8EncodeChar [] c
  rw [List.append_nil, hbytes, decodeFrom_none_append_ascii ha, decodeFrom] at hread
  cases hfront : decodeFrom none front with
  | nil =>
    rw [hfront] at hread
    exact Option.some.inj (List.cons.inj hread).1
  | cons x xs =>
    rw [hfront] at hread
    exact absurd (List.cons.inj hread).2 (by simp)

end Utf8
end Bytes
end Linguist
