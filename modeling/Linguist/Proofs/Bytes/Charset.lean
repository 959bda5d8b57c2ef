import Linguist.Bytes.Charset
import Linguist.Proofs.Bytes.Boundary
import Mathlib.Data.List.Nodup

/-!
# Writing texts in a character set

Nothing in this library writes bytes in any set but UTF-8, so the sets of `Bytes.Charset` are
given as readers only.  The writers are here (`Charset.encode?`), to say what the readers are
for: a set reads bytes as a text exactly if these are the bytes of the text in this set
(`Charset.decode?_eq_some_iff`).

Everything is said of one character first.  A reader takes a written character from the front
and goes on behind it (`decode?_encodeChar?_append`), and a reader that finds a character first
has taken it from bytes that are its own (`exists_of_decode?_cons`).  For the sets of one byte
per character this rests on their tables, in which no character stands twice.

In most of the sets the bytes below 0x80 stand for themselves (`Charset.isAsciiBased`).  What
is written in characters of that kind has the same bytes in all of them.
-/

namespace Linguist
namespace Bytes
namespace Charset

open Utf8 (toNat_ofNat toNat_charOfNat)

/-! ## Writers -/

/-- The code units of a character in UTF-16: one, or a pair of surrogates. -/
def units (c : Char) : List Nat :=
  if c.toNat < 0x10000 then [c.toNat]
  else [0xD800 + (c.toNat - 0x10000) / 0x400, 0xDC00 + (c.toNat - 0x10000) % 0x400]

/-- The two bytes of a code unit. -/
def unitBytes (bigEndian : Bool) (u : Nat) : List UInt8 :=
  if bigEndian then [UInt8.ofNat (u / 256), UInt8.ofNat (u % 256)]
  else [UInt8.ofNat (u % 256), UInt8.ofNat (u / 256)]

/-- The byte of a character in a set of one byte per character. -/
def byte? (code : Nat → Nat) (c : Char) : Option UInt8 :=
  ((List.range 256).find? fun n => code n == c.toNat).map UInt8.ofNat

/-- The bytes of a character, if the set has it. -/
def encodeChar? : Charset → Char → Option (List UInt8)
  | utf8, c => some (String.utf8EncodeChar c)
  | utf16le, c => some ((units c).flatMap (unitBytes false))
  | utf16be, c => some ((units c).flatMap (unitBytes true))
  | windows1251, c => (byte? windows1251Code c).map ([·])
  | windows1252, c => (byte? windows1252Code c).map ([·])
  | iso8859x15, c => (byte? iso8859x15Code c).map ([·])
  | userDefined, c => (byte? userDefinedCode c).map ([·])
  | replacement, _ => none

/-- The bytes of a text, if the set has all of its characters. -/
def encode? (charset : Charset) : List Char → Option (List UInt8)
  | [] => some []
  | c :: cs => (charset.encodeChar? c).bind fun front => (charset.encode? cs).map (front ++ ·)

/-! ## UTF-16 -/

section

variable {bigEndian : Bool} {u : Nat} {us : List Nat} {bytes : List UInt8} {c : Char}
  {cs : List Char}

theorem units?_unitBytes_append (hu : u < 0x10000) (rest : List UInt8) :
    units? bigEndian (unitBytes bigEndian u ++ rest) = (units? bigEndian rest).map (u :: ·) := by
  have hhigh := toNat_ofNat (n := u / 256) (by omega)
  have hlow := toNat_ofNat (n := u % 256) (by omega)
  have hunit : u / 256 * 256 + u % 256 = u := by omega
  cases bigEndian <;> simp [unitBytes, units?, hhigh, hlow, hunit]

theorem units?_flatMap_append (hus : ∀ u ∈ us, u < 0x10000) (rest : List UInt8) :
    units? bigEndian (us.flatMap (unitBytes bigEndian) ++ rest) =
      (units? bigEndian rest).map (us ++ ·) := by
  induction us with
  | nil => simp
  | cons u us ih =>
    obtain ⟨hu, hus⟩ := List.forall_mem_cons.1 hus
    rw [List.flatMap_cons, List.append_assoc, units?_unitBytes_append hu, ih hus, Option.map_map]
    rfl

theorem unit_parts (a b : UInt8) :
    (a.toNat * 256 + b.toNat) / 256 = a.toNat ∧ (a.toNat * 256 + b.toNat) % 256 = b.toNat ∧
      a.toNat * 256 + b.toNat < 0x10000 := by
  have ha : a.toNat < 256 := a.toNat_lt
  have hb : b.toNat < 256 := b.toNat_lt
  omega

/-- Code units stem from their own bytes. -/
theorem eq_flatMap_of_units? (h : units? bigEndian bytes = some us) :
    bytes = us.flatMap (unitBytes bigEndian) ∧ ∀ u ∈ us, u < 0x10000 := by
  induction bytes using units?.induct bigEndian generalizing us with
  | case1 =>
    obtain rfl := Option.some.inj h
    exact ⟨rfl, nofun⟩
  | case2 => cases h
  | case3 a b rest ih =>
    obtain ⟨us, hrest, rfl⟩ := Option.map_eq_some_iff.1 h
    obtain ⟨rfl, hus⟩ := ih hrest
    cases bigEndian with
    | true =>
      obtain ⟨hhigh, hlow, hlt⟩ := unit_parts a b
      refine ⟨?_, List.forall_mem_cons.2 ⟨hlt, hus⟩⟩
      simp [unitBytes, hhigh, hlow]
    | false =>
      obtain ⟨hhigh, hlow, hlt⟩ := unit_parts b a
      refine ⟨?_, List.forall_mem_cons.2 ⟨hlt, hus⟩⟩
      simp [unitBytes, hhigh, hlow]

theorem toNat_valid (c : Char) : c.toNat < 0xD800 ∨ 0xDFFF < c.toNat ∧ c.toNat < 0x110000 :=
  c.valid

theorem units_lt (c : Char) : ∀ u ∈ units c, u < 0x10000 := by
  have hvalid := toNat_valid c
  rw [units]
  split
  · simpa
  · simp
    omega

/-- Written units are read as the character, and reading goes on behind them. -/
theorem ofUnits?_units_append (c : Char) (us : List Nat) :
    ofUnits? (units c ++ us) = (ofUnits? us).map (c :: ·) := by
  have hvalid := toNat_valid c
  rw [units]
  split
  · rename_i hsmall
    rw [List.singleton_append, ofUnits?.eq_def]
    dsimp only
    rw [if_pos (by omega), Char.ofNat_toNat]
  · rename_i hlarge
    have hcode : 0x10000 + (0xD800 + (c.toNat - 0x10000) / 0x400 - 0xD800) * 0x400 +
        (0xDC00 + (c.toNat - 0x10000) % 0x400 - 0xDC00) = c.toNat := by omega
    rw [List.cons_append, List.singleton_append, ofUnits?, if_neg (by omega), if_pos (by omega),
      if_pos (by omega), hcode, Char.ofNat_toNat]

/-- A character stems from its own units. -/
theorem exists_of_ofUnits?_cons (hus : ∀ u ∈ us, u < 0x10000)
    (h : ofUnits? us = some (c :: cs)) :
    ∃ rest, us = units c ++ rest ∧ ofUnits? rest = some cs := by
  revert hus h
  fun_cases ofUnits? us with
  | case1 => nofun
  | case2 u rest hsingle =>
    intro hus h
    have hu := hus u List.mem_cons_self
    obtain ⟨cs', hrest, hcs⟩ := Option.map_eq_some_iff.1 h
    obtain ⟨rfl, rfl⟩ := List.cons.inj hcs
    have hcode : (Char.ofNat u).toNat = u := toNat_charOfNat (hsingle.imp_right fun _ => by omega)
    refine ⟨rest, ?_, hrest⟩
    rw [units, hcode, if_pos hu]
    rfl
  | case3 u hnot hhigh v rest hlow =>
    intro hus h
    obtain ⟨cs', hrest, hcs⟩ := Option.map_eq_some_iff.1 h
    obtain ⟨hc, rfl⟩ := List.cons.inj hcs
    have hcode : c.toNat = 0x10000 + (u - 0xD800) * 0x400 + (v - 0xDC00) := by
      rw [← hc]
      refine toNat_charOfNat (.inr ?_)
      omega
    have hu : 0xD800 + (c.toNat - 0x10000) / 0x400 = u := by omega
    have hv : 0xDC00 + (c.toNat - 0x10000) % 0x400 = v := by omega
    refine ⟨rest, ?_, hrest⟩
    rw [units, if_neg (by omega), hu, hv]
    rfl
  | case4 => nofun
  | case5 => nofun
  | case6 => nofun

theorem eq_nil_of_ofUnits? (h : ofUnits? us = some []) : us = [] := by
  revert h
  fun_cases ofUnits? us <;> simp

end

/-! ## Tables -/

/-- Whether numbers are distinct and none of them has been seen, where what has been seen is kept
as the bits of a number. -/
def distinctFrom (seen : Nat) : List Nat → Bool
  | [] => true
  | n :: ns => !seen.testBit n && distinctFrom (seen ||| 1 <<< n) ns

theorem nodup_of_distinctFrom {seen : Nat} {ns : List Nat} (h : distinctFrom seen ns = true) :
    ns.Nodup ∧ ∀ n ∈ ns, seen.testBit n = false := by
  induction ns generalizing seen with
  | nil => exact ⟨List.nodup_nil, nofun⟩
  | cons n ns ih =>
    rw [distinctFrom, Bool.and_eq_true, Bool.not_eq_true'] at h
    obtain ⟨hn, hns⟩ := h
    obtain ⟨hnodup, hunseen⟩ := ih hns
    simp only [Nat.testBit_or, Bool.or_eq_false_iff, Nat.testBit_shiftLeft] at hunseen
    refine ⟨List.nodup_cons.2 ⟨fun hmem => ?_, hnodup⟩,
      List.forall_mem_cons.2 ⟨hn, fun m hm => (hunseen m hm).1⟩⟩
    simpa using (hunseen n hmem).2

/-- What a table of a set of one byte per character has to be: a character for every byte, none
of them twice, and the lower half as it is. -/
structure IsTable (code : Nat → Nat) : Prop where
  valid : ∀ n < 256, (code n).isValidChar
  nodup : ((List.range 256).map code).Nodup
  ascii : ∀ n < 0x80, code n = n

theorem IsTable.of_distinct {code : Nat → Nat} (valid : ∀ n < 256, (code n).isValidChar)
    (distinct : distinctFrom 0 ((List.range 256).map code) = true)
    (ascii : ∀ n < 0x80, code n = n) : IsTable code :=
  ⟨valid, (nodup_of_distinctFrom distinct).1, ascii⟩

theorem isTable_windows1251Code : IsTable windows1251Code :=
  .of_distinct (by decide +kernel) (by decide +kernel) (by decide +kernel)

theorem isTable_windows1252Code : IsTable windows1252Code :=
  .of_distinct (by decide +kernel) (by decide +kernel) (by decide +kernel)

theorem isTable_iso8859x15Code : IsTable iso8859x15Code :=
  .of_distinct (by decide +kernel) (by decide +kernel) (by decide +kernel)

theorem isTable_userDefinedCode : IsTable userDefinedCode :=
  .of_distinct (by decide +kernel) (by decide +kernel) (by decide +kernel)

section

variable {code : Nat → Nat} {b : UInt8} {c : Char}

theorem IsTable.injective (htable : IsTable code) {m n : Nat} (hm : m < 256) (hn : n < 256)
    (h : code m = code n) : m = n :=
  List.inj_on_of_nodup_map htable.nodup (List.mem_range.2 hm) (List.mem_range.2 hn) h

/-- **The byte of a character is the one that is read as it.** -/
theorem IsTable.byte?_eq_some_iff (htable : IsTable code) :
    byte? code c = some b ↔ Char.ofNat (code b.toNat) = c := by
  have hb : b.toNat < 256 := b.toNat_lt
  have hcode : (Char.ofNat (code b.toNat)).toNat = code b.toNat :=
    toNat_charOfNat (htable.valid _ hb)
  rw [byte?, Option.map_eq_some_iff]
  constructor
  · rintro ⟨n, hfind, rfl⟩
    obtain ⟨hn, hrange, -⟩ := List.find?_range_eq_some.1 hfind
    rw [toNat_ofNat (List.mem_range.1 hrange), eq_of_beq hn, Char.ofNat_toNat]
  · rintro rfl
    refine ⟨b.toNat, List.find?_range_eq_some.2 ⟨?_, List.mem_range.2 hb, fun m hm => ?_⟩,
      UInt8.ofNat_toNat⟩
    · rw [hcode, beq_self_eq_true]
    · have hne : code m ≠ code b.toNat := fun h =>
        Nat.ne_of_lt hm (htable.injective (Nat.lt_trans hm hb) hb h)
      rw [hcode, beq_false_of_ne hne]
      rfl

theorem IsTable.byte?_of_lt (htable : IsTable code) (hc : c.toNat < 0x80) :
    byte? code c = some (UInt8.ofNat c.toNat) := by
  rw [htable.byte?_eq_some_iff, toNat_ofNat (by omega), htable.ascii _ hc, Char.ofNat_toNat]

theorem IsTable.charOfNat_of_byte? (htable : IsTable code) (h : byte? code c = some b)
    (hb : b.toNat < 0x80) : Char.ofNat b.toNat = c := by
  rw [← htable.byte?_eq_some_iff.1 h, htable.ascii _ hb]

end

/-! ## The sets by the way they write -/

/-- Whether the bytes below 0x80 stand for themselves in the set, and for nothing else. -/
def isAsciiBased : Charset → Bool
  | utf16le | utf16be | replacement => false
  | utf8 | windows1251 | windows1252 | iso8859x15 | userDefined => true

/-- A set that is one of the byte orders of UTF-16. -/
structure OfUnits (charset : Charset) (bigEndian : Bool) : Prop where
  decode : ∀ bytes, charset.decode? bytes = (units? bigEndian bytes).bind ofUnits?
  encode : ∀ c, charset.encodeChar? c = some ((units c).flatMap (unitBytes bigEndian))
  ascii : charset.isAsciiBased = false

/-- A set of one byte per character. -/
structure OfTable (charset : Charset) (code : Nat → Nat) : Prop where
  table : IsTable code
  decode : ∀ bytes, charset.decode? bytes = some (decodeSingle code bytes)
  encode : ∀ c, charset.encodeChar? c = (byte? code c).map ([·])

/-- The ways of writing. -/
inductive Way : Charset → Prop
  | utf8 : Way utf8
  | units {charset : Charset} {bigEndian : Bool} (h : charset.OfUnits bigEndian) : Way charset
  | table {charset : Charset} {code : Nat → Nat} (h : charset.OfTable code) : Way charset
  | replacement : Way replacement

theorem way (charset : Charset) : charset.Way := by
  cases charset with
  | utf8 => exact .utf8
  | utf16le => exact .units ⟨fun _ => rfl, fun _ => rfl, rfl⟩
  | utf16be => exact .units ⟨fun _ => rfl, fun _ => rfl, rfl⟩
  | windows1251 => exact .table ⟨isTable_windows1251Code, fun _ => rfl, fun _ => rfl⟩
  | windows1252 => exact .table ⟨isTable_windows1252Code, fun _ => rfl, fun _ => rfl⟩
  | iso8859x15 => exact .table ⟨isTable_iso8859x15Code, fun _ => rfl, fun _ => rfl⟩
  | userDefined => exact .table ⟨isTable_userDefinedCode, fun _ => rfl, fun _ => rfl⟩
  | replacement => exact .replacement

/-! ## Reading what is written -/

variable {charset : Charset} {bytes front : List UInt8} {b : UInt8} {c : Char} {cs : List Char}

/-- **A reader takes a written character from the front,** and goes on behind it. -/
theorem decode?_encodeChar?_append (h : charset.encodeChar? c = some front) (rest : List UInt8) :
    charset.decode? (front ++ rest) = (charset.decode? rest).map (c :: ·) := by
  cases charset.way with
  | utf8 =>
    obtain rfl := Option.some.inj h
    show Utf8.decode? _ = (Utf8.decode? _).map _
    rw [Utf8.decode?, Utf8.decode, Utf8.decodeFrom_utf8EncodeChar, List.mapM_cons,
      Option.map_eq_bind]
    rfl
  | units hway =>
    rw [hway.encode] at h
    obtain rfl := Option.some.inj h
    rw [hway.decode, hway.decode, units?_flatMap_append (units_lt c), Option.bind_map,
      Option.map_bind]
    exact congrArg _ (funext (ofUnits?_units_append c))
  | table hway =>
    rw [hway.encode] at h
    obtain ⟨b, hb, rfl⟩ := Option.map_eq_some_iff.1 h
    rw [hway.decode, hway.decode, decodeSingle, List.singleton_append, List.map_cons,
      hway.table.byte?_eq_some_iff.1 hb]
    rfl
  | replacement => cases h

/-- **A character that is read first has been taken from its own bytes.** -/
theorem exists_of_decode?_cons (h : charset.decode? bytes = some (c :: cs)) :
    ∃ front rest, bytes = front ++ rest ∧ charset.encodeChar? c = some front ∧
      charset.decode? rest = some cs := by
  cases charset.way with
  | utf8 =>
    have hbytes : bytes = String.utf8EncodeChar c ++ Utf8.encode cs :=
      Utf8.decode?_eq_some_iff.1 h
    exact ⟨_, _, hbytes, rfl, Utf8.decode?_encode cs⟩
  | @units _ bigEndian hway =>
    rw [hway.decode] at h
    obtain ⟨us, hunits, hus⟩ := Option.bind_eq_some_iff.1 h
    obtain ⟨rfl, hlt⟩ := eq_flatMap_of_units? hunits
    obtain ⟨us, rfl, hrest⟩ := exists_of_ofUnits?_cons hlt hus
    have hread : units? bigEndian (us.flatMap (unitBytes bigEndian) ++ []) = _ :=
      units?_flatMap_append (fun u hu => hlt u (List.mem_append_right _ hu)) []
    rw [List.append_nil, units?, Option.map_some, List.append_nil] at hread
    refine ⟨_, us.flatMap (unitBytes bigEndian), List.flatMap_append, hway.encode c, ?_⟩
    rw [hway.decode, hread, Option.bind_some, hrest]
  | table hway =>
    rw [hway.decode] at h
    obtain ⟨b, rest, rfl, hc, rfl⟩ := List.map_eq_cons_iff.1 (Option.some.inj h)
    refine ⟨[b], rest, rfl, ?_, hway.decode rest⟩
    rw [hway.encode, hway.table.byte?_eq_some_iff.2 hc, Option.map_some]
  | replacement =>
    rw [decode?] at h
    split at h <;> cases h

theorem decode?_nil (charset : Charset) : charset.decode? [] = some [] := by
  cases charset <;> rfl

theorem eq_nil_of_decode?_nil (h : charset.decode? bytes = some []) : bytes = [] := by
  cases charset.way with
  | utf8 => exact Utf8.decode?_eq_some_iff.1 h
  | units hway =>
    rw [hway.decode] at h
    obtain ⟨us, hunits, hus⟩ := Option.bind_eq_some_iff.1 h
    rw [(eq_flatMap_of_units? hunits).1, eq_nil_of_ofUnits? hus, List.flatMap_nil]
  | table hway =>
    rw [hway.decode] at h
    exact List.map_eq_nil_iff.1 (Option.some.inj h)
  | replacement =>
    rw [decode?] at h
    split at h
    · exact List.isEmpty_iff.1 ‹_›
    · cases h

/-- **A set reads bytes as a text exactly if they are the bytes of this text.** -/
theorem decode?_eq_some_iff :
    charset.decode? bytes = some cs ↔ charset.encode? cs = some bytes := by
  induction cs generalizing bytes with
  | nil =>
    constructor
    · intro h
      rw [eq_nil_of_decode?_nil h, encode?]
    · intro h
      rw [← Option.some.inj h, decode?_nil]
  | cons c cs ih =>
    simp only [encode?, Option.bind_eq_some_iff, Option.map_eq_some_iff]
    constructor
    · intro h
      obtain ⟨front, rest, rfl, hfront, hrest⟩ := exists_of_decode?_cons h
      exact ⟨front, hfront, rest, ih.1 hrest, rfl⟩
    · rintro ⟨front, hfront, rest, hrest, rfl⟩
      rw [decode?_encodeChar?_append hfront, ih.2 hrest, Option.map_some]

/-! ## Texts in parts -/

/-- The bytes of a text are the bytes of its parts. -/
theorem exists_of_encode?_append {ds : List Char} (h : charset.encode? (cs ++ ds) = some bytes) :
    ∃ front rest, charset.encode? cs = some front ∧ charset.encode? ds = some rest ∧
      bytes = front ++ rest := by
  induction cs generalizing bytes with
  | nil => exact ⟨[], bytes, rfl, h, rfl⟩
  | cons c cs ih =>
    obtain ⟨first, hfirst, hbytes⟩ := Option.bind_eq_some_iff.1 h
    obtain ⟨others, hothers, rfl⟩ := Option.map_eq_some_iff.1 hbytes
    obtain ⟨front, rest, hfront, hrest, rfl⟩ := ih hothers
    refine ⟨first ++ front, rest, ?_, hrest, (List.append_assoc first front rest).symm⟩
    rw [encode?, hfirst, hfront, Option.bind_some, Option.map_some]

/-- A set that has all characters has all texts. -/
theorem encode?_of_total {f : Char → List UInt8} (h : ∀ c, charset.encodeChar? c = some (f c))
    (cs : List Char) : charset.encode? cs = some (cs.flatMap f) := by
  induction cs with
  | nil => rfl
  | cons c cs ih => rw [encode?, h, ih, Option.bind_some, Option.map_some, List.flatMap_cons]

/-- The bytes of a text in UTF-16. -/
def utf16 (bigEndian : Bool) (cs : List Char) : List UInt8 :=
  cs.flatMap fun c => (units c).flatMap (unitBytes bigEndian)

theorem encode?_utf8 (cs : List Char) : utf8.encode? cs = some (Utf8.encode cs) :=
  encode?_of_total (fun _ => rfl) cs

theorem encode?_utf16le (cs : List Char) : utf16le.encode? cs = some (utf16 false cs) :=
  encode?_of_total (fun _ => rfl) cs

theorem encode?_utf16be (cs : List Char) : utf16be.encode? cs = some (utf16 true cs) :=
  encode?_of_total (fun _ => rfl) cs

/-! ## Characters of the lower half -/

/-- **The lower half is written as it is in UTF-8.** -/
theorem encodeChar?_of_lt (h : charset.isAsciiBased = true) (hc : c.toNat < 0x80) :
    charset.encodeChar? c = some (String.utf8EncodeChar c) := by
  cases charset.way with
  | utf8 => rfl
  | units hway => exact absurd (h.symm.trans hway.ascii) nofun
  | table hway =>
    rw [hway.encode, hway.table.byte?_of_lt hc, Utf8.utf8EncodeChar_of_lt hc, Option.map_some]
  | replacement => cases h

theorem encode?_of_lt (h : charset.isAsciiBased = true) (hcs : ∀ c ∈ cs, c.toNat < 0x80) :
    charset.encode? cs = some (Utf8.encode cs) := by
  induction cs with
  | nil => rfl
  | cons c cs ih =>
    obtain ⟨hc, hcs⟩ := List.forall_mem_cons.1 hcs
    rw [encode?, encodeChar?_of_lt h hc, ih hcs]
    rfl

/-- **No other characters have bytes of the lower half.** -/
theorem charOfNat_of_mem_encodeChar? (h : charset.isAsciiBased = true)
    (hfront : charset.encodeChar? c = some front) (hb : b ∈ front) (hlt : b.toNat < 0x80) :
    Char.ofNat b.toNat = c := by
  cases charset.way with
  | utf8 =>
    obtain rfl := Option.some.inj hfront
    exact Utf8.charOfNat_of_mem_utf8EncodeChar hlt hb
  | units hway => exact absurd (h.symm.trans hway.ascii) nofun
  | table hway =>
    rw [hway.encode] at hfront
    obtain ⟨b', hb', rfl⟩ := Option.map_eq_some_iff.1 hfront
    obtain rfl := List.mem_singleton.1 hb
    exact hway.table.charOfNat_of_byte? hb' hlt
  | replacement => cases h

theorem mem_of_mem_encode? (h : charset.isAsciiBased = true)
    (hbytes : charset.encode? cs = some bytes) (hb : b ∈ bytes) (hlt : b.toNat < 0x80) :
    Char.ofNat b.toNat ∈ cs := by
  induction cs generalizing bytes with
  | nil =>
    obtain rfl := Option.some.inj hbytes
    cases hb
  | cons c cs ih =>
    simp only [encode?, Option.bind_eq_some_iff, Option.map_eq_some_iff] at hbytes
    obtain ⟨front, hfront, rest, hrest, rfl⟩ := hbytes
    rcases List.mem_append.1 hb with hb | hb
    · rw [charOfNat_of_mem_encodeChar? h hfront hb hlt]
      exact List.mem_cons_self
    · exact List.mem_cons_of_mem _ (ih hrest hb)

end Charset
end Bytes
end Linguist
