import Linguist.Text.Emoji
import Linguist.Text.Shortened

/-!
# Columns on a terminal

A terminal draws most characters in one column, those of East Asian scripts and
pictures in two, and marks in none.  The width of a text is not always the sum over
its characters, since some of them are drawn as one: a picture of several elements,
and the ligatures of a few scripts.

## Controls

A control character has no width of its own, but in a text it counts as one column,
since a terminal shows something for it; a carriage return and the line feed after
it count once.

## Other terminals

Terminals differ, and so do versions of the tables.  What is said here is the measure
that reports are cut with where no other is given.
-/

namespace Linguist
namespace Text
namespace Terminal

/-- Characters without width that do not attach to others. -/
def widthlessRanges : List (Nat × Nat) := [
  (0xAD, 0xAD), (0x605, 0x605), (0x61C, 0x61C), (0x70F, 0x70F), (0x890, 0x891), (0x8E2, 0x8E2),
  (0x1160, 0x11FF), (0x180E, 0x180E), (0x200B, 0x200B), (0x200D, 0x200F), (0x202A, 0x202E),
  (0x2060, 0x206F), (0x3164, 0x3164), (0xA8FA, 0xA8FA), (0xD7B0, 0xD7C6), (0xD7CB, 0xD7FB),
  (0xFEFF, 0xFEFF), (0xFFA0, 0xFFA0), (0xFFF0, 0xFFF8), (0x1BCA0, 0x1BCA3), (0x1D173, 0x1D17A),
  (0xE0000, 0xE001F), (0xE0080, 0xE00FF), (0xE01F0, 0xE0FFF)]

/-- Characters that take two columns. -/
def wideRanges : List (Nat × Nat) := [
  (0x1100, 0x115E), (0x231A, 0x231B), (0x2329, 0x232A), (0x23E9, 0x23EC), (0x23F0, 0x23F0),
  (0x23F3, 0x23F3), (0x25FD, 0x25FE), (0x2614, 0x2615), (0x2630, 0x2637), (0x2648, 0x2653),
  (0x267F, 0x267F), (0x268A, 0x268F), (0x2693, 0x2693), (0x26A1, 0x26A1), (0x26AA, 0x26AB),
  (0x26BD, 0x26BE), (0x26C4, 0x26C5), (0x26CE, 0x26CE), (0x26D4, 0x26D4), (0x26EA, 0x26EA),
  (0x26F2, 0x26F3), (0x26F5, 0x26F5), (0x26FA, 0x26FA), (0x26FD, 0x26FD), (0x2705, 0x2705),
  (0x270A, 0x270B), (0x2728, 0x2728), (0x274C, 0x274C), (0x274E, 0x274E), (0x2753, 0x2755),
  (0x2757, 0x2757), (0x2795, 0x2797), (0x27B0, 0x27B0), (0x27BF, 0x27BF), (0x2B1B, 0x2B1C),
  (0x2B50, 0x2B50), (0x2B55, 0x2B55), (0x2E80, 0x2E99), (0x2E9B, 0x2EF3), (0x2F00, 0x2FD5),
  (0x2FF0, 0x3029), (0x3030, 0x303E), (0x3041, 0x3096), (0x309B, 0x30FF), (0x3105, 0x312F),
  (0x3131, 0x3163), (0x3165, 0x318E), (0x3190, 0x31E5), (0x31EF, 0x321E), (0x3220, 0x3247),
  (0x3250, 0xA48C), (0xA490, 0xA4C6), (0xA960, 0xA97C), (0xAC00, 0xD7A3), (0xF900, 0xFAFF),
  (0xFE10, 0xFE19), (0xFE30, 0xFE52), (0xFE54, 0xFE66), (0xFE68, 0xFE6B), (0xFF01, 0xFF60),
  (0xFFE0, 0xFFE6), (0x16FE0, 0x16FE3), (0x17000, 0x187F7), (0x18800, 0x18CD5),
  (0x18CFF, 0x18D08), (0x1AFF0, 0x1AFF3), (0x1AFF5, 0x1AFFB), (0x1AFFD, 0x1AFFE),
  (0x1B000, 0x1B122), (0x1B132, 0x1B132), (0x1B150, 0x1B152), (0x1B155, 0x1B155),
  (0x1B164, 0x1B167), (0x1B170, 0x1B2FB), (0x1D300, 0x1D356), (0x1D360, 0x1D376),
  (0x1F004, 0x1F004), (0x1F0CF, 0x1F0CF), (0x1F18E, 0x1F18E), (0x1F191, 0x1F19A),
  (0x1F200, 0x1F202), (0x1F210, 0x1F23B), (0x1F240, 0x1F248), (0x1F250, 0x1F251),
  (0x1F260, 0x1F265), (0x1F300, 0x1F320), (0x1F32D, 0x1F335), (0x1F337, 0x1F37C),
  (0x1F37E, 0x1F393), (0x1F3A0, 0x1F3CA), (0x1F3CF, 0x1F3D3), (0x1F3E0, 0x1F3F0),
  (0x1F3F4, 0x1F3F4), (0x1F3F8, 0x1F43E), (0x1F440, 0x1F440), (0x1F442, 0x1F4FC),
  (0x1F4FF, 0x1F53D), (0x1F54B, 0x1F54E), (0x1F550, 0x1F567), (0x1F57A, 0x1F57A),
  (0x1F595, 0x1F596), (0x1F5A4, 0x1F5A4), (0x1F5FB, 0x1F64F), (0x1F680, 0x1F6C5),
  (0x1F6CC, 0x1F6CC), (0x1F6D0, 0x1F6D2), (0x1F6D5, 0x1F6D7), (0x1F6DC, 0x1F6DF),
  (0x1F6EB, 0x1F6EC), (0x1F6F4, 0x1F6FC), (0x1F7E0, 0x1F7EB), (0x1F7F0, 0x1F7F0),
  (0x1F90C, 0x1F93A), (0x1F93C, 0x1F945), (0x1F947, 0x1F9FF), (0x1FA70, 0x1FA7C),
  (0x1FA80, 0x1FA89), (0x1FA8F, 0x1FAC6), (0x1FACE, 0x1FADC), (0x1FADF, 0x1FAE9),
  (0x1FAF0, 0x1FAF8), (0x20000, 0x2FFFD), (0x30000, 0x3FFFD)]

/-- Whether the character is a control. -/
def isControl (c : Char) : Bool :=
  c.toNat < 0x20 || (0x7F ≤ c.toNat && c.toNat < 0xA0)

/-- The number of columns that a character takes on its own. -/
def charWidth (c : Char) : Nat :=
  if isControl c then 0
  else if c.toNat < 0xA0 then 1
  else if c == '\u115f' || c == '\u17a4' then 2
  else if c == '\u17d8' then 3
  else if c == '\u2d7f' then 1
  else if isAttached c || inRanges widthlessRanges c.toNat then 0
  else if c.toNat < 0x1100 then 1
  else if inRanges wideRanges c.toNat then 2
  else 1

/-! ## Ligatures -/

/-- Whether the character can stand inside a ligature without being part of it. -/
def isFiller (c : Char) : Bool :=
  c == joiner || inRanges [(0x34F, 0x34F), (0x17B4, 0x17B5), (0x180B, 0x180D), (0x180F, 0x180F),
    (0xFE00, 0xFE0F), (0xE0100, 0xE01EF)] c.toNat

/-- Whether the character is a form of the Arabic letter Lam. -/
def isLam (c : Char) : Bool :=
  inRanges [(0x644, 0x644), (0x6B5, 0x6B8), (0x76A, 0x76A), (0x8A6, 0x8A6), (0x8C7, 0x8C7)] c.toNat

/-- Whether the character is a form of the Arabic letter Alef. -/
def isAlef (c : Char) : Bool :=
  inRanges [(0x622, 0x623), (0x625, 0x625), (0x627, 0x627), (0x671, 0x673), (0x675, 0x675),
    (0x773, 0x774), (0x870, 0x882)] c.toNat

/-- Whether Arabic letters join across the character. -/
def isTransparent (c : Char) : Bool :=
  isAttached c && c != '\u200c' || inRanges [(0xAD, 0xAD), (0x61C, 0x61C), (0x70F, 0x70F),
    (0x200B, 0x200B), (0x200E, 0x200F), (0x202A, 0x202E), (0x2060, 0x2064), (0x206A, 0x206F),
    (0xFEFF, 0xFEFF), (0xFFF9, 0xFFFB)] c.toNat

/-- Whether the character is a Khmer letter that can be written below another. -/
def isSubscriptKhmer (c : Char) : Bool :=
  inRanges [(0x1780, 0x1782), (0x1784, 0x1787), (0x1789, 0x178C), (0x178E, 0x1793),
    (0x1795, 0x1798), (0x179B, 0x179D), (0x17A0, 0x17A0), (0x17A2, 0x17A2), (0x17A7, 0x17A7),
    (0x17AB, 0x17AC), (0x17AF, 0x17AF)] c.toNat

/-- Whether the character is a Tifinagh consonant. -/
def isTifinagh (c : Char) : Bool :=
  inRanges [(0x2D31, 0x2D65), (0x2D6F, 0x2D6F)] c.toNat

/-- Whether what stands between two Tifinagh consonants joins them: one sign that is made for
this, or the joiner of all scripts. -/
def joinsTifinagh (cs : List Char) : Bool :=
  match cs.filter (· == '\u2d7f') with
  | [] => cs.contains joiner
  | [_] => true
  | _ => false

/-- Whether what stands between the Buginese letters A and Ya joins them: the vowel sign of the
first, and the joiner behind it. -/
def joinsBuginese (cs : List Char) : Bool :=
  match cs.dropWhile isFiller with
  | [] => false
  | _ :: rest => rest.all isFiller && rest.contains joiner

/-- A ligature: what it begins with, what may stand inside, what of this joins the two ends, what
it ends with, and the number of columns of the whole. -/
structure Ligature where
  first : Char → Bool
  inner : Char → Bool
  joins : List Char → Bool
  last : Char → Bool
  width : Nat

/-- The ligatures of Arabic, Hebrew, Khmer, Buginese, Lisu, Tifinagh, Old Turkic and
Kirat Rai. -/
def ligatures : List Ligature := [
  ⟨isLam, isTransparent, fun _ => true, isAlef, 1⟩,
  ⟨(· == '\u05d0'), isFiller, (·.contains joiner), (· == '\u05dc'), 1⟩,
  ⟨(· == '\u17d2'), isFiller, fun _ => true, isSubscriptKhmer, 0⟩,
  ⟨(· == '\u1a15'), fun c => isFiller c || c == '\u1a17', joinsBuginese, (· == '\u1a10'), 1⟩,
  ⟨fun c => '\ua4f8' ≤ c && c ≤ '\ua4fb', isFiller, fun _ => true,
    fun c => c == '\ua4fc' || c == '\ua4fd', 1⟩,
  ⟨isTifinagh, fun c => isFiller c || c == '\u2d7f', joinsTifinagh, isTifinagh, 1⟩,
  ⟨(·.toNat == 0x10C32), isFiller, (·.contains joiner), (·.toNat == 0x10C03), 1⟩,
  ⟨fun c => inRanges [(0x16D63, 0x16D63), (0x16D67, 0x16D67), (0x16D69, 0x16D69)] c.toNat,
    fun _ => false, fun _ => true, (·.toNat == 0x16D67), 1⟩,
  ⟨(·.toNat == 0x16D63), fun _ => false, fun _ => true, (·.toNat == 0x16D68), 1⟩]

/-- What follows the ligature if the list begins with it. -/
def Ligature.after? (l : Ligature) : List Char → Option (List Char)
  | [] => none
  | c :: rest =>
    if l.first c ∧ l.joins (rest.takeWhile l.inner) then
      match rest.dropWhile l.inner with
      | d :: more => if l.last d then some more else none
      | [] => none
    else none

theorem Ligature.length_of_after? {l : Ligature} {cs rest : List Char}
    (h : l.after? cs = some rest) : rest.length < cs.length := by
  unfold after? at h
  split at h
  · cases h
  · rename_i c more
    split at h
    · split at h
      · rename_i d left hd
        have := (List.dropWhile_sublist l.inner (l := more)).length_le
        rw [hd, List.length_cons] at this
        split at h
        · cases h
          rw [List.length_cons]
          omega
        · cases h
      · cases h
    · cases h

/-- The width of the first ligature in a list of them that the text begins with,
and what follows it. -/
def ligature? (cs : List Char) : List Ligature → Option (Nat × List Char)
  | [] => none
  | l :: rest =>
    match l.after? cs with
    | some more => some (l.width, more)
    | none => ligature? cs rest

theorem length_of_ligature? {cs more : List Char} {ls : List Ligature} {w : Nat}
    (h : ligature? cs ls = some (w, more)) : more.length < cs.length := by
  fun_induction ligature? cs ls with
  | case1 => cases h
  | case2 l rest left hl => cases h; exact l.length_of_after? hl
  | case3 l rest hl ih => exact ih h

/-! ## Texts -/

/-- The width of a character in a text, together with a selector that makes text of
a picture, and what follows. -/
def unitWidth (c : Char) (rest : List Char) : Nat × List Char :=
  if isControl c then (1, rest)
  else if inRanges textualRanges c.toNat ∧ rest.head? = some '\ufe0e' then (1, rest.drop 1)
  else (charWidth c, rest)

/-- The width of what is drawn first, and what follows it. -/
def firstWidth (c : Char) (rest : List Char) : Nat × List Char :=
  if c = '\r' ∧ rest.head? = some '\n' then (1, rest.drop 1)
  else
    match afterElement? (c :: rest) with
    | some more => (2, afterJoined more)
    | none =>
      match ligature? (c :: rest) ligatures with
      | some (w, more) => (w, more)
      | none => unitWidth c rest

theorem length_unitWidth (c : Char) (rest : List Char) :
    (unitWidth c rest).2.length ≤ rest.length := by
  unfold unitWidth
  split
  · exact Nat.le_refl _
  · split
    · rw [List.length_drop]
      exact Nat.sub_le _ _
    · exact Nat.le_refl _

/-- Something is drawn first. -/
theorem length_firstWidth (c : Char) (rest : List Char) :
    (firstWidth c rest).2.length < rest.length + 1 := by
  unfold firstWidth
  split
  · rw [List.length_drop]
    omega
  · split
    · rename_i more h
      exact Nat.lt_of_le_of_lt (length_afterJoined more) (length_of_afterElement? h)
    · split
      · rename_i h
        exact length_of_ligature? h
      · exact Nat.lt_succ_of_le (length_unitWidth c rest)

/-- The number of columns that a text takes. -/
def width (cs : List Char) : Nat :=
  match cs with
  | [] => 0
  | c :: rest =>
    have : (firstWidth c rest).2.length < rest.length + 1 := length_firstWidth c rest
    (firstWidth c rest).1 + width (firstWidth c rest).2
termination_by cs.length

/-- The widths that are used where no others are given. -/
instance (priority := low) measure : Measure where
  charWidth? c := if isControl c then none else some (charWidth c)
  width := width

end Terminal
end Text
end Linguist
