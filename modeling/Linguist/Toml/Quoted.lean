import Linguist.Text.Numeral

/-!
# Strings of TOML

There are four kinds of strings.  Double quotes allow escapes and single quotes do
not; three quotes of either kind allow line breaks, and a line break right after
them does not count.  In a string of three quotes one or two quotes stand for
themselves, also right before its end.

A line break is read as a line feed however it was written, and a backslash at the
end of a line takes away all blanks up to the next character.
-/

namespace Linguist
namespace Toml

/-- Whether a character may stand for itself in a string or a comment. -/
def isPlain (c : Char) : Bool :=
  c == '\t' || (0x20 ≤ c.toNat && c.toNat != 0x7F)

/-- Whether a character separates words on a line. -/
def isSpace (c : Char) : Bool :=
  c == ' ' || c == '\t'

/-- What follows the line break that the list begins with, if it does. -/
def afterBreak? : List Char → Option (List Char)
  | '\n' :: rest => some rest
  | '\r' :: '\n' :: rest => some rest
  | _ => none

theorem length_of_afterBreak? {cs rest : List Char} (h : afterBreak? cs = some rest) :
    rest.length < cs.length := by
  unfold afterBreak? at h
  split at h
  · cases h
    simp
  · cases h
    simp only [List.length_cons]
    omega
  · cases h

/-! ## Escapes -/

/-- The character that a short escape denotes. -/
def shortEscape? : Char → Option Char
  | '"' => some '"'
  | '\\' => some '\\'
  | 'b' => some '\x08'
  | 'f' => some '\x0c'
  | 'n' => some '\n'
  | 'r' => some '\r'
  | 't' => some '\t'
  | _ => none

/-- The character whose code so many digits in base 16 give. -/
def codedChar? (count : Nat) (cs : List Char) : Option (Char × List Char) :=
  if (cs.take count).length = count then
    (Text.readNat? 16 (cs.take count)).bind fun n =>
      (Text.charOfCode? n).map (·, cs.drop count)
  else none

/-- Reads an escape after its backslash. -/
def readEscape? : List Char → Option (Char × List Char)
  | 'u' :: rest => codedChar? 4 rest
  | 'U' :: rest => codedChar? 8 rest
  | c :: rest => (shortEscape? c).map (·, rest)
  | [] => none

theorem length_of_codedChar? {count : Nat} {cs rest : List Char} {c : Char}
    (h : codedChar? count cs = some (c, rest)) : rest.length ≤ cs.length := by
  unfold codedChar? at h
  split at h
  · obtain ⟨n, _, h⟩ := Option.bind_eq_some_iff.1 h
    obtain ⟨d, _, heq⟩ := Option.map_eq_some_iff.1 h
    cases heq
    rw [List.length_drop]
    omega
  · cases h

/-- What is left after an escape is shorter. -/
theorem length_of_readEscape? {cs rest : List Char} {c : Char}
    (h : readEscape? cs = some (c, rest)) : rest.length < cs.length := by
  unfold readEscape? at h
  split at h
  · exact Nat.lt_succ_of_le (length_of_codedChar? h)
  · exact Nat.lt_succ_of_le (length_of_codedChar? h)
  · obtain ⟨d, _, heq⟩ := Option.map_eq_some_iff.1 h
    cases heq
    simp
  · cases h

/-! ## Strings on one line -/

/-- Reads a string in double quotes, after the first. -/
def readDouble? (cs : List Char) : Option (List Char × List Char) :=
  match cs with
  | [] => none
  | '"' :: rest => some ([], rest)
  | '\\' :: rest =>
    match h : readEscape? rest with
    | some (c, more) =>
      have : more.length < rest.length + 1 := Nat.lt_succ_of_lt (length_of_readEscape? h)
      (readDouble? more).map fun (text, rest) => (c :: text, rest)
    | none => none
  | c :: rest =>
    if isPlain c then (readDouble? rest).map fun (text, rest) => (c :: text, rest) else none
termination_by cs.length

/-- Reads a string in single quotes, after the first. -/
def readSingle? : List Char → Option (List Char × List Char)
  | [] => none
  | '\'' :: rest => some ([], rest)
  | c :: rest =>
    if isPlain c then (readSingle? rest).map fun (text, rest) => (c :: text, rest) else none

/-! ## Strings on several lines -/

/-- Up to two quotes that stand before the closing ones, and what follows, after
three quotes have been seen. -/
def closing (quote : Char) : List Char → List Char × List Char
  | a :: b :: rest =>
    if a = quote then
      if b = quote then ([a, b], rest) else ([a], b :: rest)
    else ([], a :: b :: rest)
  | [a] => if a = quote then ([a], []) else ([], [a])
  | [] => ([], [])

/-- The rest of a list that begins with blanks and a line break, without all
blanks and line breaks. -/
def afterContinuation? (cs : List Char) : Option (List Char) :=
  (afterBreak? (cs.dropWhile isSpace)).map skipBlank
where
  /-- The list without the blanks and line breaks that it begins with. -/
  skipBlank : List Char → List Char
    | '\n' :: rest => skipBlank rest
    | '\r' :: '\n' :: rest => skipBlank rest
    | c :: rest => if isSpace c then skipBlank rest else c :: rest
    | [] => []

theorem length_skipBlank (cs : List Char) :
    (afterContinuation?.skipBlank cs).length ≤ cs.length := by
  fun_induction afterContinuation?.skipBlank cs with
  | case1 rest ih => exact Nat.le_succ_of_le ih
  | case2 rest ih => exact Nat.le_succ_of_le (Nat.le_succ_of_le ih)
  | case3 c rest _ _ _ ih => exact Nat.le_succ_of_le ih
  | case4 => exact Nat.le_refl _
  | case5 => exact Nat.le_refl _

theorem length_of_afterContinuation? {cs rest : List Char}
    (h : afterContinuation? cs = some rest) : rest.length < cs.length := by
  obtain ⟨more, hmore, rfl⟩ := Option.map_eq_some_iff.1 h
  have h1 := length_of_afterBreak? hmore
  have h2 := length_skipBlank more
  have h3 := (List.dropWhile_sublist isSpace (l := cs)).length_le
  omega

/-- Reads a string in three double quotes, after the first three. -/
def readLongDouble? (cs : List Char) : Option (List Char × List Char) :=
  match cs with
  | [] => none
  | '"' :: '"' :: '"' :: rest => some (closing '"' rest)
  | '\r' :: '\n' :: rest =>
    (readLongDouble? rest).map fun (text, rest) => ('\n' :: text, rest)
  | '\\' :: rest =>
    match hc : afterContinuation? rest with
    | some more =>
      have : more.length < rest.length + 1 :=
        Nat.lt_succ_of_lt (length_of_afterContinuation? hc)
      readLongDouble? more
    | none =>
      match h : readEscape? rest with
      | some (c, more) =>
        have : more.length < rest.length + 1 := Nat.lt_succ_of_lt (length_of_readEscape? h)
        (readLongDouble? more).map fun (text, rest) => (c :: text, rest)
      | none => none
  | c :: rest =>
    if isPlain c || c == '\n' then
      (readLongDouble? rest).map fun (text, rest) => (c :: text, rest)
    else none
termination_by cs.length

/-- Reads a string in three single quotes, after the first three. -/
def readLongSingle? : List Char → Option (List Char × List Char)
  | [] => none
  | '\'' :: '\'' :: '\'' :: rest => some (closing '\'' rest)
  | '\r' :: '\n' :: rest => (readLongSingle? rest).map fun (text, rest) => ('\n' :: text, rest)
  | c :: rest =>
    if isPlain c || c == '\n' then
      (readLongSingle? rest).map fun (text, rest) => (c :: text, rest)
    else none

/-- The list without a line break that it begins with. -/
def dropBreak (cs : List Char) : List Char :=
  (afterBreak? cs).getD cs

/-- Reads a string on one line. -/
def readShort? : List Char → Option (List Char × List Char)
  | '"' :: rest => readDouble? rest
  | '\'' :: rest => readSingle? rest
  | _ => none

/-- Reads a string of any kind. -/
def readString? : List Char → Option (List Char × List Char)
  | '"' :: '"' :: '"' :: rest => readLongDouble? (dropBreak rest)
  | '\'' :: '\'' :: '\'' :: rest => readLongSingle? (dropBreak rest)
  | cs => readShort? cs

/-! ## What is left is shorter -/

theorem length_of_readDouble? {cs text rest : List Char}
    (h : readDouble? cs = some (text, rest)) : rest.length < cs.length := by
  fun_induction readDouble? cs generalizing text with
  | case1 => cases h
  | case2 => cases h; simp
  | case3 more c left hc hlt ih =>
    obtain ⟨⟨t, r⟩, ht, heq⟩ := Option.map_eq_some_iff.1 h
    cases heq
    have := ih ht
    simp only [List.length_cons]
    omega
  | case4 => cases h
  | case5 c more _ _ _ ih =>
    obtain ⟨⟨t, r⟩, ht, heq⟩ := Option.map_eq_some_iff.1 h
    cases heq
    exact Nat.lt_succ_of_lt (ih ht)
  | case6 => cases h

theorem length_of_readSingle? {cs text rest : List Char}
    (h : readSingle? cs = some (text, rest)) : rest.length < cs.length := by
  fun_induction readSingle? cs generalizing text with
  | case1 => cases h
  | case2 => cases h; simp
  | case3 c more _ _ ih =>
    obtain ⟨⟨t, r⟩, ht, heq⟩ := Option.map_eq_some_iff.1 h
    cases heq
    exact Nat.lt_succ_of_lt (ih ht)
  | case4 => cases h

theorem length_closing (quote : Char) (cs : List Char) :
    (closing quote cs).2.length ≤ cs.length := by
  unfold closing
  split
  · split
    · split
      · exact Nat.le_succ_of_le (Nat.le_succ _)
      · exact Nat.le_succ _
    · exact Nat.le_refl _
  · split <;> simp
  · exact Nat.le_refl _

theorem length_of_readLongDouble? {cs text rest : List Char}
    (h : readLongDouble? cs = some (text, rest)) : rest.length < cs.length := by
  fun_induction readLongDouble? cs generalizing text with
  | case1 => cases h
  | case2 more =>
    have := length_closing '"' more
    rw [Option.some.inj h] at this
    dsimp only [List.length_cons] at this ⊢
    omega
  | case3 more ih =>
    obtain ⟨⟨t, r⟩, ht, heq⟩ := Option.map_eq_some_iff.1 h
    cases heq
    exact Nat.lt_succ_of_lt (Nat.lt_succ_of_lt (ih ht))
  | case4 more left hc hlt ih => exact Nat.lt_of_lt_of_le (ih h) (Nat.le_of_lt hlt)
  | case5 more hc c left he hlt ih =>
    obtain ⟨⟨t, r⟩, ht, heq⟩ := Option.map_eq_some_iff.1 h
    cases heq
    exact Nat.lt_of_lt_of_le (ih ht) (Nat.le_of_lt hlt)
  | case6 => cases h
  | case7 c more _ _ _ _ ih =>
    obtain ⟨⟨t, r⟩, ht, heq⟩ := Option.map_eq_some_iff.1 h
    cases heq
    exact Nat.lt_succ_of_lt (ih ht)
  | case8 => cases h

theorem length_of_readLongSingle? {cs text rest : List Char}
    (h : readLongSingle? cs = some (text, rest)) : rest.length < cs.length := by
  fun_induction readLongSingle? cs generalizing text with
  | case1 => cases h
  | case2 more =>
    have := length_closing '\'' more
    rw [Option.some.inj h] at this
    dsimp only [List.length_cons] at this ⊢
    omega
  | case3 more ih =>
    obtain ⟨⟨t, r⟩, ht, heq⟩ := Option.map_eq_some_iff.1 h
    cases heq
    exact Nat.lt_succ_of_lt (Nat.lt_succ_of_lt (ih ht))
  | case4 c more _ _ _ ih =>
    obtain ⟨⟨t, r⟩, ht, heq⟩ := Option.map_eq_some_iff.1 h
    cases heq
    exact Nat.lt_succ_of_lt (ih ht)
  | case5 => cases h

theorem length_dropBreak (cs : List Char) : (dropBreak cs).length ≤ cs.length := by
  unfold dropBreak
  cases h : afterBreak? cs with
  | none => exact Nat.le_refl _
  | some rest => exact Nat.le_of_lt (length_of_afterBreak? h)

theorem length_of_readShort? {cs text rest : List Char}
    (h : readShort? cs = some (text, rest)) : rest.length < cs.length := by
  unfold readShort? at h
  split at h
  · exact Nat.lt_succ_of_lt (length_of_readDouble? h)
  · exact Nat.lt_succ_of_lt (length_of_readSingle? h)
  · cases h

/-- What is left after a string is shorter. -/
theorem length_of_readString? {cs text rest : List Char}
    (h : readString? cs = some (text, rest)) : rest.length < cs.length := by
  unfold readString? at h
  split at h
  · rename_i more
    have h1 := length_of_readLongDouble? h
    have h2 := length_dropBreak more
    simp only [List.length_cons]
    omega
  · rename_i more
    have h1 := length_of_readLongSingle? h
    have h2 := length_dropBreak more
    simp only [List.length_cons]
    omega
  · exact length_of_readShort? h

end Toml
end Linguist
