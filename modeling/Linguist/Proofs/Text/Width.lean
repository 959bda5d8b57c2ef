import Linguist.Proofs.Sequence
import Linguist.Text.Width

/-!
# The width of a text and of its characters

A text is measured by what is drawn, a beginning of it by adding up the widths of its characters,
and the two differ in both directions.  Ligatures, joined pictures and modified ones take fewer
columns than their characters.  More columns than on their own are taken by characters of two
kinds only, each by one: a control, which counts as one column in a text and as none on its own,
and a sign of one column that U+FE0F makes a picture.  Such a character *swells* (`swells`).

So a text takes at most the columns of its characters and one for each that swells, its *reach*
(`width_le_reach`).  The proof follows what is drawn: whatever is drawn first takes no more
columns than the reach of its characters (`firstWidth_add_reach_le`).

Dots are no part of anything: a text in front of a dot is drawn as if it were alone
(`width_append_dot`).

## Tables

That something drawn has a character with enough columns of its own is a matter of tables: no
picture, sign or first letter of a ligature is a control, an attached character or another one
without width.  Tables are compared range by range and not code by code (`Apart`, `Within`).  That
they have no code in common is decided once, for a few long stretches (`solidRanges`), and each
table in question lies in these.
-/

namespace Linguist
namespace Text
namespace Terminal

open Sequence (total)

/-! ## Ranges -/

/-- No range of the one table overlaps one of the other. -/
def Apart (as bs : List (Nat × Nat)) : Prop :=
  ∀ a ∈ as, ∀ b ∈ bs, a.2 < b.1 ∨ b.2 < a.1

instance (as bs : List (Nat × Nat)) : Decidable (Apart as bs) :=
  inferInstanceAs (Decidable (∀ a ∈ as, ∀ b ∈ bs, a.2 < b.1 ∨ b.2 < a.1))

/-- Every range of the one table lies in one of the other. -/
def Within (as bs : List (Nat × Nat)) : Prop :=
  ∀ a ∈ as, ∃ b ∈ bs, b.1 ≤ a.1 ∧ a.2 ≤ b.2

instance (as bs : List (Nat × Nat)) : Decidable (Within as bs) :=
  inferInstanceAs (Decidable (∀ a ∈ as, ∃ b ∈ bs, b.1 ≤ a.1 ∧ a.2 ≤ b.2))

theorem inRanges_iff {as : List (Nat × Nat)} {n : Nat} :
    inRanges as n = true ↔ ∃ a ∈ as, a.1 ≤ n ∧ n ≤ a.2 := by
  simp [inRanges]

theorem inRanges_append (as bs : List (Nat × Nat)) (n : Nat) :
    inRanges (as ++ bs) n = (inRanges as n || inRanges bs n) :=
  List.any_append

theorem Apart.inRanges_eq_false {as bs : List (Nat × Nat)} (h : Apart as bs) {n : Nat}
    (hn : inRanges as n = true) : inRanges bs n = false := by
  obtain ⟨a, ha, hle, hge⟩ := inRanges_iff.1 hn
  rw [Bool.eq_false_iff]
  intro hbs
  obtain ⟨b, hb, hle', hge'⟩ := inRanges_iff.1 hbs
  have := h a ha b hb
  omega

theorem Within.inRanges {as bs : List (Nat × Nat)} (h : Within as bs) {n : Nat}
    (hn : inRanges as n = true) : inRanges bs n = true := by
  obtain ⟨a, ha, hle, hge⟩ := inRanges_iff.1 hn
  obtain ⟨b, hb, hle', hge'⟩ := h a ha
  exact inRanges_iff.2 ⟨b, hb, by omega, by omega⟩

/-! ## Characters with columns of their own -/

/-- The controls. -/
def controlRanges : List (Nat × Nat) := [(0x0, 0x1F), (0x7F, 0x9F)]

/-- The characters that take no column on their own. -/
def emptyRanges : List (Nat × Nat) :=
  controlRanges ++ attachedLow ++ attachedAstral ++ widthlessRanges

/-- Stretches without such characters, in which pictures, signs and the letters of ligatures
stand. -/
def solidRanges : List (Nat × Nat) := [
  (0x20, 0x7E), (0xA0, 0xAC), (0xAE, 0x2FF), (0x5C8, 0x604), (0x61D, 0x64A), (0x671, 0x6D5),
  (0x74B, 0x7A5), (0x8A0, 0x8C9), (0x193C, 0x1A16), (0x202F, 0x205F), (0x20F1, 0x2CEE),
  (0x2CF2, 0x2D7E), (0x3030, 0x3098), (0x3165, 0xA66E), (0x10AE7, 0x10D23), (0x16B37, 0x16F4E),
  (0x1E94B, 0xDFFFF)]

theorem apart_solidRanges : Apart solidRanges emptyRanges := by
  decide +kernel

theorem isControl_eq (c : Char) : isControl c = inRanges controlRanges c.toNat := by
  rw [Bool.eq_iff_iff]
  simp only [isControl, controlRanges, inRanges, List.any_cons, List.any_nil, Bool.or_eq_true,
    Bool.and_eq_true, decide_eq_true_eq, Bool.or_false]
  omega

theorem inRanges_of_isAttached {c : Char} (h : isAttached c = true) :
    inRanges attachedLow c.toNat = true ∨ inRanges attachedAstral c.toNat = true := by
  simp only [isAttached] at h
  split at h
  · cases h
  · split at h
    · exact Or.inl h
    · exact Or.inr h

variable {c : Char}

theorem not_empty_of_solid (h : inRanges solidRanges c.toNat = true) :
    isControl c = false ∧ isAttached c = false ∧ inRanges widthlessRanges c.toNat = false := by
  have hempty := apart_solidRanges.inRanges_eq_false h
  simp only [emptyRanges, inRanges_append, Bool.or_eq_false_iff] at hempty
  obtain ⟨⟨⟨hcontrol, hlow⟩, hastral⟩, hwidthless⟩ := hempty
  refine ⟨(isControl_eq c).trans hcontrol, Bool.eq_false_iff.2 fun hattached => ?_, hwidthless⟩
  rcases inRanges_of_isAttached hattached with hin | hin
  · exact Bool.false_ne_true (hlow.symm.trans hin)
  · exact Bool.false_ne_true (hastral.symm.trans hin)

theorem one_le_charWidth (h : inRanges solidRanges c.toNat = true) : 1 ≤ charWidth c := by
  obtain ⟨hcontrol, hattached, hwidthless⟩ := not_empty_of_solid h
  simp only [charWidth, hcontrol, hattached, hwidthless, Bool.or_self, Bool.false_eq_true,
    if_false]
  repeat' split
  all_goals decide

theorem two_le_charWidth (h : inRanges solidRanges c.toNat = true)
    (hwide : inRanges wideRanges c.toNat = true) : 2 ≤ charWidth c := by
  obtain ⟨hcontrol, hattached, hwidthless⟩ := not_empty_of_solid h
  have hle : 0x1100 ≤ c.toNat := by
    have hall : ∀ r ∈ wideRanges, 0x1100 ≤ r.1 := by decide +kernel
    obtain ⟨r, hr, hbound, -⟩ := inRanges_iff.1 hwide
    exact Nat.le_trans (hall r hr) hbound
  -- the one narrow letter among the exceptions is an attached character
  have hjoiner : c ≠ '\u2d7f' := by
    rintro rfl
    exact absurd hattached (by decide +kernel)
  simp only [charWidth, hcontrol, hattached, hwidthless, hwide, Bool.or_self, Bool.false_eq_true,
    if_false, if_true, beq_eq_false_iff_ne.2 hjoiner]
  repeat' split
  all_goals omega

theorem two_le_charWidth_of_isPicture (h : isPicture c = true) : 2 ≤ charWidth c := by
  have hc := (Bool.and_eq_true_iff.1 h).2
  exact two_le_charWidth ((by decide +kernel : Within pictureRanges solidRanges).inRanges hc)
    ((by decide +kernel : Within pictureRanges wideRanges).inRanges hc)

/-- A range of codes in one of the stretches. -/
theorem solid_of_bounds (lo hi : Nat) (hwithin : Within [(lo, hi)] solidRanges)
    (hlo : lo ≤ c.toNat) (hhi : c.toNat ≤ hi) : inRanges solidRanges c.toNat = true :=
  hwithin.inRanges (inRanges_iff.2 ⟨(lo, hi), List.mem_singleton_self _, hlo, hhi⟩)

theorem two_le_charWidth_of_isModifier (h : isModifier c = true) : 2 ≤ charWidth c := by
  obtain ⟨hlo, hhi⟩ : 0x1F3FB ≤ c.toNat ∧ c.toNat ≤ 0x1F3FF := by simpa [isModifier] using h
  refine two_le_charWidth (solid_of_bounds 0x1F3FB 0x1F3FF (by decide) hlo hhi) ?_
  exact (by decide +kernel : Within [(0x1F3FB, 0x1F3FF)] wideRanges).inRanges
    (inRanges_iff.2 ⟨_, List.mem_singleton_self _, hlo, hhi⟩)

theorem one_le_charWidth_of_isFlagHalf (h : isFlagHalf c = true) : 1 ≤ charWidth c := by
  obtain ⟨hlo, hhi⟩ : 0x1F1E6 ≤ c.toNat ∧ c.toNat ≤ 0x1F1FF := by simpa [isFlagHalf] using h
  exact one_le_charWidth (solid_of_bounds 0x1F1E6 0x1F1FF (by decide) hlo hhi)

theorem one_le_charWidth_of_isSign (h : isSign c = true) : 1 ≤ charWidth c := by
  refine one_le_charWidth ?_
  simp only [isSign, Bool.or_eq_true, Bool.and_eq_true, beq_iff_eq] at h
  rcases h with ((rfl | rfl) | hdigit) | ⟨-, hc⟩
  · decide
  · decide
  · obtain ⟨hlo, hhi⟩ : '0' ≤ c ∧ c ≤ '9' := by simpa [Char.isDigit, Char.le_def] using hdigit
    exact solid_of_bounds '0'.toNat '9'.toNat (by decide) hlo hhi
  · exact (by decide +kernel : Within signRanges solidRanges).inRanges hc

theorem one_le_charWidth_of_isTextual (h : inRanges textualRanges c.toNat = true) :
    1 ≤ charWidth c :=
  one_le_charWidth ((by decide +kernel : Within textualRanges solidRanges).inRanges h)

/-- What a ligature begins with takes as many columns on its own as the whole. -/
theorem Ligature.width_le_of_first {l : Ligature} (hl : l ∈ ligatures) (h : l.first c = true) :
    l.width ≤ charWidth c := by
  simp only [ligatures, List.mem_cons, List.not_mem_nil, or_false] at hl
  -- in the order of the table, the sign of Khmer as the third: it takes no column in either way
  rcases hl with rfl | rfl | rfl | rfl | rfl | rfl | rfl | rfl | rfl
  · have hc : isLam c = true := h
    exact one_le_charWidth ((by decide : Within _ solidRanges).inRanges hc)
  · obtain rfl := beq_iff_eq.1 h
    exact one_le_charWidth (by decide)
  · exact Nat.zero_le _
  · obtain rfl := beq_iff_eq.1 h
    exact one_le_charWidth (by decide)
  · obtain ⟨hlo, hhi⟩ : '\ua4f8' ≤ c ∧ c ≤ '\ua4fb' := by simpa using h
    exact one_le_charWidth (solid_of_bounds '\ua4f8'.toNat '\ua4fb'.toNat (by decide) hlo hhi)
  · have hc : isTifinagh c = true := h
    exact one_le_charWidth ((by decide : Within _ solidRanges).inRanges hc)
  · have hc : c.toNat = 0x10C32 := beq_iff_eq.1 h
    exact one_le_charWidth (hc ▸ by decide)
  · exact one_le_charWidth ((by decide : Within _ solidRanges).inRanges h)
  · have hc : c.toNat = 0x16D63 := beq_iff_eq.1 h
    exact one_le_charWidth (hc ▸ by decide)

/-! ## Characters that swell -/

/-- Whether a character takes a column more in front of a text than on its own: a control does,
and a sign of one column that is made a picture. -/
def swells (c : Char) (rest : List Char) : Bool :=
  isControl c || (isSign c && charWidth c < 2 && rest.head? == some '\ufe0f')

/-- How many characters of a text swell. -/
def swellings : List Char → Nat
  | [] => 0
  | c :: rest => (swells c rest).toNat + swellings rest

/-- Nothing swells in a text without controls and without the selector that makes pictures. -/
theorem swellings_eq_zero {cs : List Char} (hcontrol : ∀ c ∈ cs, isControl c = false)
    (hselector : '\ufe0f' ∉ cs) : swellings cs = 0 := by
  induction cs with
  | nil => rfl
  | cons c rest ih =>
    obtain ⟨hc, hrest⟩ := List.forall_mem_cons.1 hcontrol
    rw [List.mem_cons, not_or] at hselector
    have hhead : rest.head? ≠ some '\ufe0f' := fun h => hselector.2 (List.mem_of_head? h)
    rw [swellings, ih hrest hselector.2, swells, hc, beq_eq_false_iff_ne.2 hhead, Bool.and_false]
    rfl

/-- The columns of the characters of a text, each on its own, and one for each that swells. -/
def reach (cs : List Char) : Nat :=
  total charWidth cs + swellings cs

theorem reach_cons (c : Char) (rest : List Char) :
    reach (c :: rest) = charWidth c + (swells c rest).toNat + reach rest := by
  simp only [reach, swellings, Sequence.total_cons]
  omega

theorem reach_le_cons (c : Char) (rest : List Char) : reach rest ≤ reach (c :: rest) := by
  rw [reach_cons]
  exact Nat.le_add_left _ _

theorem reach_le_of_suffix {more cs : List Char} (h : more <:+ cs) : reach more ≤ reach cs := by
  obtain ⟨before, rfl⟩ := h
  induction before with
  | nil => exact Nat.le_refl _
  | cons c before ih => exact Nat.le_trans ih (reach_le_cons c _)

/-! ## What is drawn first -/

/-- The elements: a modified picture, a picture or sign with the selector, a flag, and a picture
alone. -/
theorem cases_of_afterElement? {cs more : List Char} (h : afterElement? cs = some more) :
    (∃ a b, cs = a :: b :: more ∧ isModifier b = true) ∨
      (∃ a, cs = a :: '\ufe0f' :: more ∧ (isPicture a = true ∨ isSign a = true)) ∨
      (∃ a b, cs = a :: b :: more ∧ isFlagHalf a = true ∧ isFlagHalf b = true) ∨
      ∃ a, cs = a :: more ∧ isPicture a = true := by
  unfold afterElement? at h
  split at h
  · rename_i a b rest
    simp only [Bool.and_eq_true, Bool.or_eq_true, beq_iff_eq] at h
    split at h
    · rename_i hmodified
      cases h
      exact Or.inl ⟨a, b, rfl, hmodified.1⟩
    split at h
    · rename_i hselected
      cases h
      obtain ⟨rfl, ha⟩ := hselected
      exact Or.inr (Or.inl ⟨a, rfl, ha⟩)
    split at h
    · rename_i hflag
      cases h
      exact Or.inr (Or.inr (Or.inl ⟨a, b, rfl, hflag⟩))
    split at h
    · rename_i halone
      cases h
      exact Or.inr (Or.inr (Or.inr ⟨a, rfl, halone.1⟩))
    · cases h
  · rename_i a
    split at h
    · rename_i ha
      cases h
      exact Or.inr (Or.inr (Or.inr ⟨a, rfl, ha⟩))
    · cases h
  · cases h

theorem afterElement?_suffix {cs more : List Char} (h : afterElement? cs = some more) :
    more <:+ cs := by
  rcases cases_of_afterElement? h with ⟨a, b, rfl, -⟩ | ⟨a, rfl, -⟩ | ⟨a, b, rfl, -⟩ | ⟨a, rfl, -⟩
  · exact List.suffix_append [a, b] more
  · exact List.suffix_append [a, '\ufe0f'] more
  · exact List.suffix_append [a, b] more
  · exact List.suffix_cons a more

/-- A picture has the columns of its first character, of its modifier, or of a sign that
swells. -/
theorem reach_of_afterElement? {cs more : List Char} (h : afterElement? cs = some more) :
    2 + reach more ≤ reach cs := by
  rcases cases_of_afterElement? h with
    ⟨a, b, rfl, hb⟩ | ⟨a, rfl, ha | ha⟩ | ⟨a, b, rfl, ha, hb⟩ | ⟨a, rfl, ha⟩
  · have hwidth := two_le_charWidth_of_isModifier hb
    simp only [reach_cons]
    omega
  · have hwidth := two_le_charWidth_of_isPicture ha
    simp only [reach_cons]
    omega
  · have hwidth := one_le_charWidth_of_isSign ha
    simp only [reach_cons, swells, ha, List.head?_cons, beq_self_eq_true, Bool.and_true,
      Bool.true_and]
    by_cases hnarrow : charWidth a < 2
    · simp only [hnarrow, decide_true, Bool.or_true, Bool.toNat_true]
      omega
    · omega
  · have hleft := one_le_charWidth_of_isFlagHalf ha
    have hright := one_le_charWidth_of_isFlagHalf hb
    simp only [reach_cons]
    omega
  · have hwidth := two_le_charWidth_of_isPicture ha
    rw [reach_cons]
    omega

theorem afterJoined_suffix (cs : List Char) : afterJoined cs <:+ cs := by
  fun_induction afterJoined cs with
  | case1 rest more h _ ih =>
    exact (ih.trans (afterElement?_suffix h)).trans (List.suffix_cons _ rest)
  | case2 => exact List.suffix_refl _
  | case3 => exact List.suffix_refl _
  | case4 => exact List.suffix_refl _

theorem Ligature.reach_of_after? {l : Ligature} (hl : l ∈ ligatures) {cs more : List Char}
    (h : l.after? cs = some more) : l.width + reach more ≤ reach cs := by
  unfold after? at h
  split at h
  · cases h
  · rename_i c rest
    split at h
    · rename_i hfirst
      split at h
      · rename_i d left hleft
        split at h
        · cases h
          have hsuffix : d :: more <:+ rest := hleft ▸ List.dropWhile_suffix _
          have hmore := reach_le_of_suffix ((List.suffix_cons d more).trans hsuffix)
          have hwidth := width_le_of_first hl hfirst.1
          rw [reach_cons]
          omega
        · cases h
      · cases h
    · cases h

theorem reach_of_ligature? {ls : List Ligature} (hls : ls ⊆ ligatures) {cs more : List Char}
    {w : Nat} (h : ligature? cs ls = some (w, more)) : w + reach more ≤ reach cs := by
  induction ls with
  | nil => cases h
  | cons l ls ih =>
    obtain ⟨hl, hls⟩ := List.cons_subset.1 hls
    rw [ligature?] at h
    split at h
    · rename_i hafter
      cases h
      exact l.reach_of_after? hl hafter
    · exact ih hls h

theorem unitWidth_add_reach_le (c : Char) (rest : List Char) :
    (unitWidth c rest).1 + reach (unitWidth c rest).2 ≤ reach (c :: rest) := by
  rw [reach_cons, unitWidth]
  split
  · rename_i hc
    simp only [swells, hc, Bool.true_or, Bool.toNat_true]
    omega
  split
  · rename_i htextual
    have hwidth := one_le_charWidth_of_isTextual htextual.1
    have hmore := reach_le_of_suffix (List.drop_suffix 1 rest)
    simp only
    omega
  · simp only
    omega

/-- **What is drawn first takes no more columns than the reach of its characters.** -/
theorem firstWidth_add_reach_le (c : Char) (rest : List Char) :
    (firstWidth c rest).1 + reach (firstWidth c rest).2 ≤ reach (c :: rest) := by
  rw [firstWidth]
  split
  · rename_i hbreak
    obtain ⟨rfl, -⟩ := hbreak
    have hmore := reach_le_of_suffix (List.drop_suffix 1 rest)
    rw [reach_cons]
    simp only [swells, (by decide : isControl '\r' = true), Bool.true_or, Bool.toNat_true]
    omega
  split
  · rename_i more hmore
    have hpicture := reach_of_afterElement? hmore
    have hjoined := reach_le_of_suffix (afterJoined_suffix more)
    simp only
    omega
  split
  · rename_i w more hmore
    exact reach_of_ligature? (List.Subset.refl _) hmore
  · exact unitWidth_add_reach_le c rest

/-- **A text takes at most the columns of its characters and one for each that swells.** -/
theorem width_le_reach (cs : List Char) : width cs ≤ reach cs := by
  fun_induction width cs with
  | case1 => exact Nat.zero_le _
  | case2 c rest _ ih =>
    exact Nat.le_trans (Nat.add_le_add_left ih _) (firstWidth_add_reach_le c rest)

/-! ## Characters that begin nothing -/

variable {cs rest : List Char}

/-- Whether the character is drawn alone, whatever follows it; a carriage return before a line
feed apart. -/
def beginsNothing (c : Char) : Bool :=
  !(isPicture c || isSign c || isFlagHalf c || inRanges modifiableRanges c.toNat ||
    inRanges textualRanges c.toNat || ligatures.any (·.first c))

theorem beginsNothing_of_isControl (h : isControl c = true) : beginsNothing c = true := by
  have hall : ∀ n < 0xA0, isControl (Char.ofNat n) = true →
      beginsNothing (Char.ofNat n) = true := by
    decide +kernel
  have hbound : c.toNat < 0xA0 := by
    simp only [isControl, Bool.or_eq_true, Bool.and_eq_true, decide_eq_true_eq] at h
    omega
  have hc := hall c.toNat hbound
  rw [Char.ofNat_toNat] at hc
  exact hc h

theorem ligature?_eq_none {ls : List Ligature} (h : ls.any (·.first c) = false) :
    ligature? (c :: rest) ls = none := by
  induction ls with
  | nil => rfl
  | cons l ls ih =>
    rw [List.any_cons, Bool.or_eq_false_iff] at h
    have hl : l.after? (c :: rest) = none := by
      rw [Ligature.after?, if_neg]
      rintro ⟨hfirst, -⟩
      exact Bool.false_ne_true (h.1.symm.trans hfirst)
    rw [ligature?, hl]
    exact ih h.2

theorem afterElement?_eq_none (h : beginsNothing c = true) (rest : List Char) :
    afterElement? (c :: rest) = none := by
  simp only [beginsNothing, Bool.not_eq_true', Bool.or_eq_false_iff] at h
  obtain ⟨⟨⟨⟨⟨hpicture, hsign⟩, hflag⟩, hmodifiable⟩, -⟩, -⟩ := h
  cases rest <;> simp [afterElement?, hpicture, hsign, hflag, hmodifiable]

theorem firstWidth_of_beginsNothing (h : beginsNothing c = true)
    (hbreak : ¬ (c = '\r' ∧ rest.head? = some '\n')) :
    firstWidth c rest = (if isControl c then 1 else charWidth c, rest) := by
  rw [firstWidth, if_neg hbreak, afterElement?_eq_none h]
  simp only [beginsNothing, Bool.not_eq_true', Bool.or_eq_false_iff] at h
  simp only [ligature?_eq_none h.2]
  rw [unitWidth]
  split
  · rfl
  · rw [if_neg (by simp [h.1.2])]

theorem beginsNothing_dot : beginsNothing '.' = true := by
  decide +kernel

/-- A dot takes one column, whatever follows. -/
theorem width_dot (ds : List Char) : width ('.' :: ds) = 1 + width ds := by
  rw [width, firstWidth_of_beginsNothing beginsNothing_dot (fun h => absurd h.1 (by decide))]
  rfl

/-! ## What stands before a dot -/

/-- What does not belong to a stretch ends it. -/
theorem takeWhile_append_stop {p : Char → Bool} {d : Char} (h : p d = false) (cs ds : List Char) :
    (cs ++ d :: ds).takeWhile p = cs.takeWhile p := by
  induction cs with
  | nil => simp [h]
  | cons c cs ih => rw [List.cons_append, List.takeWhile_cons, List.takeWhile_cons, ih]

theorem dropWhile_append_stop {p : Char → Bool} {d : Char} (h : p d = false) (cs ds : List Char) :
    (cs ++ d :: ds).dropWhile p = cs.dropWhile p ++ d :: ds := by
  induction cs with
  | nil => simp [h]
  | cons c cs ih =>
    rw [List.cons_append, List.dropWhile_cons, List.dropWhile_cons, ih]
    split <;> rfl

/-- A dot neither belongs to an element nor keeps what is before it from being one. -/
theorem afterElement?_append_dot (hne : cs ≠ []) (ds : List Char) :
    afterElement? (cs ++ '.' :: ds) = (afterElement? cs).map (· ++ '.' :: ds) := by
  match cs with
  | [a] =>
    have hdot : isModifier '.' = false ∧ isFlagHalf '.' = false := by decide
    cases hpicture : isPicture a <;> simp [afterElement?, hdot, hpicture]
  | a :: b :: rest =>
    simp only [List.cons_append, afterElement?]
    repeat' split
    all_goals rfl

theorem afterJoined_joiner_of_some {more : List Char} (h : afterElement? cs = some more) :
    afterJoined (joiner :: cs) = afterJoined more := by
  rw [afterJoined, if_pos rfl]
  split
  · rename_i more' hmore
    exact congrArg afterJoined (Option.some.inj (hmore.symm.trans h))
  · rename_i hnone
    rw [hnone] at h
    cases h

theorem afterJoined_joiner_of_none (h : afterElement? cs = none) :
    afterJoined (joiner :: cs) = joiner :: cs := by
  rw [afterJoined, if_pos rfl]
  split
  · rename_i more hmore
    rw [hmore] at h
    cases h
  · rfl

theorem afterJoined_of_ne (h : c ≠ joiner) (cs : List Char) : afterJoined (c :: cs) = c :: cs := by
  rw [afterJoined, if_neg h]

theorem afterJoined_append_dot (cs ds : List Char) :
    afterJoined (cs ++ '.' :: ds) = afterJoined cs ++ '.' :: ds := by
  have hdot (ds : List Char) : afterElement? ('.' :: ds) = none :=
    afterElement?_eq_none beginsNothing_dot ds
  fun_induction afterJoined cs with
  | case1 rest more h _ ih =>
    have hne : rest ≠ [] := by
      rintro rfl
      cases h
    have hmore := afterElement?_append_dot hne ds
    rw [h] at hmore
    exact (afterJoined_joiner_of_some hmore).trans ih
  | case2 rest h =>
    cases rest with
    | nil => exact afterJoined_joiner_of_none (hdot ds)
    | cons a rest =>
      have hnone := afterElement?_append_dot (List.cons_ne_nil a rest) ds
      rw [h] at hnone
      exact afterJoined_joiner_of_none hnone
  | case3 c rest h => exact afterJoined_of_ne h _
  | case4 => exact afterJoined_of_ne (by decide) ds

theorem Ligature.after?_append_dot {l : Ligature} (hinner : l.inner '.' = false)
    (hlast : l.last '.' = false) (c : Char) (rest ds : List Char) :
    l.after? (c :: rest ++ '.' :: ds) = (l.after? (c :: rest)).map (· ++ '.' :: ds) := by
  rw [List.cons_append, after?, after?, takeWhile_append_stop hinner,
    dropWhile_append_stop hinner]
  split
  · cases rest.dropWhile l.inner with
    | nil => simp [hlast]
    | cons d more =>
      simp only [List.cons_append]
      split <;> rfl
  · rfl

/-- A dot is no part of a ligature, inside or at its end. -/
theorem ligature?_append_dot {ls : List Ligature}
    (hls : ∀ l ∈ ls, l.inner '.' = false ∧ l.last '.' = false) (c : Char) (rest ds : List Char) :
    ligature? (c :: rest ++ '.' :: ds) ls =
      (ligature? (c :: rest) ls).map fun (w, more) => (w, more ++ '.' :: ds) := by
  induction ls with
  | nil => rfl
  | cons l ls ih =>
    obtain ⟨hl, hls⟩ := List.forall_mem_cons.1 hls
    rw [ligature?, ligature?, l.after?_append_dot hl.1 hl.2]
    cases l.after? (c :: rest) with
    | some more => rfl
    | none => exact ih hls

theorem unitWidth_append_dot (c : Char) (rest ds : List Char) :
    unitWidth c (rest ++ '.' :: ds) =
      ((unitWidth c rest).1, (unitWidth c rest).2 ++ '.' :: ds) := by
  have hdot : '.' ≠ '\ufe0e' := by decide
  cases rest with
  | nil =>
    simp only [unitWidth, List.nil_append, List.head?_cons, List.head?_nil, Option.some.injEq, hdot,
      reduceCtorEq, and_false, if_false]
    split <;> rfl
  | cons d rest =>
    simp only [unitWidth, List.cons_append, List.head?_cons, List.drop_one, List.tail_cons]
    repeat' split
    all_goals rfl

theorem firstWidth_append_dot (c : Char) (rest ds : List Char) :
    firstWidth c (rest ++ '.' :: ds) =
      ((firstWidth c rest).1, (firstWidth c rest).2 ++ '.' :: ds) := by
  have hhead : (rest ++ '.' :: ds).head? = some '\n' ↔ rest.head? = some '\n' := by
    cases rest <;> simp
  simp only [firstWidth, hhead]
  split
  · rename_i hbreak
    obtain ⟨rest, rfl⟩ := List.head?_eq_some_iff.1 hbreak.2
    rfl
  have helement := afterElement?_append_dot (List.cons_ne_nil c rest) ds
  rw [List.cons_append] at helement
  rw [helement]
  cases afterElement? (c :: rest) with
  | some more => simp only [Option.map_some, afterJoined_append_dot]
  | none =>
    have hapart : ∀ l ∈ ligatures, l.inner '.' = false ∧ l.last '.' = false := by decide
    have hligature := ligature?_append_dot hapart c rest ds
    rw [List.cons_append] at hligature
    simp only [Option.map_none, hligature]
    cases ligature? (c :: rest) ligatures with
    | some drawn => rfl
    | none => exact unitWidth_append_dot c rest ds

/-- **What stands before a dot is drawn as if it were the whole text.** -/
theorem width_append_dot (cs ds : List Char) :
    width (cs ++ '.' :: ds) = width cs + width ('.' :: ds) := by
  fun_induction width cs with
  | case1 => simp
  | case2 c rest _ ih =>
    rw [List.cons_append, width, firstWidth_append_dot, ih, Nat.add_assoc]

/-- The dots behind a text take three columns. -/
theorem width_append_dots (cs : List Char) : width (cs ++ dots) = width cs + 3 := by
  rw [dots, width_append_dot, width_dot, width_dot, width_dot, width]

end Terminal
end Text
end Linguist
