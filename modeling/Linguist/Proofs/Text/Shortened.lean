import Linguist.Command.Overview
import Linguist.Proofs.Text.Width

/-!
# Texts that are cut

A text that is wider than a column allows is cut, and three dots are put behind what is kept of
it.  What is kept is the longest beginning whose characters, each on its own, leave room for the
dots (`prefix_kept_iff`).

Of the terminal one thing is asked: the dots are drawn on their own whatever stands before them, so
that the cut text takes three columns more than what is kept.  The measure that reports are cut
with where no other is given has this property (`Terminal.width_append_dots`).

## Where the cut comes too late

Whether a text is cut is decided by its width as a text, and where by the widths of its
characters.  So a shortened text fits if and only if the text itself does or what is kept takes,
as a text, no more than the room; and it is too wide by at most what the kept text takes more than
its characters do (`shortened_fits_iff`).  A text that is wider than its characters need not be cut
at all, and then it only becomes longer (`shortened_of_total_le`).

On the terminal that is described in `Text.Width` two kinds of characters are held back too little.
A control takes no room in the cut, so a text of controls is never cut, however long it is
(`Terminal.shortened_controls`), and pictures made from signs take half of the room that they need
(`Terminal.shortened_pictures`).  A text without either fits (`Terminal.width_shortened_le`).
-/

namespace Linguist
namespace Text

open Sequence (total)

variable {c : Char} {cs : List Char} {s : String}

/-! ## One line -/

theorem onOneLine_of_notMem (h : '\n' ∉ cs) : (onOneLine (String.ofList cs)).toList = cs := by
  rw [onOneLine, String.toList_ofList, String.toList_ofList]
  induction cs with
  | nil => rfl
  | cons c cs ih =>
    rw [List.mem_cons, not_or] at h
    rw [List.flatMap_cons, ih h.2, if_neg (by simpa using Ne.symm h.1)]
    rfl

theorem mem_onOneLine (h : c ∈ (onOneLine s).toList) :
    c = '\\' ∨ c = 'n' ∨ c ∈ s.toList ∧ c ≠ '\n' := by
  rw [onOneLine, String.toList_ofList, List.mem_flatMap] at h
  obtain ⟨d, hd, hc⟩ := h
  split at hc
  · rcases List.mem_pair.1 hc with rfl | rfl
    · exact Or.inl rfl
    · exact Or.inr (Or.inl rfl)
  · rename_i hne
    obtain rfl := List.mem_singleton.1 hc
    exact Or.inr (Or.inr ⟨hd, by simpa using hne⟩)

section

open Linguist.Text.Measure

variable [Measure] {columns : Nat}

/-! ## What is kept -/

/-- The beginnings of what is clipped are those of the text whose characters take no more columns
than there is room. -/
theorem prefix_clip_iff {room : Nat} {p : List Char} :
    p <+: clip room cs ↔ p <+: cs ∧ total charWidth p ≤ room := by
  induction cs generalizing room p with
  | nil =>
    rw [clip, List.prefix_nil]
    constructor
    · rintro rfl
      exact ⟨rfl, Nat.zero_le _⟩
    · exact And.left
  | cons c cs ih =>
    cases p with
    | nil => simp
    | cons d p =>
      rw [clip, List.cons_prefix_cons, Sequence.total_cons]
      split
      · refine iff_of_false (by simp) ?_
        rintro ⟨⟨rfl, -⟩, hroom⟩
        omega
      · rw [List.cons_prefix_cons, ih]
        constructor
        · rintro ⟨rfl, hp, hroom⟩
          exact ⟨⟨rfl, hp⟩, by omega⟩
        · rintro ⟨⟨rfl, hp⟩, hroom⟩
          exact ⟨rfl, hp, by omega⟩

/-- What is kept of a text that is cut. -/
def kept (columns : Nat) (s : String) : List Char :=
  clip (columns - 3) (onOneLine s).toList

/-- What is kept is the longest beginning whose characters, each on its own, leave room for the
dots. -/
theorem prefix_kept_iff {p : List Char} :
    p <+: kept columns s ↔ p <+: (onOneLine s).toList ∧ total charWidth p ≤ columns - 3 :=
  prefix_clip_iff

theorem kept_eq_self (h : total charWidth (onOneLine s).toList ≤ columns - 3) :
    kept columns s = (onOneLine s).toList :=
  (prefix_kept_iff.1 List.prefix_rfl).1.eq_of_length_le
    (prefix_kept_iff.2 ⟨List.prefix_rfl, h⟩).length_le

theorem shortened_of_le (h : width (onOneLine s).toList ≤ columns) :
    shortened columns s = onOneLine s := by
  rw [shortened, if_pos h, String.ofList_toList]

theorem toList_shortened_of_lt (h : columns < width (onOneLine s).toList) :
    (shortened columns s).toList = kept columns s ++ dots := by
  rw [shortened, if_neg (Nat.not_le.2 h), String.toList_ofList, kept]

theorem width_shortened_of_lt (hdots : ∀ cs, width (cs ++ dots) = width cs + 3)
    (h : columns < width (onOneLine s).toList) :
    width (shortened columns s).toList = width (kept columns s) + 3 := by
  rw [toList_shortened_of_lt h, hdots]

/-- **A text whose characters leave room for the dots is not cut,** even if it is too wide: it
becomes longer by the dots. -/
theorem shortened_of_total_le (hdots : ∀ cs, width (cs ++ dots) = width cs + 3)
    (hfeed : '\n' ∉ cs) (hlong : columns < width cs) (hroom : total charWidth cs ≤ columns - 3) :
    (shortened columns (String.ofList cs)).toList = cs ++ dots ∧
      width (shortened columns (String.ofList cs)).toList = width cs + 3 := by
  have hline := onOneLine_of_notMem hfeed
  have hkept : kept columns (String.ofList cs) = cs := by
    rw [kept_eq_self (by rwa [hline]), hline]
  constructor
  · rw [toList_shortened_of_lt (by rwa [hline]), hkept]
  · rw [width_shortened_of_lt hdots (by rwa [hline]), hkept]

end

/-! ## On the terminal -/

namespace Terminal

variable {signs : List Char} {columns : Nat}

/-- On its own, what has no width takes no column. -/
theorem charWidth_measure : Measure.charWidth = charWidth := by
  funext c
  show (if isControl c then none else some (charWidth c)).getD 0 = charWidth c
  split
  · rename_i hc
    rw [charWidth, if_pos hc]
    rfl
  · rfl

theorem total_of_controls (h : ∀ c ∈ cs, isControl c = true) : total charWidth cs = 0 := by
  induction cs with
  | nil => rfl
  | cons c cs ih =>
    obtain ⟨hc, hcs⟩ := List.forall_mem_cons.1 h
    rw [Sequence.total_cons, charWidth, if_pos hc, ih hcs]

theorem width_of_controls (h : ∀ c ∈ cs, isControl c = true) (hfeed : '\n' ∉ cs) :
    width cs = cs.length := by
  induction cs with
  | nil => rw [width]; rfl
  | cons c cs ih =>
    obtain ⟨hc, hcs⟩ := List.forall_mem_cons.1 h
    rw [List.mem_cons, not_or] at hfeed
    have hbreak : ¬ (c = '\r' ∧ cs.head? = some '\n') :=
      fun hb => hfeed.2 (List.mem_of_head? hb.2)
    rw [width, firstWidth_of_beginsNothing (beginsNothing_of_isControl hc) hbreak, if_pos hc,
      ih hcs hfeed.2, List.length_cons, Nat.add_comm]

/-- **A text of controls is never cut,** however long it is. -/
theorem shortened_controls (h : ∀ c ∈ cs, isControl c = true) (hfeed : '\n' ∉ cs)
    (hlong : columns < cs.length) :
    (shortened columns (String.ofList cs)).toList = cs ++ dots ∧
      Measure.width (shortened columns (String.ofList cs)).toList = cs.length + 3 := by
  have hwidth : Measure.width cs = cs.length := width_of_controls h hfeed
  have hroom : total Measure.charWidth cs ≤ columns - 3 := by
    rw [charWidth_measure, total_of_controls h]
    exact Nat.zero_le _
  rw [← hwidth] at hlong ⊢
  exact shortened_of_total_le width_append_dots hfeed hlong hroom

/-- The signs, each made a picture. -/
def pictured (signs : List Char) : List Char :=
  signs.flatMap fun a => [a, '\ufe0f']

theorem total_pictured (h : ∀ a ∈ signs, charWidth a = 1) :
    total charWidth (pictured signs) = signs.length := by
  induction signs with
  | nil => rfl
  | cons a signs ih =>
    obtain ⟨ha, hsigns⟩ := List.forall_mem_cons.1 h
    have hselector : charWidth '\ufe0f' = 0 := by decide +kernel
    have hrest := ih hsigns
    rw [pictured] at hrest
    rw [pictured, List.flatMap_cons, Sequence.total_append, hrest]
    simp only [Sequence.total_cons, Sequence.total_nil, ha, hselector, List.length_cons]
    omega

theorem firstWidth_of_isSign {a : Char} (h : isSign a = true) (rest : List Char) :
    firstWidth a ('\ufe0f' :: rest) = (2, afterJoined rest) := by
  have hselector : isModifier '\ufe0f' = false := by decide
  simp [firstWidth, afterElement?, hselector, h]

theorem afterJoined_pictured (h : ∀ a ∈ signs, isSign a = true) :
    afterJoined (pictured signs) = pictured signs := by
  cases signs with
  | nil => rw [pictured, List.flatMap_nil, afterJoined]
  | cons a signs =>
    refine afterJoined_of_ne ?_ _
    rintro rfl
    exact absurd (h joiner List.mem_cons_self) (by decide +kernel)

theorem width_pictured (h : ∀ a ∈ signs, isSign a = true) :
    width (pictured signs) = 2 * signs.length := by
  induction signs with
  | nil => rw [pictured, List.flatMap_nil, width]; rfl
  | cons a signs ih =>
    obtain ⟨ha, hsigns⟩ := List.forall_mem_cons.1 h
    have hcons : pictured (a :: signs) = a :: '\ufe0f' :: pictured signs := rfl
    rw [hcons, width, firstWidth_of_isSign ha, afterJoined_pictured hsigns, ih hsigns,
      List.length_cons, Nat.mul_succ, Nat.add_comm]

/-- **Pictures made from signs are not cut** as long as the signs alone leave room for the dots,
although they take twice as much. -/
theorem shortened_pictures (h : ∀ a ∈ signs, isSign a = true ∧ charWidth a = 1)
    (hlong : columns < 2 * signs.length) (hroom : signs.length ≤ columns - 3) :
    (shortened columns (String.ofList (pictured signs))).toList = pictured signs ++ dots ∧
      Measure.width (shortened columns (String.ofList (pictured signs))).toList =
        2 * signs.length + 3 := by
  have hwidth : Measure.width (pictured signs) = 2 * signs.length :=
    width_pictured fun a ha => (h a ha).1
  have hfeed : '\n' ∉ pictured signs := by
    intro hmem
    obtain ⟨a, ha, hin⟩ := List.mem_flatMap.1 hmem
    have hsign := (h a ha).1
    rcases List.mem_pair.1 hin with rfl | heq
    · exact absurd hsign (by decide)
    · exact absurd heq (by decide)
  have htotal : total Measure.charWidth (pictured signs) = signs.length := by
    rw [charWidth_measure, total_pictured fun a ha => (h a ha).2]
  rw [← hwidth] at hlong ⊢
  exact shortened_of_total_le width_append_dots hfeed hlong (htotal ▸ hroom)

/-- What is kept is too wide by no more than the characters in it that swell. -/
theorem width_kept_le (columns : Nat) (s : String) :
    width (kept columns s) ≤ columns - 3 + swellings (kept columns s) := by
  have hroom : total Measure.charWidth (kept columns s) ≤ columns - 3 :=
    (prefix_kept_iff.1 List.prefix_rfl).2
  rw [charWidth_measure] at hroom
  exact Nat.le_trans (width_le_reach _) (Nat.add_le_add_right hroom _)

/-- **A shortened text fits if it has neither controls nor pictures made from signs;** line feeds
do no harm, since they are written as two letters. -/
theorem width_shortened_le (hcolumns : 3 ≤ columns)
    (hcontrol : ∀ c ∈ s.toList, c ≠ '\n' → isControl c = false)
    (hselector : '\ufe0f' ∉ s.toList) : Measure.width (shortened columns s).toList ≤ columns := by
  have hpart : ∀ c ∈ kept columns s, c = '\\' ∨ c = 'n' ∨ c ∈ s.toList ∧ c ≠ '\n' :=
    fun c hc => mem_onOneLine ((prefix_kept_iff.1 List.prefix_rfl).1.subset hc)
  have hswellings : swellings (kept columns s) = 0 := by
    refine swellings_eq_zero (fun c hc => ?_) fun hc => ?_
    · rcases hpart c hc with rfl | rfl | ⟨hmem, hne⟩
      · decide
      · decide
      · exact hcontrol c hmem hne
    · rcases hpart _ hc with heq | heq | ⟨hmem, -⟩
      · exact absurd heq (by decide)
      · exact absurd heq (by decide)
      · exact hselector hmem
  have hkept : Measure.width (kept columns s) ≤ columns - 3 + swellings (kept columns s) :=
    width_kept_le columns s
  by_cases h : Measure.width (onOneLine s).toList ≤ columns
  · rwa [shortened_of_le h]
  · rw [width_shortened_of_lt width_append_dots (Nat.not_le.1 h)]
    omega

end Terminal

/-! ## When a shortened text fits -/

open Linguist.Text.Measure in
/-- **A shortened text fits if and only if the text itself does, or what is kept of it leaves room
for the dots.**  What is kept is the longest beginning whose characters do so, each on its own, and
the shortened text is too wide by at most what the kept text takes more than its characters. -/
theorem shortened_fits_iff [Measure] (hdots : ∀ cs, width (cs ++ dots) = width cs + 3)
    (columns : Nat) (s : String) :
    (width (shortened columns s).toList ≤ columns ↔
      width (onOneLine s).toList ≤ columns ∨ width (kept columns s) + 3 ≤ columns) ∧
    (∀ p, p <+: kept columns s ↔
      p <+: (onOneLine s).toList ∧ total charWidth p ≤ columns - 3) ∧
    width (shortened columns s).toList ≤
      max columns 3 + (width (kept columns s) - total charWidth (kept columns s)) := by
  refine ⟨?_, fun p => prefix_kept_iff, ?_⟩
  · by_cases h : width (onOneLine s).toList ≤ columns
    · rw [shortened_of_le h]
      exact iff_of_true h (Or.inl h)
    · rw [width_shortened_of_lt hdots (Nat.not_le.1 h)]
      exact (or_iff_right h).symm
  · by_cases h : width (onOneLine s).toList ≤ columns
    · rw [shortened_of_le h]
      omega
    · rw [width_shortened_of_lt hdots (Nat.not_le.1 h)]
      have hroom : total charWidth (kept columns s) ≤ columns - 3 :=
        (prefix_kept_iff.1 List.prefix_rfl).2
      omega

/-- A text of wide characters. -/
def wideText : String :=
  String.ofList (List.replicate 30 '無')

/-- Thirty wide characters are cut so that they fit on the terminal. -/
theorem wideText_fits :
    (∀ cs, Measure.width (cs ++ dots) = Measure.width cs + 3) ∧
      Measure.width (onOneLine wideText).toList = 60 ∧
      Measure.width (shortened Command.Overview.columns wideText).toList ≤
        Command.Overview.columns := by
  have hkept : Measure.width (kept Command.Overview.columns wideText) + 3 ≤
      Command.Overview.columns := by
    decide +kernel
  obtain ⟨hfits, -, -⟩ :=
    shortened_fits_iff Terminal.width_append_dots Command.Overview.columns wideText
  exact ⟨Terminal.width_append_dots, by decide +kernel, hfits.2 (Or.inr hkept)⟩

/-- Sixty tabs and thirty hearts are too wide, and are not cut at all. -/
theorem tabs_and_hearts_overflow :
    Measure.width (shortened Command.Overview.columns
        (String.ofList (List.replicate 60 '\t'))).toList = 63 ∧
      Measure.width (shortened Command.Overview.columns
        (String.ofList (Terminal.pictured (List.replicate 30 '❤')))).toList = 63 ∧
      ¬ ∀ s : String, Measure.width (shortened Command.Overview.columns s).toList ≤
        Command.Overview.columns := by
  have hcontrols : ∀ c ∈ List.replicate 60 '\t', Terminal.isControl c = true := fun c hc => by
    rw [List.eq_of_mem_replicate hc]
    decide
  have hfeed : '\n' ∉ List.replicate 60 '\t' := fun hmem =>
    absurd (List.eq_of_mem_replicate hmem) (by decide)
  have hsigns : ∀ a ∈ List.replicate 30 '❤', isSign a = true ∧ Terminal.charWidth a = 1 :=
    fun a ha => by
      rw [List.eq_of_mem_replicate ha]
      decide +kernel
  have htabs : Measure.width (shortened Command.Overview.columns
      (String.ofList (List.replicate 60 '\t'))).toList = 63 := by
    refine (Terminal.shortened_controls hcontrols hfeed ?_).2.trans ?_
    · rw [List.length_replicate]
      decide
    · rw [List.length_replicate]
  have hhearts : Measure.width (shortened Command.Overview.columns
      (String.ofList (Terminal.pictured (List.replicate 30 '❤')))).toList = 63 := by
    refine (Terminal.shortened_pictures hsigns ?_ ?_).2.trans ?_
    · rw [List.length_replicate]
      decide
    · rw [List.length_replicate]
      decide
    · rw [List.length_replicate]
  refine ⟨htabs, hhearts, fun hall => ?_⟩
  have hle := hall (String.ofList (List.replicate 60 '\t'))
  rw [htabs] at hle
  exact absurd hle (by decide)

end Text
end Linguist
