import Mathlib
import Linguist.Proofs.Catalogue.Survival

/-!
# What reading lets through

A file need not have been written by this library.  It may have its characters as
references, as literal text or by the legacy element of a character code, it may repeat
or lack elements, and it may be in any character set.  What is read from it is still a
catalogue that can be written, and nearly always one that survives
(`Catalogue.survives_of_ofFile`).

Of the two obstacles to survival the first comes from the texts: a file can smuggle in
U+0000, as itself in literal text or by its code, although it has no written form.  The
second is confined to one case.  The wording of an element is made to fit the plural mark
of its message when it is read (`Target.fits_ofElement`), but a message without an element
for its target keeps the target of a message nobody has worked on, an empty plain text,
even if it is plural.

The proofs follow the reader: each kind of node that a reader takes in keeps what is
claimed of its draft, and so does the walk along the nodes (`Markup.foldlM_keeps`).
-/

namespace Linguist

open Markup (Node Tag Ending exists_of_bind exists_of_map exists_of_visit IsContent)

namespace Markup

variable {σ α : Type}

/-- What every step keeps, a walk that is not refused keeps. -/
theorem foldlM_keeps {I : σ → Prop} {step : σ → α → Except Fault σ}
    (hstep : ∀ s a s', I s → step s a = .ok s' → I s') {as : List α} {s s' : σ} (hs : I s)
    (h : as.foldlM step s = .ok s') : I s' := by
  induction as generalizing s with
  | nil =>
    rw [← Except.ok.inj h]
    exact hs
  | cons a as ih =>
    rw [List.foldlM_cons] at h
    obtain ⟨t, ha, hrest⟩ := exists_of_bind h
    exact ih (hstep s a t hs ha) hrest

end Markup

open Markup (foldlM_keeps)

/-! ## Targets -/

namespace Target

variable {isPlural : Bool} {tag : Tag} {t : Target}

/-- Once a form has been seen there is one. -/
def Parts.Sound (p : Parts) : Prop :=
  p.forms? ≠ some []

theorem Parts.sound_addForm (p : Parts) (s : String) : (p.addForm s).Sound := by
  simp [Parts.addForm, Parts.Sound]

theorem Parts.Sound.of_addPart {p p' : Parts} {n : Node} (hp : p.Sound)
    (h : addPart p n = .ok p') : p'.Sound := by
  -- a node that is neither a form nor a length may add to the text only
  have htext : ∀ n, (Markup.addText p.text n).map (fun text => { p with text }) = .ok p' →
      p'.Sound := by
    intro n hn
    obtain ⟨_, _, rfl⟩ := exists_of_map hn
    exact hp
  cases n with
  | text raw => exact htext (.text raw) h
  | literal content => exact htext (.literal content) h
  | aside raw => exact htext (.aside raw) h
  | empty tag =>
    rw [addPart] at h
    split at h
    · rw [← Except.ok.inj h]
      exact p.sound_addForm _
    · split at h
      · rw [← Except.ok.inj h]
        exact hp
      · exact htext _ h
  | element tag children ending =>
    rw [addPart] at h
    split at h
    · obtain ⟨_, _, h⟩ := exists_of_bind h
      split at h
      · cases h
      · obtain ⟨s, _, h⟩ := exists_of_bind h
        rw [← Except.ok.inj h]
        exact p.sound_addForm s
    · split at h
      · obtain ⟨_, _, rfl⟩ := exists_of_map h
        exact hp
      · obtain ⟨_, _, rfl⟩ := exists_of_map h
        exact hp

/-- Sound parts make up a wording that fits. -/
theorem Parts.Sound.fits_wording {p : Parts} (hp : p.Sound) (isPlural hasLengths : Bool) :
    (p.wording isPlural hasLengths).Fits isPlural := by
  rw [Parts.wording]
  split
  · rename_i forms hforms
    exact Or.inr fun hnil => hp (hnil ▸ hforms)
  · split
    · trivial
    · split
      · rename_i hplural
        exact Or.inl hplural
      · rename_i hplural
        exact Bool.eq_false_iff.2 hplural

/-- **The wording of an element fits,** whatever the element contains. -/
theorem fits_ofElement {children : List Node} {ending : Ending}
    (h : ofElement isPlural tag children ending = .ok t) : t.wording.Fits isPlural := by
  obtain ⟨_, _, h⟩ := exists_of_bind h
  obtain ⟨_, _, h⟩ := exists_of_bind h
  obtain ⟨p, hvisit, h⟩ := exists_of_bind h
  have hstart : Parts.Sound {} := by simp [Parts.Sound]
  have hsound : p.Sound :=
    foldlM_keeps (fun _ _ _ hs hstep => hs.of_addPart hstep) hstart (exists_of_visit hvisit)
  rw [← Except.ok.inj h]
  exact hsound.fits_wording isPlural _

theorem fits_ofEmptyTag (h : ofEmptyTag isPlural tag = .ok t) : t.wording.Fits isPlural := by
  obtain ⟨_, _, h⟩ := exists_of_bind h
  rw [← Except.ok.inj h]
  cases isPlural
  · exact rfl
  · exact Or.inl rfl

end Target

/-! ## Messages -/

namespace Message

/-- A message whose wording fits its plural mark, or that nobody has worked on. -/
def FitsOrUntouched (m : Message) : Prop :=
  m.target.wording.Fits m.isPlural ∨ m.target = .untouched

variable {m : Message} {d d' : Draft} {tag : Tag} {children : List Node} {ending : Ending}

theorem fitsOrUntouched_setText (hd : d.message.FitsOrUntouched) (element text : String) :
    (d.setText element text).message.FitsOrUntouched := by
  unfold Draft.setText
  split <;> exact hd

theorem fitsOrUntouched_addNode {n : Node} (hd : d.message.FitsOrUntouched)
    (h : addNode d n = .ok d') : d'.message.FitsOrUntouched := by
  cases n with
  | text raw => exact Except.ok.inj h ▸ hd
  | literal content => exact Except.ok.inj h ▸ hd
  | aside raw => exact Except.ok.inj h ▸ hd
  | empty tag =>
    rw [addNode] at h
    split at h
    · obtain ⟨_, _, rfl⟩ := exists_of_map h
      exact hd
    · split at h
      · obtain ⟨_, htarget, rfl⟩ := exists_of_map h
        exact Or.inl (Target.fits_ofEmptyTag htarget)
      · exact Except.ok.inj h ▸ fitsOrUntouched_setText hd _ _
  | element tag children ending =>
    rw [addNode] at h
    split at h
    · obtain ⟨_, _, h⟩ := exists_of_bind h
      obtain ⟨_, _, h⟩ := exists_of_bind h
      exact Except.ok.inj h ▸ hd
    · split at h
      · obtain ⟨_, htarget, rfl⟩ := exists_of_map h
        exact Or.inl (Target.fits_ofElement htarget)
      · split at h
        · obtain ⟨_, _, rfl⟩ := exists_of_map h
          exact fitsOrUntouched_setText hd _ _
        · obtain ⟨_, _, rfl⟩ := exists_of_map h
          exact hd

/-- **Every message that is read** has a wording that fits, or no wording was given. -/
theorem fitsOrUntouched_ofElement (h : ofElement tag children ending = .ok m) :
    m.FitsOrUntouched := by
  obtain ⟨_, _, h⟩ := exists_of_bind h
  obtain ⟨_, _, h⟩ := exists_of_bind h
  obtain ⟨d, hvisit, h⟩ := exists_of_bind h
  have hd : d.message.FitsOrUntouched :=
    foldlM_keeps (I := fun d => d.message.FitsOrUntouched)
      (fun _ _ _ hs hstep => fitsOrUntouched_addNode hs hstep) (Or.inr rfl)
      (exists_of_visit hvisit)
  dsimp only at h
  split at h
  · exact Except.ok.inj h ▸ hd
  · cases h

/-- Of these the plural ones that nobody has worked on do not fit. -/
theorem FitsOrUntouched.fits_iff (h : m.FitsOrUntouched) :
    m.target.wording.Fits m.isPlural ↔ (m.isPlural = true → m.target ≠ .untouched) := by
  constructor
  · intro hfits hplural htarget
    rw [htarget, hplural] at hfits
    cases hfits
  · intro hworked
    rcases h with hfits | htarget
    · exact hfits
    · have hplural : m.isPlural = false :=
        Bool.eq_false_iff.2 fun hplural => hworked hplural htarget
      rw [htarget, hplural]
      rfl

end Message

/-! ## Contexts and catalogues -/

namespace Context

variable {x : Context} {children : List Node} {ending : Ending}

theorem fitsOrUntouched_addNode {d d' : Draft} {n : Node}
    (hd : ∀ m ∈ d.messages, m.FitsOrUntouched) (h : addNode d n = .ok d') :
    ∀ m ∈ d'.messages, m.FitsOrUntouched := by
  cases n with
  | text raw => exact Except.ok.inj h ▸ hd
  | literal content => exact Except.ok.inj h ▸ hd
  | aside raw => exact Except.ok.inj h ▸ hd
  | empty tag =>
    rw [addNode] at h
    split at h
    · exact Except.ok.inj h ▸ hd
    · split at h
      · exact Except.ok.inj h ▸ hd
      · split at h
        · cases h
        · exact Except.ok.inj h ▸ hd
  | element tag children ending =>
    rw [addNode] at h
    split at h
    · obtain ⟨_, _, rfl⟩ := exists_of_map h
      exact hd
    · split at h
      · obtain ⟨_, _, rfl⟩ := exists_of_map h
        exact hd
      · split at h
        · obtain ⟨m, hm, rfl⟩ := exists_of_map h
          refine List.forall_mem_append.2 ⟨hd, ?_⟩
          exact List.forall_mem_singleton.2 (Message.fitsOrUntouched_ofElement hm)
        · obtain ⟨_, _, rfl⟩ := exists_of_map h
          exact hd

theorem fitsOrUntouched_ofElement (h : ofElement children ending = .ok x) :
    ∀ m ∈ x.messages, m.FitsOrUntouched := by
  obtain ⟨d, hvisit, h⟩ := exists_of_bind h
  have hd : ∀ m ∈ d.messages, m.FitsOrUntouched :=
    foldlM_keeps (I := fun d => ∀ m ∈ d.messages, m.FitsOrUntouched)
      (fun _ _ _ hs hstep => fitsOrUntouched_addNode hs hstep)
      (fun _ hm => absurd hm List.not_mem_nil) (exists_of_visit hvisit)
  split at h
  · exact Except.ok.inj h ▸ hd
  · cases h

end Context

namespace Catalogue

variable {c c' : Catalogue} {bytes : List UInt8}

/-- The messages of a catalogue fit, or nobody has worked on them. -/
def FitsOrUntouched (c : Catalogue) : Prop :=
  ∀ x ∈ c.contexts, ∀ m ∈ x.messages, m.FitsOrUntouched

theorem FitsOrUntouched.of_addNode {n : Node} (hc : c.FitsOrUntouched)
    (h : addNode c n = .ok c') : c'.FitsOrUntouched := by
  cases n with
  | text raw => exact Except.ok.inj h ▸ hc
  | literal content => exact Except.ok.inj h ▸ hc
  | aside raw => exact Except.ok.inj h ▸ hc
  | empty tag => exact Except.ok.inj h ▸ hc
  | element tag children ending =>
    rw [addNode] at h
    split at h
    · obtain ⟨x, hx, rfl⟩ := exists_of_map h
      refine List.forall_mem_append.2 ⟨hc, ?_⟩
      exact List.forall_mem_singleton.2 (Context.fitsOrUntouched_ofElement hx)
    · split at h
      · cases h
      · obtain ⟨_, _, rfl⟩ := exists_of_map h
        exact hc

theorem contexts_ofTag {tag : Tag} (h : ofTag tag = .ok c) : c.contexts = [] := by
  obtain ⟨_, _, h⟩ := exists_of_bind h
  obtain ⟨_, _, h⟩ := exists_of_bind h
  obtain ⟨_, _, h⟩ := exists_of_bind h
  rw [← Except.ok.inj h]

theorem fitsOrUntouched_ofTag {tag : Tag} (h : ofTag tag = .ok c) : c.FitsOrUntouched := by
  intro x hx
  rw [contexts_ofTag h] at hx
  cases hx

theorem fitsOrUntouched_ofNodes {nodes : List Node} {ending : Ending}
    (h : ofNodes nodes ending = .ok c) : c.FitsOrUntouched := by
  fun_induction ofNodes nodes ending with
  | case1 => cases h
  | case2 => cases h
  | case3 tag =>
    obtain ⟨_, _, h⟩ := exists_of_bind h
    exact fitsOrUntouched_ofTag h
  | case4 tag children ending =>
    obtain ⟨_, _, h⟩ := exists_of_bind h
    obtain ⟨root, hroot, hvisit⟩ := exists_of_bind h
    exact foldlM_keeps (fun _ _ _ hs hstep => hs.of_addNode hstep)
      (fitsOrUntouched_ofTag hroot) (exists_of_visit hvisit)
  | case5 _ _ _ _ _ ih => exact ih h

/-- **Whatever is read fits,** or nobody has worked on it. -/
theorem fitsOrUntouched_ofFile [Bytes.Registry] (h : ofFile bytes = .ok c) : c.FitsOrUntouched := by
  obtain ⟨_, _, h⟩ := exists_of_bind h
  exact fitsOrUntouched_ofNodes h

/-- **What is read from a file can be written and read again,** unless a text of it
contains U+0000, and reads as the same catalogue, unless it has a plural message nobody
has worked on. -/
theorem survives_of_ofFile [Bytes.Registry] (h : ofFile bytes = .ok c) :
    ((∃ d, ofFileText c.fileText = .ok d) ↔ ∀ s ∈ c.contents, '\x00' ∉ s.toList) ∧
      (ofFileText c.fileText = .ok c ↔ (∀ s ∈ c.contents, '\x00' ∉ s.toList) ∧
        ∀ x ∈ c.contexts, ∀ m ∈ x.messages, m.isPlural = true → m.target ≠ .untouched) := by
  have hfits := fitsOrUntouched_ofFile h
  refine ⟨?_, ?_⟩
  · rw [ofFileText_fileText_eq]
    exact ⟨fun ⟨_, hd⟩ => isContent_of_ofNodes hd, fun htexts => ⟨_, ofNodes_toNodes_reread htexts⟩⟩
  · constructor
    · intro hsurvives
      refine ⟨isContent_of_ofNodes (c.ofFileText_fileText_eq ▸ hsurvives), fun x hx m hm => ?_⟩
      have hwritable := (c.survives_iff.1 hsurvives x hx).messages m hm
      exact (hfits x hx m hm).fits_iff.1 hwritable.fits
    · rintro ⟨htexts, hworked⟩
      rw [ofFileText_fileText_eq]
      exact ofNodes_toNodes (fun x hx m hm => (hfits x hx m hm).fits_iff.2 (hworked x hx m hm))
        htexts

/-- A file in ISO-8859-5, with a letter of this set, a character by its number as an element,
a reference and literal text. -/
def legacyFile : List UInt8 :=
  Bytes.ofText "<?xml version=\"1.0\" encoding=\"ISO-8859-5\"?><TS><context><name>Q</name>" ++
    Bytes.ofText "<message numerus=\"yes\"><source>" ++ 0xD1 ::
    Bytes.ofText "<byte value=\"x1b\"/>&#x62;</source><translation><![CDATA[<c>]]></translation>" ++
    Bytes.ofText "</message></context></TS>"

/-- What is read from it. -/
def legacy : Catalogue where
  contexts := [{ name := "Q", messages := [
    { isPlural := true, source := "б\x1bb", target := ⟨.finished, .plural ["<c>"]⟩ }] }]

theorem legacy_survives : ofFile legacyFile = .ok legacy ∧
    ((∃ d, ofFileText legacy.fileText = .ok d) ↔ ∀ s ∈ legacy.contents, '\x00' ∉ s.toList) ∧
      (ofFileText legacy.fileText = .ok legacy ↔
        (∀ s ∈ legacy.contents, '\x00' ∉ s.toList) ∧ ∀ x ∈ legacy.contexts,
          ∀ m ∈ x.messages, m.isPlural = true → m.target ≠ .untouched) := by
  have hread : ofFile legacyFile = .ok legacy := by decide +kernel
  exact ⟨hread, survives_of_ofFile hread⟩

/-- A text that is U+0000, by its number. -/
def nulFile : List UInt8 :=
  Bytes.ofText
    "<TS><context><name>Q</name><message><source><byte value=\"x0\"/></source></message></context></TS>"

/-- What is read from it. -/
def withNul : Catalogue where
  contexts := [{ name := "Q", messages := [{ source := "\x00" }] }]

/-- A plural message without an element for its target. -/
def untouchedFile : List UInt8 :=
  Bytes.ofText
    "<TS><context><name>Q</name><message numerus=\"yes\"><source>a</source></message></context></TS>"

/-- What is read from it. -/
def untouchedPlural : Catalogue where
  contexts := [{ name := "Q", messages := [{ isPlural := true, source := "a" }] }]

/-- Of two catalogues that are read from files, the first cannot be read again, and the
second reads as another one. -/
theorem read_once_only :
    (ofFile nulFile = .ok withNul ∧ ∀ d, ofFileText withNul.fileText ≠ .ok d) ∧
      ofFile untouchedFile = .ok untouchedPlural ∧
        ∃ d, ofFileText untouchedPlural.fileText = .ok d ∧ d ≠ untouchedPlural := by
  refine ⟨⟨by decide +kernel, fun d hd => ?_⟩, by decide +kernel, untouchedPlural.reread, ?_, by decide⟩
  · rw [ofFileText_fileText_eq] at hd
    exact absurd (isContent_of_ofNodes hd) (by decide)
  · rw [ofFileText_fileText_eq]
    exact ofNodes_toNodes_reread (by decide)

end Catalogue
end Linguist
