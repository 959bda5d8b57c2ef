import Mathlib.Data.List.Basic
import Linguist.Catalogue.Places
import Linguist.Proofs.Sequence

/-!
# Two forms of the same places

Places written out and places abbreviated say the same.  However the places of a catalogue
are written, resolving leads to one form and abbreviating to the other, and after several
rewritings only the last one can be seen (`Catalogue.resolve_abbreviate_absorb`).

## A walk over what a walk leaves

Each rewriting is a walk that carries a trail, so two rewritings are followed with both trails
at once.  If every step of the second does to the output of the first what some single step
does to the input, then the same holds for whole walks: the two *fuse* into one
(`Sequence.Fuses`, `Catalogue.walk_walk`).  All that has to be found is how the trails are
related.

The first walk goes on from true lines, which may be out of range; the second one has seen
only what was written.  So the second trail is in the same file as the first, and its lines
are the lines of the first, clamped (`Trail.Written`).  A file without lines begins at zero in
both, since zero is in range.

Abbreviating is two walks by definition.  They fuse into one (`abbreviate_eq_walk`), and
resolving what this one leaves fuses with it into resolving (`resolve_abbreviate`).
-/

namespace Linguist

/-! ## Fused walks -/

namespace Sequence

variable {α β γ σ τ : Type} {R : σ → τ → Prop} {f : σ → α → β × σ} {g : τ → β → γ × τ}
  {k : σ → α → γ × σ}

/-- The first step and the second one on its output do what the third does at once, and the
states stay related. -/
def Fuses (R : σ → τ → Prop) (f : σ → α → β × σ) (g : τ → β → γ × τ) (k : σ → α → γ × σ) :
    Prop :=
  ∀ s t a, R s t → k s a = ((g t (f s a).1).1, (f s a).2) ∧ R (f s a).2 (g t (f s a).1).2

/-- Walks fuse if their steps do. -/
theorem fuses_thread (h : Fuses R f g k) : Fuses R (thread f) (thread g) (thread k) := by
  intro s t as hst
  induction as generalizing s t with
  | nil => exact ⟨rfl, hst⟩
  | cons a as ih =>
    obtain ⟨hstep, hst⟩ := h s t a hst
    obtain ⟨hrest, hst⟩ := ih _ _ hst
    refine ⟨?_, hst⟩
    rw [thread_cons, hstep, hrest]
    rfl

end Sequence

namespace Catalogue

open Sequence (Fuses fuses_thread)

section Walks

variable {R : Trail → Trail → Prop} {f g k : Trail → Place → Place × Trail}

theorem fuses_walkMessage (h : Fuses R f g k) :
    Fuses R (walkMessage f) (walkMessage g) (walkMessage k) := by
  intro s t m hst
  obtain ⟨hplaces, hst⟩ := fuses_thread h s t m.places hst
  refine ⟨?_, hst⟩
  rw [walkMessage, hplaces]
  rfl

theorem fuses_walkContext (h : Fuses R f g k) :
    Fuses R (walkContext f) (walkContext g) (walkContext k) := by
  intro s t x hst
  obtain ⟨hmessages, hst⟩ := fuses_thread (fuses_walkMessage h) s t x.messages hst
  refine ⟨?_, hst⟩
  rw [walkContext, hmessages]
  rfl

/-- **Two walks along a catalogue are one walk** if their steps fuse. -/
theorem walk_walk (h : Fuses R f g k) (hstart : R {} {}) (c : Catalogue) :
    (c.walk f).walk g = c.walk k := by
  obtain ⟨hcontexts, -⟩ := fuses_thread (fuses_walkContext h) {} {} c.contexts hstart
  rw [walk, walk, walk, hcontexts]

end Walks

/-! ## All places -/

section AllPlaces

variable {P Q : Place → Prop} {f : Trail → Place → Place × Trail}

/-- A catalogue whose places all have a property. -/
def ForallPlaces (P : Place → Prop) (c : Catalogue) : Prop :=
  ∀ x ∈ c.contexts, ∀ m ∈ x.messages, ∀ p ∈ m.places, P p

/-- What a step makes of places of one kind, a walk makes of all places. -/
theorem ForallPlaces.walk (h : ∀ t p, P p → Q (f t p).1) {c : Catalogue}
    (hc : c.ForallPlaces P) : (c.walk f).ForallPlaces Q := by
  have hmessage : ∀ t m, (∀ p ∈ m.places, P p) → ∀ p ∈ (walkMessage f t m).1.places, Q p :=
    fun t _ hm => Sequence.forall_of_thread h t hm
  have hcontext : ∀ t x, (∀ m ∈ x.messages, ∀ p ∈ m.places, P p) →
      ∀ m ∈ (walkContext f t x).1.messages, ∀ p ∈ m.places, Q p :=
    fun t _ hx => Sequence.forall_of_thread hmessage t hx
  exact Sequence.forall_of_thread (Q := fun x : Context => ∀ m ∈ x.messages, ∀ p ∈ m.places, Q p)
    hcontext {} hc

/-- A walk whose steps change no place changes nothing. -/
theorem walk_eq_self (h : ∀ t p, P p → (f t p).1 = p) {c : Catalogue} (hc : c.ForallPlaces P) :
    c.walk f = c := by
  have hmessage : ∀ t m, (∀ p ∈ m.places, P p) → (walkMessage f t m).1 = m := by
    intro t m hm
    show { m with places := (Sequence.thread f t m.places).1 } = m
    rw [Sequence.thread_eq_self h t hm]
  have hcontext : ∀ t x, (∀ m ∈ x.messages, ∀ p ∈ m.places, P p) →
      (walkContext f t x).1 = x := by
    intro t x hx
    show { x with messages := (Sequence.thread (walkMessage f) t x.messages).1 } = x
    rw [Sequence.thread_eq_self hmessage t hx]
  rw [Catalogue.walk, Sequence.thread_eq_self hcontext {} hc]

/-- All places in their order. -/
def places (c : Catalogue) : List Place :=
  c.contexts.flatMap fun x => x.messages.flatMap Message.places

theorem forallPlaces_iff {c : Catalogue} : c.ForallPlaces P ↔ ∀ p ∈ c.places, P p := by
  simp only [ForallPlaces, places, List.mem_flatMap]
  exact ⟨fun h p ⟨x, hx, m, hm, hp⟩ => h x hx m hm p hp,
    fun h x hx m hm p hp => h p ⟨x, hx, m, hm, hp⟩⟩

/-- Messages and contexts play no part in a walk. -/
theorem places_walk (f : Trail → Place → Place × Trail) (c : Catalogue) :
    (c.walk f).places = (Sequence.thread f {} c.places).1 := by
  have hcontext : ∀ t (x : Context), Sequence.thread f t (x.messages.flatMap Message.places) =
      ((walkContext f t x).1.messages.flatMap Message.places, (walkContext f t x).2) :=
    fun t x => Sequence.flatMap_thread (fun _ _ => rfl) t x.messages
  have hcontexts : Sequence.thread f {} c.places =
      ((c.walk f).places, (Sequence.thread (walkContext f) {} c.contexts).2) :=
    Sequence.flatMap_thread (g := walkContext f) hcontext {} c.contexts
  rw [hcontexts]

end AllPlaces

/-! ## Lines in range -/

/-- A line number of 32 bits is in range. -/
theorem clampLine_toNat (line : UInt32) : clampLine (line.toNat : Int) = line := by
  have hlt : line.toNat ≤ UInt32.size - 1 := Nat.le_pred_of_lt line.toNat_lt
  rw [clampLine, Int.toNat_natCast, Nat.min_eq_left hlt, UInt32.ofNat_toNat]

/-- The difference of two line numbers is an offset of 64 bits. -/
theorem toInt_ofInt_sub (a b : UInt32) :
    (Int64.ofInt ((a.toNat : Int) - b.toNat)).toInt = a.toNat - b.toNat := by
  have ha := a.toNat_lt
  have hb := b.toNat_lt
  exact Int64.toInt_ofInt_of_le (by omega) (by omega)

/-! ## Trails -/

namespace Trail

theorem lookup_filter_ne (lines : List (String × Int)) {file other : String} (h : other ≠ file) :
    (lines.filter (·.1 != file)).lookup other = lines.lookup other := by
  induction lines with
  | nil => rfl
  | cons entry rest ih =>
    by_cases hfile : entry.1 = file
    · have hother : (other == entry.1) = false := by simpa [hfile] using h
      rw [List.filter_cons_of_neg (by simp [hfile]), List.lookup_cons, hother, ih]
    · rw [List.filter_cons_of_pos (by simpa using hfile), List.lookup_cons, List.lookup_cons, ih]

@[simp] theorem lastLine_enter (t : Trail) (file other : String) :
    (t.enter file).lastLine other = t.lastLine other := rfl

/-- Coming to a line is seen in its file and in no other. -/
theorem lastLine_reach (t : Trail) (file other : String) (line : Int) :
    (t.reach file line).lastLine other = if other = file then line else t.lastLine other := by
  rw [lastLine, reach, List.lookup_cons]
  by_cases h : other = file
  · rw [if_pos h, beq_iff_eq.2 h]
    rfl
  · rw [if_neg h, beq_eq_false_iff_ne.2 h, lookup_filter_ne t.lines h]
    rfl

/-- The second trail is what can be seen of the first in what was written: it is in the same
file, and its lines are in range. -/
structure Written (s t : Trail) : Prop where
  file? : t.file? = s.file?
  lastLine : ∀ file, t.lastLine file = (clampLine (s.lastLine file)).toNat

namespace Written

variable {s t : Trail} {file : String} {line : Int}

theorem start : Written {} {} :=
  ⟨rfl, fun _ => rfl⟩

theorem enter (h : s.Written t) (file : String) : (s.enter file).Written (t.enter file) :=
  ⟨rfl, h.lastLine⟩

/-- Both trails come to a line, the second one as it was written. -/
theorem reach (h : s.Written t) (file : String) (line : Int) :
    ((s.enter file).reach file line).Written
      ((t.enter file).reach file (clampLine line).toNat) := by
  refine ⟨rfl, fun other => ?_⟩
  rw [lastLine_reach, lastLine_reach]
  by_cases hother : other = file
  · rw [if_pos hother, if_pos hother]
  · rw [if_neg hother, if_neg hother]
    exact h.lastLine other

end Written
end Trail

/-! ## Steps -/

variable {t : Trail} {p : Place} {file : String}

theorem resolvePlace_of_none (h : p.file?.or t.file? = none) : resolvePlace t p = (p, t) := by
  rw [resolvePlace, h]

theorem resolvePlace_of_file (h : p.file?.or t.file? = some file) (hline : p.line? = none) :
    resolvePlace t p = (⟨some file, none⟩, t.enter file) := by
  simp only [resolvePlace, h, hline]

theorem resolvePlace_of_line {number : LineNumber} (h : p.file?.or t.file? = some file)
    (hline : p.line? = some number) :
    resolvePlace t p =
      (⟨some file, some (.absolute (clampLine (lineAfter t file number)))⟩,
        (t.enter file).reach file (lineAfter t file number)) := by
  simp only [resolvePlace, h, hline]

/-- The file that is written for a place after a trail. -/
def shortFile (t : Trail) (file : String) : Option String :=
  if t.file? = some file then none else some file

/-- The file that is left out is the one of the trail. -/
theorem or_shortFile (t : Trail) (file : String) : (shortFile t file).or t.file? = some file := by
  rw [shortFile]
  by_cases h : t.file? = some file
  · rw [if_pos h, Option.none_or, h]
  · rw [if_neg h, Option.some_or]

/-- The offset that is written for a line after a trail. -/
def shortOffset (t : Trail) (file : String) (line : Int) : Int64 :=
  Int64.ofInt ((clampLine line).toNat - (clampLine (t.lastLine file)).toNat)

/-- Abbreviates one place, whatever form it has. -/
def shortenPlace (t : Trail) (p : Place) : Place × Trail :=
  match p.file?.or t.file? with
  | none => (p, t)
  | some file =>
    match p.line? with
    | none => (⟨shortFile t file, none⟩, t.enter file)
    | some number =>
      let line := lineAfter t file number
      (⟨shortFile t file, some (.relative (shortOffset t file line))⟩,
        (t.enter file).reach file line)

theorem shortenPlace_of_none (h : p.file?.or t.file? = none) : shortenPlace t p = (p, t) := by
  rw [shortenPlace, h]

theorem shortenPlace_of_file (h : p.file?.or t.file? = some file) (hline : p.line? = none) :
    shortenPlace t p = (⟨shortFile t file, none⟩, t.enter file) := by
  simp only [shortenPlace, h, hline]

theorem shortenPlace_of_line {number : LineNumber} (h : p.file?.or t.file? = some file)
    (hline : p.line? = some number) :
    shortenPlace t p =
      (⟨shortFile t file, some (.relative (shortOffset t file (lineAfter t file number)))⟩,
        (t.enter file).reach file (lineAfter t file number)) := by
  simp only [shortenPlace, h, hline]

/-- The offset leads from the last line that was written to the line to be written. -/
theorem lineAfter_shortOffset {s : Trail} (h : s.Written t) (file : String) (line : Int) :
    lineAfter t file (.relative (shortOffset s file line)) = (clampLine line).toNat := by
  rw [lineAfter, shortOffset, toInt_ofInt_sub, h.lastLine]
  omega

/-- Resolving over resolving is resolving. -/
theorem fuses_resolve_resolve :
    Fuses Trail.Written resolvePlace resolvePlace resolvePlace := by
  intro s t p hst
  cases hfile : p.file?.or s.file? with
  | none =>
    rw [resolvePlace_of_none hfile, resolvePlace_of_none (by rw [hst.file?, hfile])]
    exact ⟨rfl, hst⟩
  | some file =>
    cases hline : p.line? with
    | none =>
      rw [resolvePlace_of_file hfile hline, resolvePlace_of_file rfl rfl]
      exact ⟨rfl, hst.enter file⟩
    | some number =>
      rw [resolvePlace_of_line hfile hline, resolvePlace_of_line rfl rfl, lineAfter,
        clampLine_toNat]
      exact ⟨rfl, hst.reach file _⟩

/-- Abbreviating what was resolved is abbreviating at once. -/
theorem fuses_resolve_abbreviate :
    Fuses Trail.Written resolvePlace abbreviatePlace shortenPlace := by
  intro s t p hst
  cases hfile : p.file?.or s.file? with
  | none =>
    have hnone : p.file? = none := (Option.or_eq_none_iff.1 hfile).1
    have hleft : abbreviatePlace t p = (p, t) := by rw [abbreviatePlace, hnone]
    rw [shortenPlace_of_none hfile, resolvePlace_of_none hfile, hleft]
    exact ⟨rfl, hst⟩
  | some file =>
    cases hline : p.line? with
    | none =>
      rw [shortenPlace_of_file hfile hline, resolvePlace_of_file hfile hline]
      refine ⟨?_, hst.enter file⟩
      rw [abbreviatePlace, hst.file?]
      rfl
    | some number =>
      rw [shortenPlace_of_line hfile hline, resolvePlace_of_line hfile hline]
      refine ⟨?_, hst.reach file _⟩
      simp only [abbreviatePlace, hst.file?, hst.lastLine]
      rfl

/-- Resolving what was abbreviated at once is resolving. -/
theorem fuses_shorten_resolve : Fuses Trail.Written shortenPlace resolvePlace resolvePlace := by
  intro s t p hst
  cases hfile : p.file?.or s.file? with
  | none =>
    rw [resolvePlace_of_none hfile, shortenPlace_of_none hfile,
      resolvePlace_of_none (by rw [hst.file?, hfile])]
    exact ⟨rfl, hst⟩
  | some file =>
    have hwritten : (shortFile s file).or t.file? = some file := by
      rw [hst.file?, or_shortFile]
    cases hline : p.line? with
    | none =>
      rw [resolvePlace_of_file hfile hline, shortenPlace_of_file hfile hline,
        resolvePlace_of_file hwritten rfl]
      exact ⟨rfl, hst.enter file⟩
    | some number =>
      rw [resolvePlace_of_line hfile hline, shortenPlace_of_line hfile hline,
        resolvePlace_of_line hwritten rfl, lineAfter_shortOffset hst, clampLine_toNat]
      exact ⟨rfl, hst.reach file _⟩

/-! ## Whole catalogues -/

/-- What was resolved stays as it is. -/
theorem resolve_resolve (c : Catalogue) : c.resolve.resolve = c.resolve :=
  walk_walk fuses_resolve_resolve Trail.Written.start c

/-- **Abbreviating takes a single walk.** -/
theorem abbreviate_eq_walk (c : Catalogue) : c.abbreviate = c.walk shortenPlace :=
  walk_walk fuses_resolve_abbreviate Trail.Written.start c

/-- **Nothing is lost by abbreviating.** -/
theorem resolve_abbreviate (c : Catalogue) : c.abbreviate.resolve = c.resolve := by
  rw [abbreviate_eq_walk]
  exact walk_walk fuses_shorten_resolve Trail.Written.start c

/-- **Only the last form can be seen.**  Resolving leads to the same places whether they were
resolved or abbreviated before, and so does abbreviating. -/
theorem resolve_abbreviate_absorb (c : Catalogue) :
    c.resolve.resolve = c.resolve ∧ c.abbreviate.resolve = c.resolve ∧
      c.resolve.abbreviate = c.abbreviate ∧ c.abbreviate.abbreviate = c.abbreviate := by
  refine ⟨resolve_resolve c, resolve_abbreviate c, ?_, ?_⟩
  · rw [abbreviate, resolve_resolve]
    rfl
  · rw [abbreviate, resolve_abbreviate]
    rfl

end Catalogue
end Linguist
