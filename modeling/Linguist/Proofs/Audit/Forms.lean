import Linguist.Proofs.Audit
import Linguist.Proofs.Catalogue.Alike
import Linguist.Proofs.Catalogue.Places

/-!
# An audit of one form of the places

Places that two messages claim are looked for in the resolved form, and of all other places an
audit asks only whether there are any.  So it finds the same in a catalogue, in its resolved
form and in its abbreviated form, with one exception: a line is found to be zero where the
number zero is *written*, as an absolute line.  Resolving may write such lines, and abbreviating
takes them away, except from places that are in no file.

Hence the findings grow from the abbreviated form to the catalogue as it is, and from there to
the resolved form, and what is new is always about a line zero.  The three reports are equal
just when no line zero is hidden by abbreviating (`findings_forms`).

The audit is followed along its recursion with two catalogues at once.  At every step one list
of findings *gains* on the other, which keeps three things together: nothing is lost, what is
new is about a line zero, and a condition says whether anything is new (`Gains`).
-/

namespace Linguist

/-! ## Rewritten places -/

/-- The line of the place is written as zero. -/
def Place.AtZero (p : Place) : Prop :=
  p.line? = some (.absolute 0)

/-- A line of the message is written as zero. -/
def Message.AtZero (m : Message) : Prop :=
  ∃ p ∈ m.places, p.AtZero

theorem Message.any_places_iff (m : Message) :
    (m.places.any fun p => p.line? == some (.absolute 0)) = true ↔ m.AtZero := by
  simp only [List.any_eq_true, beq_iff_eq, AtZero, Place.AtZero]

/-- The second message is the first with every place rewritten. -/
structure Message.Rewritten (R : Place → Place → Prop) (m m' : Message) : Prop where
  bare : m'.bare = m.bare
  places : List.Forall₂ R m.places m'.places

/-- The second context is the first with every place rewritten. -/
structure Context.Rewritten (R : Place → Place → Prop) (x y : Context) : Prop where
  name : y.name = x.name
  messages : List.Forall₂ (Message.Rewritten R) x.messages y.messages

section Rewritten

variable {R S : Place → Place → Prop}

/-- The other way round, the places are rewritten as the reversed steps say. -/
theorem Message.Rewritten.reverse {m m' : Message} (h : m.Rewritten R m')
    (hRS : ∀ p q, R p q → S q p) : m'.Rewritten S m :=
  ⟨h.bare.symm, h.places.flip.imp fun q p => hRS p q⟩

theorem Context.Rewritten.reverse {x y : Context} (h : x.Rewritten R y)
    (hRS : ∀ p q, R p q → S q p) : y.Rewritten S x :=
  ⟨h.name.symm, h.messages.flip.imp fun _ _ hm => hm.reverse hRS⟩

theorem Message.Rewritten.alike {m m' : Message} (h : m.Rewritten R m') : m.Alike m' := by
  refine ⟨h.bare, fun hm => ?_⟩
  have hplaces := h.places
  rw [hm] at hplaces
  exact List.forall₂_nil_left_iff.1 hplaces

theorem Message.Rewritten.source {m m' : Message} (h : m.Rewritten R m') : m'.source = m.source :=
  congrArg Key.source h.alike.key

theorem Message.Rewritten.isEmpty_places {m m' : Message} (h : m.Rewritten R m') :
    m'.places.isEmpty = m.places.isEmpty := by
  rw [Bool.eq_iff_iff, List.isEmpty_iff, List.isEmpty_iff]
  have hback : m'.Rewritten (fun q p => R p q) m := h.reverse fun _ _ => id
  exact ⟨hback.alike.places, h.alike.places⟩

variable {f : Catalogue.Trail → Place → Place × Catalogue.Trail}

theorem Message.rewritten_walk (h : ∀ t p, R p (f t p).1) (t : Catalogue.Trail) (m : Message) :
    m.Rewritten R (Catalogue.walkMessage f t m).1 :=
  ⟨rfl, Sequence.forall₂_thread h t m.places⟩

theorem Context.rewritten_walk (h : ∀ t p, R p (f t p).1) (t : Catalogue.Trail) (x : Context) :
    x.Rewritten R (Catalogue.walkContext f t x).1 :=
  ⟨rfl, Sequence.forall₂_thread (Message.rewritten_walk h) t x.messages⟩

/-- A walk rewrites every place as its steps do. -/
theorem Catalogue.rewritten_walk (h : ∀ t p, R p (f t p).1) (c : Catalogue) :
    List.Forall₂ (Context.Rewritten R) c.contexts (c.walk f).contexts :=
  Sequence.forall₂_thread (Context.rewritten_walk h) {} c.contexts

end Rewritten

namespace Audit

/-! ## Lists of findings that gain lines -/

/-- The second list is the first with findings about lines zero put in, and there is none of
them just when the condition holds. -/
structure Gains (P : Prop) (fs gs : List Finding) : Prop where
  sublist : fs.Sublist gs
  others : fs.filter (·.kind ≠ .zeroLine) = gs.filter (·.kind ≠ .zeroLine)
  eq_iff : fs = gs ↔ P

namespace Gains

variable {P Q : Prop} {fs gs fs' gs' : List Finding}

protected theorem refl (fs : List Finding) : Gains True fs fs :=
  ⟨.refl fs, rfl, iff_of_true rfl trivial⟩

theorem of_iff (h : Gains P fs gs) (hPQ : P ↔ Q) : Gains Q fs gs :=
  ⟨h.sublist, h.others, h.eq_iff.trans hPQ⟩

/-- Two lists are extended by nothing just when each of them is. -/
protected theorem append (h : Gains P fs gs) (h' : Gains Q fs' gs') :
    Gains (P ∧ Q) (fs ++ fs') (gs ++ gs') := by
  refine ⟨h.sublist.append h'.sublist, ?_, ?_⟩
  · rw [List.filter_append, List.filter_append, h.others, h'.others]
  · rw [← h.eq_iff, ← h'.eq_iff]
    refine ⟨fun heq => ?_, fun ⟨heq, heq'⟩ => by rw [heq, heq']⟩
    have hlength := congrArg List.length heq
    rw [List.length_append, List.length_append] at hlength
    have hle := h.sublist.length_le
    have hle' := h'.sublist.length_le
    exact ⟨h.sublist.eq_of_length (by omega), h'.sublist.eq_of_length (by omega)⟩

/-- As many findings about lines zero are all findings. -/
theorem eq_of_countP (h : Gains P fs gs)
    (hcount : fs.countP (·.kind = .zeroLine) = gs.countP (·.kind = .zeroLine)) : fs = gs := by
  have hothers := congrArg List.length h.others
  rw [← List.countP_eq_length_filter, ← List.countP_eq_length_filter] at hothers
  refine h.sublist.eq_of_length ?_
  rw [List.length_eq_countP_add_countP (·.kind = .zeroLine),
    List.length_eq_countP_add_countP (l := gs) (·.kind = .zeroLine), hcount]
  simpa using hothers

end Gains

/-! ## Reports -/

theorem Options.countP_reported {o : Options} (h : o.reports .zeroLine = true)
    (fs : List Finding) :
    (o.reported fs).countP (·.kind = .zeroLine) = fs.countP (·.kind = .zeroLine) := by
  rw [reported, List.countP_filter]
  refine List.countP_congr fun f _ => ?_
  simp only [decide_eq_true_eq, Bool.and_eq_true, and_iff_left_iff_imp]
  exact fun hf => hf ▸ h

theorem Options.reported_filter {o : Options} (h : o.reports .zeroLine = false)
    (fs : List Finding) : o.reported (fs.filter (·.kind ≠ .zeroLine)) = o.reported fs := by
  rw [reported, List.filter_filter]
  refine List.filter_congr fun f _ => ?_
  by_cases hf : f.kind = .zeroLine <;> simp [hf, h]

/-- If lines zero are reported, then nothing new is left out of a report, and else all of it. -/
theorem Gains.reported {P : Prop} {fs gs : List Finding} (h : Gains P fs gs) (o : Options) :
    Gains (o.reports .zeroLine = true → P) (o.reported fs) (o.reported gs) := by
  refine ⟨h.sublist.filter _, ?_, ?_⟩
  · rw [Options.reported, Options.reported, List.filter_comm, h.others, List.filter_comm]
  · rw [← h.eq_iff]
    constructor
    · intro heq hreports
      exact h.eq_of_countP (by
        rw [← Options.countP_reported hreports, heq, Options.countP_reported hreports])
    · intro heq
      cases hreports : o.reports .zeroLine with
      | true => rw [heq hreports]
      | false => rw [← Options.reported_filter hreports, h.others, Options.reported_filter hreports]

/-- So one report gains on another as the findings do. -/
theorem Gains.report {P : Prop} {c d : Catalogue} (h : Gains P (findings c) (findings d))
    (o : Options) :
    Gains (o.reports .zeroLine = true → P) (run o c).findings (run o d).findings := by
  rw [findings_run, findings_run]
  exact h.reported o

/-! ## Two catalogues -/

/-- A line that is written as zero in both lists, or only in the second. -/
theorem gains_causeIf {b b' : Bool} (h : b = true → b' = true) (context? source? : Option String) :
    Gains (b' = true → b = true)
      ((causeIf b .zeroLine).map (⟨·, context?, source?⟩))
      ((causeIf b' .zeroLine).map (⟨·, context?, source?⟩)) := by
  cases b with
  | true =>
    rw [h rfl]
    exact (Gains.refl _).of_iff (by simp)
  | false =>
    cases b' with
    | false => exact (Gains.refl _).of_iff (by simp)
    | true => exact ⟨List.nil_sublist _, rfl, by simp [causeIf]⟩

/-- **The findings at one message:** only those about line zero look at what is written. -/
theorem gains_messageCauses (rule? : Option PluralRule) (repeats : Bool)
    (context? source? : Option String) {m m' : Message}
    (h : m.Rewritten (fun p q => p.AtZero → q.AtZero) m') :
    Gains (m'.AtZero → m.AtZero)
      ((messageCauses rule? repeats m).map (⟨·, context?, source?⟩))
      ((messageCauses rule? repeats m').map (⟨·, context?, source?⟩)) := by
  have hzero : m.AtZero → m'.AtZero := by
    rintro ⟨p, hp, hpzero⟩
    obtain ⟨q, hq, hpq⟩ := Sequence.exists_of_forall₂ h.places hp
    exact ⟨q, hq, hpq hpzero⟩
  rw [← m.any_places_iff, ← m'.any_places_iff] at hzero
  rw [messageCauses, messageCauses, h.isEmpty_places, h.source, h.alike.target]
  simp only [List.map_append]
  have hline := gains_causeIf hzero context? source?
  rw [m.any_places_iff, m'.any_places_iff] at hline
  -- the causes before and after those of line zero are the same for both messages
  exact ((((Gains.refl _).append hline).append (.refl _)).append (.refl _)).of_iff (by simp)

theorem gains_messageFindings (rule? : Option PluralRule) (context : String)
    (seen : List Message.Key) {ms ms' : List Message}
    (h : List.Forall₂ (Message.Rewritten fun p q => p.AtZero → q.AtZero) ms ms') :
    Gains (List.Forall₂ (fun m m' => m'.AtZero → m.AtZero) ms ms')
      (messageFindings rule? context seen ms) (messageFindings rule? context seen ms') := by
  induction h generalizing seen with
  | nil => exact (Gains.refl _).of_iff (by simp)
  | cons hm _ ih =>
    rw [messageFindings, messageFindings, hm.alike.key, hm.source, List.forall₂_cons]
    exact (gains_messageCauses rule? _ _ _ hm).append (ih _)

theorem gains_contexts (rule? : Option PluralRule) {xs ys : List Context}
    (h : List.Forall₂ (Context.Rewritten fun p q => p.AtZero → q.AtZero) xs ys) :
    Gains (List.Forall₂ (fun x y =>
        List.Forall₂ (fun m m' => m'.AtZero → m.AtZero) x.messages y.messages) xs ys)
      (xs.flatMap fun x => messageFindings rule? x.name [] x.messages)
      (ys.flatMap fun x => messageFindings rule? x.name [] x.messages) := by
  induction h with
  | nil => exact (Gains.refl _).of_iff (by simp)
  | cons hx _ ih =>
    rw [List.flatMap_cons, List.flatMap_cons, hx.name, List.forall₂_cons]
    exact (gains_messageFindings rule? _ [] hx.messages).append ih

/-- **From one form to one with more lines zero:** the findings gain just those. -/
theorem gains_findings {c d : Catalogue} (hresolve : d.resolve = c.resolve)
    (h : List.Forall₂ (Context.Rewritten fun p q => p.AtZero → q.AtZero) c.contexts d.contexts) :
    Gains (List.Forall₂ (fun x y =>
        List.Forall₂ (fun m m' => m'.AtZero → m.AtZero) x.messages y.messages)
      c.contexts d.contexts) (findings c) (findings d) := by
  have hlanguage : d.language? = c.language? := by
    show d.resolve.language? = c.resolve.language?
    rw [hresolve]
  have hsource : d.sourceLanguage? = c.sourceLanguage? := by
    show d.resolve.sourceLanguage? = c.resolve.sourceLanguage?
    rw [hresolve]
  rw [findings, findings, languageCauses, languageCauses, hresolve, hlanguage, hsource]
  exact (((Gains.refl _).append (gains_contexts _ h)).append (.refl _)).of_iff (by simp)

/-! ## Steps along the places -/

open Catalogue (Trail resolvePlace abbreviatePlace shortenPlace)

/-- Resolving keeps a zero. -/
theorem atZero_resolvePlace (t : Trail) (p : Place) (h : p.AtZero) :
    (resolvePlace t p).1.AtZero := by
  cases hfile : p.file?.or t.file? with
  | none =>
    rw [Catalogue.resolvePlace_of_none hfile]
    exact h
  | some file =>
    rw [Catalogue.resolvePlace_of_line hfile h]
    rfl

/-- Abbreviating writes no zero that was not there. -/
theorem atZero_of_shortenPlace (t : Trail) (p : Place) (h : (shortenPlace t p).1.AtZero) :
    p.AtZero := by
  cases hfile : p.file?.or t.file? with
  | none =>
    rw [Catalogue.shortenPlace_of_none hfile] at h
    exact h
  | some file =>
    cases hline : p.line? with
    | none =>
      rw [Catalogue.shortenPlace_of_file hfile hline] at h
      cases h
    | some number =>
      rw [Catalogue.shortenPlace_of_line hfile hline] at h
      cases h

/-- Of the resolved places, those in no file keep a zero when they are abbreviated. -/
theorem atZero_abbreviatePlace_iff (t : Trail) (p : Place) :
    (abbreviatePlace t p).1.AtZero ↔ p.file? = none ∧ p.AtZero := by
  rw [abbreviatePlace]
  cases hfile : p.file? with
  | none => simp
  | some file =>
    cases hline : p.line? with
    | none => simp [Place.AtZero]
    | some number => cases number <;> simp [Place.AtZero]

/-! ## The three forms -/

/-- A message is at zero in abbreviated form just when it is so at a place in no file. -/
theorem atZero_iff_of_abbreviated {m m' : Message}
    (h : m'.Rewritten (fun p q => q.AtZero ↔ p.file? = none ∧ p.AtZero) m) :
    m.AtZero ↔ ∃ p ∈ m'.places, p.file? = none ∧ p.AtZero := by
  constructor
  · rintro ⟨q, hq, hzero⟩
    obtain ⟨p, hp, hpq⟩ := Sequence.exists_of_forall₂ h.places.flip hq
    exact ⟨p, hp, hpq.1 hzero⟩
  · rintro ⟨p, hp, hzero⟩
    obtain ⟨q, hq, hpq⟩ := Sequence.exists_of_forall₂ h.places hp
    exact ⟨q, hq, hpq.2 hzero⟩

/-- From the abbreviated form to the resolved one, the findings gain the lines zero of places in
files, where no other place of the message is at zero already. -/
theorem gains_abbreviate_resolve (c : Catalogue) :
    Gains (∀ x ∈ c.resolve.contexts, ∀ m ∈ x.messages,
        m.AtZero → ∃ p ∈ m.places, p.file? = none ∧ p.AtZero)
      (findings c.abbreviate) (findings c.resolve) := by
  have hsteps : List.Forall₂ (Context.Rewritten fun p q => q.AtZero ↔ p.file? = none ∧ p.AtZero)
      c.resolve.contexts c.abbreviate.contexts :=
    Catalogue.rewritten_walk atZero_abbreviatePlace_iff c.resolve
  have hforms : c.resolve.resolve = c.abbreviate.resolve :=
    (Catalogue.resolve_resolve c).trans (Catalogue.resolve_abbreviate c).symm
  have hcontexts : List.Forall₂ (Context.Rewritten fun q p => q.AtZero → p.AtZero)
      c.abbreviate.contexts c.resolve.contexts :=
    hsteps.flip.imp fun _ _ hx => hx.reverse fun _ _ hpq hq => (hpq.1 hq).2
  refine (gains_findings hforms hcontexts).of_iff ?_
  refine Sequence.forall₂_iff_forall (fun y x hx => ?_) hsteps.flip
  refine Sequence.forall₂_iff_forall (fun m' m hm => ?_) hx.messages.flip
  rw [atZero_iff_of_abbreviated hm]

/-- **An audit of the three forms of the places.**  From the abbreviated form to the catalogue as
it is, and from there to the resolved form, the report only gains findings about lines zero.  It
is the same for all three just when they are not reported, or every message with a resolved line
zero has one in no file. -/
theorem findings_forms (o : Options) (c : Catalogue) :
    let report := fun form : Catalogue => (run o form).findings
    (report c.abbreviate).Sublist (report c) ∧ (report c).Sublist (report c.resolve) ∧
      (∀ form ∈ [c.abbreviate, c.resolve],
        (report form).filter (·.kind ≠ .zeroLine) = (report c).filter (·.kind ≠ .zeroLine)) ∧
      (report c.resolve = report c ∧ report c.abbreviate = report c ↔
        (o.reports .zeroLine = true → ∀ x ∈ c.resolve.contexts, ∀ m ∈ x.messages,
          m.AtZero → ∃ p ∈ m.places, p.file? = none ∧ p.AtZero)) := by
  intro report
  have hshorten : List.Forall₂ (Context.Rewritten fun p q => q.AtZero → p.AtZero)
      c.contexts c.abbreviate.contexts := by
    rw [Catalogue.abbreviate_eq_walk]
    exact Catalogue.rewritten_walk atZero_of_shortenPlace c
  have hlower := (gains_findings (Catalogue.resolve_abbreviate c).symm
    (hshorten.flip.imp fun _ _ hx => hx.reverse fun _ _ => id)).report o
  have hupper := (gains_findings (Catalogue.resolve_resolve c)
    (Catalogue.rewritten_walk atZero_resolvePlace c)).report o
  have hends := (gains_abbreviate_resolve c).report o
  refine ⟨hlower.sublist, hupper.sublist, ?_, ?_⟩
  · simp only [List.forall_mem_cons, List.not_mem_nil, false_implies, implies_true, and_true]
    exact ⟨hlower.others, hupper.others.symm⟩
  · rw [← hends.eq_iff]
    constructor
    · rintro ⟨hresolve, habbreviate⟩
      exact habbreviate.trans hresolve.symm
    · intro (heq : report c.abbreviate = report c.resolve)
      have hback : (report c.resolve).Sublist (report c) := heq ▸ hlower.sublist
      have hresolve := hback.antisymm hupper.sublist
      exact ⟨hresolve, heq.trans hresolve⟩

/-- A message at line zero of a file. -/
def atLineZero : Catalogue where
  contexts := [{ name := "Window", messages := [
    { source := "Open", places := [⟨some "window.cpp", some (.absolute 0)⟩] }] }]

/-- An audit sees a line zero, and not when the place is abbreviated. -/
theorem not_findings_abbreviate :
    ¬ ∀ (o : Options) (c : Catalogue), (run o c.resolve).findings = (run o c).findings ∧
      (run o c.abbreviate).findings = (run o c).findings := fun h =>
  absurd (h {} atLineZero).2 (by decide)

end Audit
end Linguist
