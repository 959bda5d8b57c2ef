import Linguist.Proofs.Audit
import Linguist.Proofs.Phrasebook

/-!
# Counts and forms

A count is shown in the form that the rule of the language gives it.  Rule and wording come
from different places: the rule from the language of the catalogue, the forms from whoever
worked on the message.  A form may be missing, and then the last one stands in, or it may be
empty, and then nothing is shown.

Neither happens to a message that an audit has no complaint about.  A rule gives no count a form
beyond those it has (`PluralRule.formIndex_lt_formCount`), the audit compares the number of
forms with the same rule (`Audit.length_eq_formCount`), and so the form that a count takes is
there (`Phrasebook.countedText?_of_audit`).

## No forms at all

What the audit says of a wording, it says only if the wording has a text.  A finished message
without any forms is empty, and is found to be so, but not to have too few forms.  Every one of
its forms has a text, for there are none, and nothing is shown of it (`not_served_formless`).
-/

namespace Linguist

/-! ## Rules -/

namespace PluralRule

theorem formOf_lt_formCount (n : Nat) (rule : PluralRule) : formOf n rule < rule.formCount := by
  fun_cases formOf n rule <;> simp only [formCount] <;> omega

/-- **No count takes a form that the rule does not have.** -/
theorem formIndex_lt_formCount (rule : PluralRule) (n : Int) :
    rule.formIndex n < rule.formCount :=
  formOf_lt_formCount n.natAbs rule

end PluralRule

/-! ## The audit -/

namespace Audit

variable {rule? : Option PluralRule} {cause : Cause}

/-- A cause at a message is found there, whether the message repeats another one or not. -/
theorem mem_messageFindings {m : Message} {ms : List Message} (hm : m ∈ ms)
    (h : ∀ repeats, cause ∈ messageCauses rule? repeats m) (context : String)
    (seen : List Message.Key) :
    ⟨cause, some context, some m.source⟩ ∈ messageFindings rule? context seen ms := by
  induction ms generalizing seen with
  | nil => cases hm
  | cons m' ms ih =>
    rw [messageFindings, List.mem_append]
    rcases List.mem_cons.1 hm with rfl | hm
    · exact Or.inl (List.mem_map_of_mem (h _))
    · exact Or.inr (ih hm _)

/-- What an audit that ignores nothing says of the forms of a message, it reports. -/
theorem mem_run_of_mem_formCauses {c : Catalogue} {x : Context} {m : Message}
    (hx : x ∈ c.contexts) (hm : m ∈ x.messages) (hactive : m.target.status.isActive = true)
    (htext : m.target.isEmpty = false)
    (h : cause ∈ formCauses (c.language?.map .ofLanguage) m.target.wording) :
    ⟨cause, some x.name, some m.source⟩ ∈ (run {} c).findings := by
  have hcauses : ∀ repeats, cause ∈ messageCauses (c.language?.map .ofLanguage) repeats m := by
    intro repeats
    rw [messageCauses, hactive, htext]
    exact List.mem_append_right _ (List.mem_append_right _ h)
  rw [findings_run_default, findings, List.mem_append, List.mem_append, List.mem_flatMap]
  exact Or.inl (Or.inr ⟨x, hx, mem_messageFindings hm hcauses x.name []⟩)

/-- **A wording with a text has as many forms as its language** if no finding says that it has
not. -/
theorem length_eq_formCount {c : Catalogue} {x : Context} {m : Message} {forms : List String}
    {rule : PluralRule} (hrule : c.language?.map .ofLanguage = some rule) (hx : x ∈ c.contexts)
    (hm : m ∈ x.messages) (hactive : m.target.status.isActive = true)
    (htext : m.target.isEmpty = false) (hforms : m.target.wording = .plural forms)
    (haudit : ⟨.formCount forms.length rule.formCount, some x.name, some m.source⟩ ∉
      (run {} c).findings) : forms.length = rule.formCount := by
  by_contra hne
  refine haudit (mem_run_of_mem_formCauses hx hm hactive htext ?_)
  rw [hrule, hforms, formCauses, causeIf, if_pos (bne_iff_ne.2 hne)]
  exact List.mem_singleton.2 rfl

end Audit

/-! ## What is shown -/

namespace Phrasebook

/-- Taking messages over does not change the rule. -/
theorem rule_load (b : Phrasebook) (c : Catalogue) :
    (b.load c).rule = (b.setLanguage c.language?).rule := by
  have hload : b.load c = c.messages.foldl (fun b p => b.addMessage p.1 p.2)
      (b.setLanguage c.language?) := rfl
  rw [hload, foldl_addMessage]

/-- The rule of a phrasebook is that of the language of its catalogue. -/
theorem rule_ofCatalogue {c : Catalogue} {rule : PluralRule} (includeUnfinished : Bool)
    (h : c.language?.map .ofLanguage = some rule) :
    (ofCatalogue includeUnfinished c).rule = rule := by
  obtain ⟨language, hlanguage, rfl⟩ := Option.map_eq_some_iff.1 h
  rw [ofCatalogue, rule_load, hlanguage, setLanguage]

/-- A finished wording with forms, none of which is empty, may be served. -/
theorem servable_of_plural {m : Message} {forms : List String}
    (hm : m.target = ⟨.finished, .plural forms⟩) (hne : forms ≠ [])
    (hforms : ∀ form ∈ forms, form ≠ "") (includeUnfinished : Bool) :
    Servable includeUnfinished m := by
  obtain ⟨form, hform⟩ := List.exists_mem_of_ne_nil forms hne
  refine ⟨?_, Or.inl (by rw [hm])⟩
  rw [hm, Target.isEmpty, Wording.isEmpty, Wording.all, List.all_eq_false]
  exact ⟨form, hform, by simpa using hforms form hform⟩

theorem countedForm?_plural {rule : PluralRule} {n : Int} {forms : List String}
    (h : rule.formIndex n < forms.length) (hforms : ∀ form ∈ forms, form ≠ "") :
    countedForm? rule n (.plural forms) = some forms[rule.formIndex n] := by
  rw [countedForm?, List.getElem?_eq_getElem h, Option.some_or, Option.filter_some,
    if_pos (by simpa using hforms _ (List.getElem_mem h))]

/-- **Every count is shown in its form.**  No rule gives a count a form that it does not have;
and a finished message with forms, none of them empty and not found by an audit to be of the
wrong number, is shown with each count in the form that the language of the catalogue gives the
count. -/
theorem countedText?_of_audit :
    (∀ (rule : PluralRule) (n : Int), rule.formIndex n < rule.formCount) ∧
    ∀ {c : Catalogue} {rule : PluralRule}, c.language?.map .ofLanguage = some rule →
      Distinct c.contexts → ∀ x ∈ c.contexts, ∀ m ∈ x.messages, ∀ forms,
        m.target = ⟨.finished, .plural forms⟩ → forms ≠ [] → (∀ form ∈ forms, form ≠ "") →
        ⟨.formCount forms.length rule.formCount, some x.name, some m.source⟩ ∉
          (Audit.run {} c).findings →
        ∀ (includeUnfinished : Bool) (n : Int), ∃ h : rule.formIndex n < forms.length,
          (ofCatalogue includeUnfinished c).countedText? x.name m.source m.comment? n =
            some (Template.fillCount forms[rule.formIndex n] n) := by
  refine ⟨PluralRule.formIndex_lt_formCount, ?_⟩
  intro c rule hrule hdistinct x hx m hm forms htarget hne hforms haudit includeUnfinished n
  have hservable := servable_of_plural htarget hne hforms includeUnfinished
  have hlength : forms.length = rule.formCount :=
    Audit.length_eq_formCount hrule hx hm (by rw [htarget]; rfl) hservable.1 (by rw [htarget])
      haudit
  have hlt : rule.formIndex n < forms.length := hlength ▸ rule.formIndex_lt_formCount n
  have hentry : entry? (ofCatalogue includeUnfinished c) (x.name, .of m.source m.comment?) =
      some (.plural forms) := by
    have hentry := entry?_ofCatalogue hdistinct
      (List.mem_flatMap.2 ⟨x, hx, List.mem_map_of_mem hm⟩) hservable
    rwa [htarget] at hentry
  refine ⟨hlt, ?_⟩
  rw [countedText?, wording?, hentry, Option.some_or, Option.bind_some,
    rule_ofCatalogue includeUnfinished hrule, countedForm?_plural hlt hforms, Option.map_some]

/-- A catalogue in a language with three forms.  A text stands there twice, under a comment with
all of its forms, and under none with too few. -/
def shelves : Catalogue where
  language? := some "ru_RU"
  contexts := [
    { name := "Shelf", messages := [
      { source := "%n book(s)", isPlural := true, comment? := some "lent",
        target := ⟨.finished, .plural ["%n kniga", "%n knigi", "%Ln knig (%n)"]⟩ },
      { source := "%n book(s)", isPlural := true,
        target := ⟨.finished, .plural ["%n kniga"]⟩ }] },
    { name := "Desk" }]

theorem shelves_countedText? :
    (⟨.formCount 1 3, some "Shelf", some "%n book(s)"⟩ ∈ (Audit.run {} shelves).findings) ∧
      (ofCatalogue false shelves).countedText? "Shelf" "%n book(s)" (some "lent")
          (-9223372036854775808) =
        some "-9223372036854775808 knig (-9223372036854775808)" := by
  refine ⟨by decide +kernel, ?_⟩
  have hrule : shelves.language?.map .ofLanguage = some PluralRule.slavic := by decide +kernel
  obtain ⟨h, hshown⟩ := countedText?_of_audit.2 hrule (by decide +kernel) _ List.mem_cons_self
    _ List.mem_cons_self _ rfl (by decide) (by decide) (by decide +kernel) false
    (-9223372036854775808)
  refine hshown.trans ?_
  decide +revert +kernel

/-- A finished message without forms. -/
def formless : Catalogue where
  language? := some "en"
  contexts := [{ name := "Q", messages := [
    { source := "a", isPlural := true, target := ⟨.finished, .plural []⟩ }] }]

/-- **A message without forms is not shown,** although none of its forms is empty, and no finding
is about their number. -/
theorem not_served_formless :
    ¬ ∀ {c : Catalogue} {rule : PluralRule}, c.language?.map .ofLanguage = some rule →
      Distinct c.contexts → ∀ x ∈ c.contexts, ∀ m ∈ x.messages, ∀ forms,
        m.target = ⟨.finished, .plural forms⟩ → (∀ form ∈ forms, form ≠ "") →
        (∀ f ∈ (Audit.run {} c).findings, f.kind ≠ .formCount) →
        ∀ (includeUnfinished : Bool) (n : Int), ∃ form ∈ forms[rule.formIndex n]?,
          (ofCatalogue includeUnfinished c).countedText? x.name m.source m.comment? n =
            some (Template.fillCount form n) := by
  intro h
  have hrule : formless.language?.map .ofLanguage = some PluralRule.oneOther := by decide +kernel
  obtain ⟨form, hform, -⟩ := h hrule (by decide +kernel) _ List.mem_cons_self
    _ List.mem_cons_self [] rfl nofun (by decide +kernel) false 0
  cases hform

end Phrasebook
end Linguist
