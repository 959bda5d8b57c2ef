import Linguist.Audit

/-!
# What an audit reports

An audit with options goes through all checks once and reports on its way.  Options are asked
in two places that have little to do with each other: every finding is dropped or kept by its
kind when it turns up, and a whole check, the one of the markers, is left out inside the part
that is gone through only for a wording in use.  Still they only choose: the report is the full
account of the catalogue without the kinds that are not reported (`findings_run`), in the same
order, and so the report of an audit without options, filtered (`options_filter`).

The argument is that each part of an audit adds to whatever was reported before it, and what
it adds are the reported ones of the findings it is about (`Collects`).  This is put together
along the steps of the audit; at each step there are two things to see, which findings it is
about and that none of them is about markers, apart from the step that compares markers.
-/

namespace Linguist
namespace Audit

/-! ## Kinds of causes -/

/-- Every cause among these is of this kind. -/
def OfKind (k : Kind) (causes : List Cause) : Prop :=
  ∀ x ∈ causes, x.kind = k

theorem forall_causeIf {P : Cause → Prop} {condition : Bool} {cause : Cause} :
    (∀ x ∈ causeIf condition cause, P x) ↔ (condition = true → P cause) := by
  cases condition <;> simp [causeIf]

theorem ofKind_causeIf (condition : Bool) (cause : Cause) :
    OfKind cause.kind (causeIf condition cause) :=
  forall_causeIf.2 fun _ => rfl

theorem ofKind_markerCauses (source : String) (w : Wording) :
    OfKind .markerMismatch (markerCauses source w) := by
  intro x hx
  obtain ⟨s, -, hx⟩ := List.mem_flatMap.1 hx
  exact ofKind_causeIf _ (.markerMismatch s _ _) x hx

theorem ofKind_formCauses (rule? : Option PluralRule) (w : Wording) :
    OfKind .formCount (formCauses rule? w) := by
  unfold formCauses
  split
  · exact ofKind_causeIf _ (.formCount _ _)
  · exact fun _ hx => absurd hx List.not_mem_nil

theorem ofKind_languageCauses (c : Catalogue) : OfKind .invalidLanguage (languageCauses c) := by
  intro x hx
  obtain ⟨⟨role, language?⟩, -, hx⟩ := List.mem_filterMap.1 hx
  obtain ⟨language, -, hx⟩ := Option.bind_eq_some_iff.1 hx
  split at hx
  · cases hx
  · rw [← Option.some.inj hx]
    rfl

theorem kind_placeFindings (context source : String) (owners : List Owner) (ps : List Place) :
    ∀ f ∈ (placeFindings context source owners ps).1, f.kind = .conflictingPlace := by
  fun_induction placeFindings context source owners ps with
  | case1 => exact fun _ hf => absurd hf List.not_mem_nil
  | case2 _ _ _ _ _ _ _ _ _ hrest _ ih =>
    rw [hrest] at ih
    exact ih
  | case3 _ _ _ _ _ _ _ _ _ _ _ hrest _ ih =>
    rw [hrest] at ih
    exact List.forall_mem_cons.2 ⟨rfl, ih⟩
  | case4 _ _ _ _ _ _ _ _ ih => exact ih
  | case5 _ _ _ _ ih => exact ih

theorem kind_conflictFindings (owners : List Owner) (ms : List (String × Message)) :
    ∀ f ∈ conflictFindings owners ms, f.kind = .conflictingPlace := by
  induction ms generalizing owners with
  | nil => exact fun _ hf => absurd hf List.not_mem_nil
  | cons m ms ih =>
    rw [conflictFindings, List.forall_mem_append]
    exact ⟨kind_placeFindings m.1 m.2.source owners m.2.places, ih _⟩

/-! ## Parts of an audit -/

/-- The findings that are reported. -/
def Options.reported (o : Options) (fs : List Finding) : List Finding :=
  fs.filter fun f => o.reports f.kind

variable {o : Options} {x y : Inspection Unit} {fs gs : List Finding} {f : Finding}

/-- After a part of an audit, what was reported before is followed by the reported ones of
these findings. -/
def Collects (o : Options) (x : Inspection Unit) (fs : List Finding) : Prop :=
  ∀ found : Array Finding, (x.run found).2.toList = found.toList ++ o.reported fs

theorem collects_nothing : Collects o (pure ()) [] := fun found =>
  (List.append_nil found.toList).symm

theorem Collects.append (hx : Collects o x fs) (hy : Collects o y gs) :
    Collects o (do x; y) (fs ++ gs) := by
  intro found
  have hrun : ((do x; y : Inspection Unit).run found).2 = (y.run (x.run found).2).2 := rfl
  rw [hrun, hy, hx, Options.reported, Options.reported, Options.reported, List.filter_append,
    List.append_assoc]

theorem collects_forM {ι : Type} {part : ι → Inspection Unit} {about : ι → List Finding}
    {is : List ι} (h : ∀ i ∈ is, Collects o (part i) (about i)) :
    Collects o (is.forM part) (is.flatMap about) := by
  induction is with
  | nil => exact collects_nothing
  | cons i is ih =>
    rw [List.flatMap_cons]
    exact (h i List.mem_cons_self).append (ih fun j hj => h j (List.mem_cons_of_mem i hj))

/-- A finding is noted as the options say, if it is not about markers or markers are to be
compared: the note itself does not ask for that. -/
theorem collects_note (hf : f.kind = .markerMismatch → o.checkMarkers = true) :
    Collects o (o.note f) [f] := by
  have hreports : o.reports f.kind = !o.ignore.contains f.kind := by
    rw [Options.reports]
    by_cases hkind : f.kind = .markerMismatch
    · rw [hf hkind, Bool.true_or, Bool.and_true]
    · rw [bne_iff_ne.2 hkind, Bool.or_true, Bool.and_true]
  intro found
  rw [Options.note, Options.reported]
  cases hignored : o.ignore.contains f.kind with
  | true =>
    rw [List.filter_cons_of_neg (by rw [hreports, hignored]; decide), List.filter_nil,
      List.append_nil]
    rfl
  | false =>
    rw [List.filter_cons_of_pos (by rw [hreports, hignored]; rfl), List.filter_nil,
      ← Array.toList_push]
    rfl

/-- Causes that are noted one after another. -/
theorem collects_noteAll {causes : List Cause}
    (hcauses : ∀ x ∈ causes, x.kind = .markerMismatch → o.checkMarkers = true)
    (context? source? : Option String) :
    Collects o (o.noteAll context? source? causes) (causes.map (⟨·, context?, source?⟩)) := by
  rw [List.map_eq_flatMap]
  exact collects_forM fun cause hcause => collects_note (hcauses cause hcause)

/-- Causes none of which is about markers. -/
theorem collects_unmarked {causes : List Cause} (hcauses : ∀ x ∈ causes, x.kind ≠ .markerMismatch)
    (context? source? : Option String) :
    Collects o (o.noteAll context? source? causes) (causes.map (⟨·, context?, source?⟩)) :=
  collects_noteAll (fun x hx hmarker => absurd hmarker (hcauses x hx)) context? source?

/-! ## The whole audit -/

/-- Nothing about markers is reported if they are not to be compared. -/
theorem reported_markerCauses (ho : o.checkMarkers = false) (source : String) (w : Wording)
    (context? source? : Option String) :
    o.reported ((markerCauses source w).map (⟨·, context?, source?⟩)) = [] := by
  rw [Options.reported, List.filter_eq_nil_iff, List.forall_mem_map]
  intro x hx
  have hkind : Finding.kind ⟨x, context?, source?⟩ = .markerMismatch :=
    ofKind_markerCauses source w x hx
  simp [hkind, Options.reports, ho]

theorem collects_markerCauses (o : Options) (source : String) (w : Wording)
    (context? source? : Option String) :
    Collects o (o.noteAll context? source? (if o.checkMarkers then markerCauses source w else []))
      ((markerCauses source w).map (⟨·, context?, source?⟩)) := by
  cases hcheck : o.checkMarkers with
  | true => exact collects_noteAll (fun _ _ _ => hcheck) context? source?
  | false =>
    intro found
    rw [reported_markerCauses hcheck, List.append_nil]
    rfl

theorem collects_causeIf (condition : Bool) {cause : Cause} (hcause : cause.kind ≠ .markerMismatch)
    (context? source? : Option String) :
    Collects o (o.noteAll context? source? (causeIf condition cause))
      ((causeIf condition cause).map (⟨·, context?, source?⟩)) :=
  collects_unmarked (forall_causeIf.2 fun _ => hcause) context? source?

/-- **One message.**  What is looked at does not depend on what is reported. -/
theorem collects_inspectMessage (o : Options) (rule? : Option PluralRule) (context : String)
    (repeats : Bool) (m : Message) :
    Collects o (inspectMessage o rule? context repeats m)
      ((messageCauses rule? repeats m).map (⟨·, some context, some m.source⟩)) := by
  have hstatus : ∀ x ∈ statusCauses m.target, x.kind ≠ .markerMismatch :=
    List.forall_mem_append.2 ⟨forall_causeIf.2 fun _ => nofun, forall_causeIf.2 fun _ => nofun⟩
  have hforms : ∀ x ∈ formCauses rule? m.target.wording, x.kind ≠ .markerMismatch := by
    intro x hx
    rw [ofKind_formCauses rule? _ x hx]
    decide
  rw [messageCauses, List.map_append, List.map_append, List.map_append, List.map_append,
    List.append_assoc, List.append_assoc, List.append_assoc]
  refine (collects_causeIf _ (by nofun) _ _).append <| (collects_causeIf _ (by nofun) _ _).append <|
    (collects_causeIf _ (by nofun) _ _).append <| (collects_unmarked hstatus _ _).append ?_
  split
  · rw [List.map_append]
    exact (collects_markerCauses o _ _ _ _).append (collects_unmarked hforms _ _)
  · exact collects_nothing

theorem collects_inspectMessages (o : Options) (rule? : Option PluralRule) (context : String)
    (seen : List Message.Key) (ms : List Message) :
    Collects o (inspectMessages o rule? context seen ms)
      (messageFindings rule? context seen ms) := by
  induction ms generalizing seen with
  | nil => exact collects_nothing
  | cons m ms ih => exact (collects_inspectMessage o rule? context _ m).append (ih _)

/-- **A catalogue,** from its languages to its places. -/
theorem collects_inspect (o : Options) (c : Catalogue) :
    Collects o (inspect o c) (findings c) := by
  have hlanguages : ∀ x ∈ languageCauses c, x.kind ≠ .markerMismatch := by
    intro x hx
    rw [ofKind_languageCauses c x hx]
    decide
  have hconflicts : Collects o ((conflictFindings [] c.resolve.messages).forM o.note)
      (conflictFindings [] c.resolve.messages) := by
    have hnote : ∀ f ∈ conflictFindings [] c.resolve.messages, Collects o (o.note f) [f] := by
      intro f hf
      refine collects_note ?_
      rw [kind_conflictFindings [] _ f hf]
      exact nofun
    have hall := collects_forM hnote
    rwa [← List.map_eq_flatMap, List.map_id'] at hall
  rw [findings, List.append_assoc]
  exact (collects_unmarked hlanguages none none).append <|
    (collects_forM fun x _ => collects_inspectMessages o _ x.name [] x.messages).append hconflicts

/-- **An audit reports of its full account what its options report.** -/
theorem findings_run (o : Options) (c : Catalogue) :
    (run o c).findings = o.reported (findings c) :=
  collects_inspect o c #[]

/-! ## Options -/

/-- Without options everything is reported. -/
theorem findings_run_default (c : Catalogue) : (run {} c).findings = findings c := by
  rw [findings_run, Options.reported, List.filter_eq_self]
  intro f _
  rw [Options.reports]
  simp

/-- What the options report, in words. -/
theorem reports_iff {k : Kind} : o.reports k = true ↔
    k ∉ o.ignore ∧ (k = .markerMismatch → o.checkMarkers = true) := by
  rw [Options.reports, Bool.and_eq_true, Bool.not_eq_true', ← Bool.not_eq_true,
    List.contains_iff_mem, Bool.or_eq_true, bne_iff_ne]
  refine and_congr_right fun _ => ⟨fun h hk => h.resolve_right fun hne => hne hk, fun h => ?_⟩
  exact (Classical.em (k = .markerMismatch)).imp h id

namespace Report

/-- Errors fail an audit, and so does any finding if warnings are denied. -/
theorem failing_eq (r : Report) :
    r.failing = r.findings.filter fun f => f.severity = .error ∨ r.denyWarnings = true := by
  rw [failing]
  refine List.filter_congr fun f _ => ?_
  rw [Bool.decide_or, Bool.decide_eq_true]
  rfl

theorem failing_ne_nil_iff (r : Report) : r.failing ≠ [] ↔
    (∃ f ∈ r.findings, f.severity = .error) ∨ (r.denyWarnings = true ∧ r.findings ≠ []) := by
  rw [failing_eq]
  constructor
  · intro hne
    obtain ⟨f, hf⟩ := List.exists_mem_of_ne_nil _ hne
    rw [List.mem_filter, decide_eq_true_iff] at hf
    rcases hf with ⟨hmem, herror | hdeny⟩
    · exact Or.inl ⟨f, hmem, herror⟩
    · exact Or.inr ⟨hdeny, List.ne_nil_of_mem hmem⟩
  · rintro (⟨f, hmem, herror⟩ | ⟨hdeny, hne⟩)
    · exact List.ne_nil_of_mem (List.mem_filter.2 ⟨hmem, decide_eq_true (Or.inl herror)⟩)
    · obtain ⟨f, hmem⟩ := List.exists_mem_of_ne_nil _ hne
      exact List.ne_nil_of_mem (List.mem_filter.2 ⟨hmem, decide_eq_true (Or.inr hdeny)⟩)

variable {r accepted : Report} {fault : Fault}

/-- An audit is refused with the findings that fail it. -/
theorem accept_eq_error_iff :
    r.accept = .error fault ↔ r.failing ≠ [] ∧ fault = .rejected (r.failing.map Finding.text) := by
  rw [accept, hasErrors]
  cases r.failing with
  | nil => simp
  | cons f fs => simp [eq_comm]

/-- An audit that nothing fails is accepted as it is. -/
theorem accept_eq_ok_iff : r.accept = .ok accepted ↔ r.failing = [] ∧ accepted = r := by
  rw [accept, hasErrors]
  cases r.failing with
  | nil => simp [eq_comm]
  | cons f fs => simp

/-- What is said of a refusal: how many findings fail the audit, and which. -/
theorem message_of_accept (h : r.accept = .error fault) : fault.message =
    "validation error: " ++ String.ofList (Text.decimal r.failing.length) ++ " issue(s):\n" ++
      String.intercalate "\n" (r.failing.map Finding.text) := by
  have hlength : (r.failing.map Finding.text).length = r.failing.length := List.length_map _
  obtain ⟨-, rfl⟩ := accept_eq_error_iff.1 h
  rw [← hlength]
  rfl

end Report

/-- **Options choose among the findings.**  An audit with options reports what one without them
reports, less the ignored kinds, and less the markers if they are not to be compared.  It is
refused just when an error is among the rest, or anything at all if warnings are denied; the
refusal then lists what failed it, line by line, and else the report is accepted as it is. -/
theorem options_filter (o : Options) (c : Catalogue) :
    let report := run o c
    let failing := report.findings.filter fun f => f.severity = .error ∨ o.denyWarnings = true
    report.findings = (run {} c).findings.filter (fun f =>
        f.kind ∉ o.ignore ∧ (f.kind = .markerMismatch → o.checkMarkers = true)) ∧
      ((∃ fault, report.accept = .error fault) ↔
        (∃ f ∈ report.findings, f.severity = .error) ∨
          (o.denyWarnings = true ∧ report.findings ≠ [])) ∧
      (∀ fault, report.accept = .error fault → fault.message =
        "validation error: " ++ String.ofList (Text.decimal failing.length) ++ " issue(s):\n" ++
          String.intercalate "\n" (failing.map Finding.text)) ∧
      ∀ accepted, report.accept = .ok accepted → accepted = report := by
  intro report failing
  have hfailing : report.failing = failing := report.failing_eq
  refine ⟨?_, ?_, ?_, fun accepted hok => (Report.accept_eq_ok_iff.1 hok).2⟩
  · rw [findings_run_default, findings_run, Options.reported]
    refine List.filter_congr fun f _ => ?_
    rw [Bool.eq_iff_iff, reports_iff, decide_eq_true_iff]
  · refine Iff.trans ⟨?_, ?_⟩ report.failing_ne_nil_iff
    · rintro ⟨fault, hfault⟩
      exact (Report.accept_eq_error_iff.1 hfault).1
    · exact fun hne => ⟨_, Report.accept_eq_error_iff.2 ⟨hne, rfl⟩⟩
  · rw [← hfailing]
    exact fun fault => Report.message_of_accept

end Audit
end Linguist
