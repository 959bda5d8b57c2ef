import Linguist.Proofs.Audit.Report
import Linguist.Proofs.Catalogue.Address

/-!
# Catalogues without errors

An audit finds errors and warnings.  What it takes for a catalogue to be free of errors can
be said without the audit: inside each context no key repeats, and every message is
*clean*, that is, a message with places has a source text, no place is at line zero, and
the status of the target fits its wording.  The audit finds no error if and only if the
catalogue is of this kind (`count_error_run`).

Languages, markers, the number of plural forms and places that two messages claim have no
part in it, since all findings about them are warnings.

The statement is put together along the recursion of the audit, from the causes at one
message to the findings at all of them; at each step the findings are *harmless*, which
means that none is an error, if and only if a part of the statement holds.
-/

namespace Linguist

/-- The status of a target fits its wording: what is unfinished has no text, and what is
finished has one. -/
structure Target.Settled (t : Target) : Prop where
  unfinished : t.status = .unfinished → t.isEmpty = true
  finished : t.status = .finished → t.isEmpty = false

/-- A message at which an audit finds no error. -/
structure Message.Clean (m : Message) : Prop where
  source : m.places ≠ [] → m.source ≠ ""
  line : ∀ p ∈ m.places, p.line? ≠ some (.absolute 0)
  target : m.target.Settled

/-- A context at which an audit finds no error. -/
structure Context.Clean (x : Context) : Prop where
  keys : (x.messages.map Message.key).Nodup
  messages : ∀ m ∈ x.messages, m.Clean

/-- Clean contexts are distinct if their names are. -/
theorem Distinct.of_clean {xs : List Context} (hnames : (xs.map Context.name).Nodup)
    (h : ∀ x ∈ xs, x.Clean) : Distinct xs :=
  ⟨hnames, fun x hx => (h x hx).keys⟩

namespace Audit

/-! ## One message -/

theorem Severity.ne_error_iff {s : Severity} : s ≠ .error ↔ s = .warning := by
  cases s <;> decide

/-- No cause among these makes an error. -/
def Harmless (causes : List Cause) : Prop :=
  ∀ x ∈ causes, x.kind.severity = .warning

variable {cause : Cause} {condition : Bool}

theorem harmless_append {as bs : List Cause} : Harmless (as ++ bs) ↔ Harmless as ∧ Harmless bs :=
  List.forall_mem_append

/-- A condition for an error has to fail. -/
theorem harmless_causeIf_error (h : cause.kind.severity = .error) :
    Harmless (causeIf condition cause) ↔ condition = false := by
  cases condition with
  | false => exact iff_of_true (fun _ hx => absurd hx List.not_mem_nil) rfl
  | true =>
    refine iff_of_false (fun hharmless => ?_) Bool.noConfusion
    have hwarning := hharmless cause List.mem_cons_self
    rw [h] at hwarning
    cases hwarning

/-- Causes of a kind that is no error. -/
theorem harmless_of_ofKind {k : Kind} {causes : List Cause} (h : OfKind k causes)
    (hk : k.severity = .warning) : Harmless causes := by
  intro x hx
  rw [h x hx, hk]

/-- The status of a target is passed without an error if it fits the wording. -/
theorem harmless_statusCauses (t : Target) : Harmless (statusCauses t) ↔ t.Settled := by
  rw [statusCauses, harmless_append, harmless_causeIf_error rfl, harmless_causeIf_error rfl]
  constructor
  · rintro ⟨hunfinished, hfinished⟩
    refine ⟨fun hstatus => ?_, fun hstatus => ?_⟩
    · simpa [hstatus] using hunfinished
    · simpa [hstatus] using hfinished
  · rintro ⟨hunfinished, hfinished⟩
    refine ⟨?_, ?_⟩
    · by_cases hstatus : t.status = .unfinished
      · simp [hunfinished hstatus]
      · simp [hstatus]
    · by_cases hstatus : t.status = .finished
      · simp [hfinished hstatus]
      · simp [hstatus]

/-- What is said about the wording of a message is never an error. -/
theorem harmless_wordingCauses (rule? : Option PluralRule) (m : Message) :
    Harmless (if m.target.status.isActive && !m.target.isEmpty then
      markerCauses m.source m.target.wording ++ formCauses rule? m.target.wording else []) := by
  split
  · exact harmless_append.2 ⟨harmless_of_ofKind (ofKind_markerCauses _ _) rfl,
      harmless_of_ofKind (ofKind_formCauses _ _) rfl⟩
  · exact fun _ hx => absurd hx List.not_mem_nil

/-- **The causes at one message:** it does not repeat a key, and it is clean. -/
theorem harmless_messageCauses (rule? : Option PluralRule) (repeats : Bool) (m : Message) :
    Harmless (messageCauses rule? repeats m) ↔ repeats = false ∧ m.Clean := by
  rw [messageCauses, harmless_append, and_iff_left (harmless_wordingCauses rule? m),
    harmless_append, harmless_append, harmless_append, harmless_causeIf_error rfl,
    harmless_causeIf_error rfl, harmless_causeIf_error rfl, harmless_statusCauses]
  constructor
  · rintro ⟨⟨⟨hsource, hrepeats⟩, hline⟩, htarget⟩
    refine ⟨hrepeats, ⟨fun hplaces hempty => ?_, fun p hp hzero => ?_, htarget⟩⟩
    · simp [hplaces, hempty] at hsource
    · exact absurd (by simpa using hzero) (List.any_eq_false.1 hline p hp)
  · rintro ⟨hrepeats, hsource, hline, htarget⟩
    refine ⟨⟨⟨?_, hrepeats⟩, ?_⟩, htarget⟩
    · by_cases hplaces : m.places = []
      · simp [hplaces]
      · simpa [hplaces] using hsource hplaces
    · exact List.any_eq_false.2 fun p hp => by simpa using hline p hp

/-! ## All messages -/

/-- Findings are as grave as their causes. -/
theorem forall_severity_map {causes : List Cause} {context? source? : Option String} :
    (∀ f ∈ causes.map (⟨·, context?, source?⟩ : Cause → Finding), f.severity = .warning) ↔
      Harmless causes :=
  List.forall_mem_map

/-- **From one message to the messages of a context.**  If the causes at a message have a
property just when its key does not repeat and the message is as it should be, then the
findings at messages have it just when no key is among those seen or repeats and all the
messages are as they should be. -/
theorem forall_messageFindings {rule? : Option PluralRule} {P : Cause → Prop}
    {Q : Message → Prop}
    (hmessage : ∀ repeats m, (∀ x ∈ messageCauses rule? repeats m, P x) ↔ repeats = false ∧ Q m)
    (context : String) (seen : List Message.Key) (ms : List Message) :
    (∀ f ∈ messageFindings rule? context seen ms, P f.cause) ↔
      (∀ m ∈ ms, m.key ∉ seen) ∧ (ms.map Message.key).Nodup ∧ ∀ m ∈ ms, Q m := by
  induction ms generalizing seen with
  | nil => simp [messageFindings]
  | cons m ms ih =>
    have hseen : seen.contains m.key = false ↔ m.key ∉ seen := by
      rw [← List.contains_iff_mem, Bool.not_eq_true]
    rw [messageFindings, List.forall_mem_append, List.forall_mem_map, hmessage, ih,
      hseen, List.forall_mem_cons, List.map_cons, List.nodup_cons, List.forall_mem_cons]
    constructor
    · rintro ⟨⟨hm, hclean⟩, hms, hkeys, hrest⟩
      refine ⟨⟨hm, fun m' hm' => ?_⟩, ⟨fun hmem => ?_, hkeys⟩, hclean, hrest⟩
      · exact fun hmem => hms m' hm' (List.mem_cons_of_mem _ hmem)
      · obtain ⟨m', hm', hsame⟩ := List.mem_map.1 hmem
        exact hms m' hm' (hsame ▸ List.mem_cons_self)
    · rintro ⟨⟨hm, hms⟩, ⟨hnew, hkeys⟩, hclean, hrest⟩
      refine ⟨⟨hm, hclean⟩, fun m' hm' hmem => ?_, hkeys, hrest⟩
      rcases List.mem_cons.1 hmem with hsame | hmem
      · exact hnew (hsame ▸ List.mem_map_of_mem hm')
      · exact hms m' hm' hmem

theorem severity_conflictFindings (owners : List Owner) (ms : List (String × Message)) :
    ∀ f ∈ conflictFindings owners ms, f.severity = .warning := by
  intro f hf
  rw [Finding.severity, kind_conflictFindings owners ms f hf]
  rfl

theorem harmless_languageCauses (c : Catalogue) : Harmless (languageCauses c) :=
  harmless_of_ofKind (ofKind_languageCauses c) rfl

/-- All findings are warnings if and only if every context is clean. -/
theorem forall_findings (c : Catalogue) :
    (∀ f ∈ findings c, f.severity = .warning) ↔ ∀ x ∈ c.contexts, x.Clean := by
  have hlanguages : ∀ f ∈ (languageCauses c).map (⟨·, none, none⟩ : Cause → Finding),
      f.severity = .warning := forall_severity_map.2 (harmless_languageCauses c)
  have hconflicts := severity_conflictFindings [] c.resolve.messages
  rw [findings, List.forall_mem_append, List.forall_mem_append, and_iff_left hconflicts,
    and_iff_right hlanguages, List.forall_mem_flatMap]
  refine forall₂_congr fun x _ => ?_
  refine (forall_messageFindings (harmless_messageCauses _) x.name [] x.messages).trans ?_
  exact ⟨fun h => ⟨h.2.1, h.2.2⟩, fun h => ⟨fun _ _ => List.not_mem_nil, h.keys, h.messages⟩⟩

/-! ## The audit -/

/-- Errors are reported unless they are ignored. -/
theorem reports_of_error {o : Options} {k : Kind} (ho : o.ignore = []) (hk : k.severity = .error) :
    o.reports k = true := by
  have hmarker : k ≠ .markerMismatch := by
    rintro rfl
    cases hk
  simp [Options.reports, ho, hmarker]

/-- **An audit that ignores nothing finds no error if and only if every context is clean.** -/
theorem count_error_run {o : Options} (ho : o.ignore = []) (c : Catalogue) :
    (run o c).count .error = 0 ↔ ∀ x ∈ c.contexts, x.Clean := by
  rw [← forall_findings, Report.count, findings_run, Options.reported, List.countP_filter,
    List.countP_eq_zero]
  refine forall₂_congr fun f _ => ?_
  rw [← Severity.ne_error_iff]
  refine ⟨fun h hsevere => h ?_, fun h hsevere => h ?_⟩
  · rw [Bool.and_eq_true, beq_iff_eq]
    exact ⟨hsevere, reports_of_error ho hsevere⟩
  · rw [Bool.and_eq_true, beq_iff_eq] at hsevere
    exact hsevere.1

/-! ## Repeated messages

That a message repeats another one is said of it just when its key stands earlier in the same
list of messages.  So an audit that ignores nothing says it of no message if and only if the
keys of each context are without repetition, whatever else it finds. -/

/-- What is only a warning is not that a message repeats another one. -/
theorem ne_duplicateMessage_of_warning {k : Kind} (h : k.severity = .warning) :
    k ≠ .duplicateMessage := by
  rintro rfl
  cases h

/-- Among the causes at a message is that it repeats another one just when it does. -/
theorem forall_ne_duplicateMessage (rule? : Option PluralRule) (repeats : Bool) (m : Message) :
    (∀ x ∈ messageCauses rule? repeats m, x.kind ≠ .duplicateMessage) ↔
      repeats = false ∧ True := by
  have hsource : ∀ x ∈ causeIf (!m.places.isEmpty && m.source.isEmpty) .emptySource,
      x.kind ≠ .duplicateMessage := forall_causeIf.2 fun _ => nofun
  have hline : ∀ x ∈ causeIf (m.places.any fun p => p.line? == some (.absolute 0)) .zeroLine,
      x.kind ≠ .duplicateMessage := forall_causeIf.2 fun _ => nofun
  have hstatus : ∀ x ∈ statusCauses m.target, x.kind ≠ .duplicateMessage :=
    List.forall_mem_append.2 ⟨forall_causeIf.2 fun _ => nofun, forall_causeIf.2 fun _ => nofun⟩
  have hwording := fun x hx => ne_duplicateMessage_of_warning (harmless_wordingCauses rule? m x hx)
  rw [messageCauses, List.forall_mem_append, and_iff_left hwording, List.forall_mem_append,
    and_iff_left hstatus, List.forall_mem_append, and_iff_left hline, List.forall_mem_append,
    and_iff_right hsource, forall_causeIf, and_true]
  cases repeats <;> simp [Cause.kind]

/-- **No message is found to repeat another one if and only if no key repeats in a context.** -/
theorem forall_kind_findings (c : Catalogue) :
    (∀ f ∈ findings c, f.kind ≠ .duplicateMessage) ↔
      ∀ x ∈ c.contexts, (x.messages.map Message.key).Nodup := by
  have hlanguages : ∀ f ∈ (languageCauses c).map (⟨·, none, none⟩ : Cause → Finding),
      f.kind ≠ .duplicateMessage := fun f hf =>
    ne_duplicateMessage_of_warning (forall_severity_map.2 (harmless_languageCauses c) f hf)
  have hconflicts : ∀ f ∈ conflictFindings [] c.resolve.messages, f.kind ≠ .duplicateMessage :=
    fun f hf => ne_duplicateMessage_of_warning (severity_conflictFindings [] _ f hf)
  rw [findings, List.forall_mem_append, List.forall_mem_append, and_iff_left hconflicts,
    and_iff_right hlanguages, List.forall_mem_flatMap]
  refine forall₂_congr fun x _ => ?_
  refine (forall_messageFindings (forall_ne_duplicateMessage _) x.name [] x.messages).trans ?_
  exact ⟨fun h => h.2.1, fun h => ⟨fun _ _ => List.not_mem_nil, h, fun _ _ => trivial⟩⟩

/-- Nothing of this is left out of the report of an audit that ignores nothing. -/
theorem forall_kind_run {o : Options} (ho : o.ignore = []) (c : Catalogue) :
    (∀ f ∈ (run o c).findings, f.kind ≠ .duplicateMessage) ↔
      ∀ x ∈ c.contexts, (x.messages.map Message.key).Nodup := by
  rw [← forall_kind_findings, findings_run]
  constructor
  · intro h f hf hkind
    have hreports : o.reports f.kind = true := reports_of_error ho (by rw [hkind]; rfl)
    exact h f (List.mem_filter.2 ⟨hf, hreports⟩) hkind
  · intro h f hf
    exact h f (List.mem_filter.1 hf).1

end Audit
end Linguist
