import Linguist.Proofs.Audit

/-!
# Places that two texts claim

An audit goes once along the resolved places and remembers for each line of a file the text that
claimed it first.  It compares a claim with the first one at its line only, and still no conflict
escapes it: of two different texts at one line at least one is not the first text there, wherever
the messages stand and whatever stands between them.

## Claims

What the walk sees of a catalogue is a list of *claims*, one for each place with a file and an
absolute line, in the order of messages and places (`claims`).  Each claim has an outcome that
does not speak of the walk, its comparison with the first claim at its line in the whole list
(`Claim.conflict?`), and the walk finds just these (`conflictFindings_eq`).  The invariant of
the walk is that its owners are the first claims among those it has passed (`Owned`); later
claims cannot change who was first.
-/

namespace Linguist
namespace Audit

/-- A line of a file that a message claims for its text. -/
structure Claim where
  context : String
  source : String
  file : String
  line : UInt32
  deriving DecidableEq, Repr

namespace Claim

/-- Where the claim is. -/
def spot (d : Claim) : String × UInt32 :=
  (d.file, d.line)

/-- What is found at a claim: nothing if the first claim at its line is for the same text. -/
def conflict? (all : List Claim) (d : Claim) : Option Finding :=
  (all.find? (·.spot = d.spot)).bind fun first =>
    if first.source = d.source then none
    else some ⟨.conflictingPlace d.file d.line first.source, some d.context, some d.source⟩

/-- The claim of a message at one of its places, if the place has a file and an absolute line. -/
def ofPlace? (context source : String) (p : Place) : Option Claim :=
  match p.file?, p.line? with
  | some file, some (.absolute line) => some ⟨context, source, file, line⟩
  | _, _ => none

theorem ofPlace?_eq_some_iff {context source : String} {p : Place} {d : Claim} :
    ofPlace? context source p = some d ↔
      p = .inFile d.file d.line ∧ d.context = context ∧ d.source = source := by
  obtain ⟨context', source', file, line⟩ := d
  obtain ⟨file?, line?⟩ := p
  unfold ofPlace? Place.inFile
  split
  · rename_i file' line' hfile hline
    dsimp only at hfile hline
    subst hfile hline
    simp only [Option.some.injEq, Claim.mk.injEq, Place.mk.injEq, LineNumber.absolute.injEq]
    constructor
    · rintro ⟨rfl, rfl, rfl, rfl⟩
      exact ⟨⟨rfl, rfl⟩, rfl, rfl⟩
    · rintro ⟨⟨rfl, rfl⟩, rfl, rfl⟩
      exact ⟨rfl, rfl, rfl, rfl⟩
  · rename_i hother
    refine iff_of_false nofun ?_
    rintro ⟨hp, -, -⟩
    obtain ⟨rfl, rfl⟩ := Place.mk.inj hp
    exact hother file line rfl rfl

end Claim

/-- The claims of one message, in the order of its places. -/
def messageClaims (context source : String) (ps : List Place) : List Claim :=
  ps.filterMap (Claim.ofPlace? context source)

/-- The claims of messages, in their order. -/
def claims (ms : List (String × Message)) : List Claim :=
  ms.flatMap fun m => messageClaims m.1 m.2.source m.2.places

theorem mem_claims {ms : List (String × Message)} {d : Claim} : d ∈ claims ms ↔
    ∃ m ∈ ms, Place.inFile d.file d.line ∈ m.2.places ∧ d.context = m.1 ∧ d.source = m.2.source := by
  rw [claims, List.mem_flatMap]
  refine exists_congr fun m => and_congr_right fun _ => ?_
  rw [messageClaims, List.mem_filterMap]
  simp only [Claim.ofPlace?_eq_some_iff]
  exact ⟨fun ⟨_, hp, heq, h⟩ => ⟨heq ▸ hp, h⟩, fun ⟨hp, h⟩ => ⟨_, hp, rfl, h⟩⟩

/-! ## The first claim at a line -/

variable {owners : List Owner} {seen all : List Claim} {d : Claim}

/-- The owners are the first claims among those seen. -/
def Owned (owners : List Owner) (seen : List Claim) : Prop :=
  ∀ spot, owners.lookup spot = (seen.find? (·.spot = spot)).map Claim.source

theorem owned_nil : Owned [] [] := fun _ => rfl

/-- A claim at a line that has an owner changes nothing. -/
theorem Owned.concat_old {owner : String} (h : Owned owners seen)
    (howner : owners.lookup d.spot = some owner) : Owned owners (seen ++ [d]) := by
  intro spot
  rw [h spot, List.find?_append]
  by_cases hspot : d.spot = spot
  · obtain ⟨first, hfirst, -⟩ := Option.map_eq_some_iff.1 ((h d.spot).symm.trans howner)
    rw [← hspot, hfirst, Option.some_or]
  · rw [List.find?_singleton, if_neg (by simpa using hspot), Option.or_none]

/-- A claim at a line that has no owner makes its text the owner. -/
theorem Owned.concat_new (h : Owned owners seen) :
    Owned (owners ++ [(d.spot, d.source)]) (seen ++ [d]) := by
  intro spot
  rw [List.lookup_append, h spot, List.find?_append, Option.map_or]
  refine congrArg _ ?_
  by_cases hspot : d.spot = spot
  · subst hspot
    simp
  · have hspot' : (spot == d.spot) = false := beq_false_of_ne (Ne.symm hspot)
    simp [List.lookup_cons, hspot, hspot']

theorem conflict?_of_owner {owner : String} (h : Owned owners seen)
    (howner : owners.lookup d.spot = some owner) (hall : seen <+: all) :
    d.conflict? all = if owner = d.source then none
      else some ⟨.conflictingPlace d.file d.line owner, some d.context, some d.source⟩ := by
  obtain ⟨more, rfl⟩ := hall
  obtain ⟨first, hfirst, rfl⟩ := Option.map_eq_some_iff.1 ((h d.spot).symm.trans howner)
  rw [Claim.conflict?, List.find?_append, hfirst, Option.some_or, Option.bind_some]

/-- The first claim at a line is in no conflict. -/
theorem conflict?_of_new (h : Owned owners seen) (hnone : owners.lookup d.spot = none)
    (hall : seen ++ [d] <+: all) : d.conflict? all = none := by
  obtain ⟨more, rfl⟩ := hall
  have hseen : seen.find? (·.spot = d.spot) = none :=
    Option.map_eq_none_iff.1 ((h d.spot).symm.trans hnone)
  rw [Claim.conflict?, List.append_assoc, List.find?_append, hseen, Option.none_or,
    List.singleton_append, List.find?_cons_of_pos (by simp), Option.bind_some, if_pos rfl]

/-! ## The walk -/

section Steps

variable {context source : String} {p : Place}

theorem placeFindings_of_none (h : Claim.ofPlace? context source p = none) (owners : List Owner)
    (ps : List Place) :
    placeFindings context source owners (p :: ps) = placeFindings context source owners ps := by
  rw [placeFindings]
  split
  · rename_i file line hfile hline
    rw [Claim.ofPlace?, hfile, hline] at h
    cases h
  · rfl

theorem placeFindings_of_owner {owner : String} (h : Claim.ofPlace? context source p = some d)
    (howner : owners.lookup d.spot = some owner) (ps : List Place) :
    placeFindings context source owners (p :: ps) =
      ((if owner = d.source then none
        else some ⟨.conflictingPlace d.file d.line owner, some d.context, some d.source⟩).toList ++
          (placeFindings context source owners ps).1,
        (placeFindings context source owners ps).2) := by
  obtain ⟨rfl, rfl, rfl⟩ := Claim.ofPlace?_eq_some_iff.1 h
  have howner' : owners.lookup (d.file, d.line) = some owner := howner
  simp only [placeFindings, Place.inFile, howner']
  split <;> rfl

theorem placeFindings_of_new (h : Claim.ofPlace? context source p = some d)
    (hnone : owners.lookup d.spot = none) (ps : List Place) :
    placeFindings context source owners (p :: ps) =
      placeFindings context source (owners ++ [(d.spot, d.source)]) ps := by
  obtain ⟨rfl, rfl, rfl⟩ := Claim.ofPlace?_eq_some_iff.1 h
  have hnone' : owners.lookup (d.file, d.line) = none := hnone
  simp only [placeFindings, Place.inFile, hnone']
  rfl

end Steps

/-- **The places of one message:** the walk finds the conflicts of their claims, and its owners
are again the first claims. -/
theorem placeFindings_eq (h : Owned owners seen) {context source : String} {ps : List Place}
    (hall : seen ++ messageClaims context source ps <+: all) :
    (placeFindings context source owners ps).1 =
        (messageClaims context source ps).filterMap (Claim.conflict? all) ∧
      Owned (placeFindings context source owners ps).2
        (seen ++ messageClaims context source ps) := by
  induction ps generalizing owners seen with
  | nil =>
    refine ⟨rfl, ?_⟩
    rw [messageClaims, List.filterMap_nil, List.append_nil]
    exact h
  | cons p ps ih =>
    cases hp : Claim.ofPlace? context source p with
    | none =>
      have hclaims : messageClaims context source (p :: ps) = messageClaims context source ps :=
        List.filterMap_cons_none hp
      rw [hclaims] at hall ⊢
      rw [placeFindings_of_none hp]
      exact ih h hall
    | some d =>
      have hclaims : messageClaims context source (p :: ps) =
          d :: messageClaims context source ps := List.filterMap_cons_some hp
      have hmove : seen ++ d :: messageClaims context source ps =
          seen ++ [d] ++ messageClaims context source ps := by simp
      rw [hclaims, hmove] at hall ⊢
      rw [List.filterMap_cons]
      have hseen : seen ++ [d] <+: all := (List.prefix_append _ _).trans hall
      cases howner : owners.lookup d.spot with
      | some owner =>
        obtain ⟨hfindings, howners⟩ := ih (h.concat_old howner) hall
        rw [placeFindings_of_owner hp howner,
          conflict?_of_owner h howner ((List.prefix_append _ _).trans hseen)]
        refine ⟨?_, howners⟩
        rw [hfindings]
        split <;> rfl
      | none =>
        obtain ⟨hfindings, howners⟩ := ih h.concat_new hall
        rw [placeFindings_of_new hp howner, conflict?_of_new h howner hseen]
        exact ⟨hfindings, howners⟩

/-- **The places of all messages.** -/
theorem conflictFindings_eq (h : Owned owners seen) {ms : List (String × Message)}
    (hall : seen ++ claims ms <+: all) :
    conflictFindings owners ms = (claims ms).filterMap (Claim.conflict? all) := by
  induction ms generalizing owners seen with
  | nil => rfl
  | cons m ms ih =>
    have hclaims : claims (m :: ms) = messageClaims m.1 m.2.source m.2.places ++ claims ms :=
      List.flatMap_cons
    rw [hclaims, ← List.append_assoc] at hall
    obtain ⟨hfindings, howners⟩ := placeFindings_eq h ((List.prefix_append _ _).trans hall)
    rw [conflictFindings, hclaims, List.filterMap_append, ← hfindings, ← ih howners hall]

/-! ## The audit -/

/-- What holds of all causes at messages holds of all findings at messages. -/
theorem forall_cause_messageFindings {rule? : Option PluralRule} {P : Cause → Prop}
    (h : ∀ repeats m, ∀ x ∈ messageCauses rule? repeats m, P x) (context : String)
    (seen : List Message.Key) (ms : List Message) :
    ∀ f ∈ messageFindings rule? context seen ms, P f.cause := by
  induction ms generalizing seen with
  | nil => exact fun _ hf => absurd hf List.not_mem_nil
  | cons m ms ih =>
    rw [messageFindings, List.forall_mem_append, List.forall_mem_map]
    exact ⟨h _ m, ih _⟩

/-- No message is in conflict by itself. -/
theorem forall_ne_conflictingPlace (rule? : Option PluralRule) (repeats : Bool) (m : Message) :
    ∀ x ∈ messageCauses rule? repeats m, x.kind ≠ .conflictingPlace := by
  have hmarkers : ∀ x ∈ markerCauses m.source m.target.wording, x.kind ≠ .conflictingPlace := by
    intro x hx
    rw [ofKind_markerCauses _ _ x hx]
    decide
  have hforms : ∀ x ∈ formCauses rule? m.target.wording, x.kind ≠ .conflictingPlace := by
    intro x hx
    rw [ofKind_formCauses _ _ x hx]
    decide
  simp only [messageCauses, statusCauses, List.forall_mem_append, forall_causeIf]
  refine ⟨⟨⟨⟨?_, ?_⟩, ?_⟩, ?_, ?_⟩, ?_⟩
  case refine_6 =>
    split
    · exact List.forall_mem_append.2 ⟨hmarkers, hforms⟩
    · exact fun _ hx => absurd hx List.not_mem_nil
  all_goals
    intro _ hkind
    cases hkind

/-- Of the findings of an audit, those about conflicts are the ones of the walk. -/
theorem filter_findings (c : Catalogue) :
    (findings c).filter (·.kind = .conflictingPlace) =
      conflictFindings [] c.resolve.messages := by
  have hlanguages : ∀ f ∈ (languageCauses c).map (⟨·, none, none⟩ : Cause → Finding),
      ¬ decide (f.kind = .conflictingPlace) = true := by
    rw [List.forall_mem_map]
    intro x hx
    rw [decide_eq_true_iff, Finding.kind, ofKind_languageCauses c x hx]
    decide
  have hmessages : ∀ f ∈ c.contexts.flatMap fun x =>
      messageFindings (c.language?.map .ofLanguage) x.name [] x.messages,
      ¬ decide (f.kind = .conflictingPlace) = true := by
    rw [List.forall_mem_flatMap]
    intro x _ f hf
    rw [decide_eq_true_iff]
    exact forall_cause_messageFindings (P := fun y => y.kind ≠ .conflictingPlace)
      (forall_ne_conflictingPlace _) x.name [] x.messages f hf
  rw [findings, List.filter_append, List.filter_append, List.filter_eq_nil_iff.2 hlanguages,
    List.filter_eq_nil_iff.2 hmessages, List.nil_append, List.nil_append, List.filter_eq_self]
  exact fun f hf => decide_eq_true (kind_conflictFindings [] _ f hf)

/-- Some claim is in conflict just when two at one line are for different texts: the first one
there cannot be for both. -/
theorem filterMap_conflict?_ne_nil_iff {ds : List Claim} :
    ds.filterMap (Claim.conflict? ds) ≠ [] ↔
      ∃ a ∈ ds, ∃ b ∈ ds, a.spot = b.spot ∧ a.source ≠ b.source := by
  constructor
  · intro hne
    obtain ⟨f, hf⟩ := List.exists_mem_of_ne_nil _ hne
    obtain ⟨d, hd, hconflict⟩ := List.mem_filterMap.1 hf
    obtain ⟨first, hfirst, hsource⟩ := Option.bind_eq_some_iff.1 hconflict
    have hspot : first.spot = d.spot := by simpa using List.find?_some hfirst
    refine ⟨first, List.mem_of_find?_eq_some hfirst, d, hd, hspot, fun heq => ?_⟩
    rw [if_pos heq] at hsource
    cases hsource
  · rintro ⟨a, ha, b, hb, hspot, hsource⟩ hnil
    -- without conflicts both texts are that of the first claim
    have hsame : ∀ d ∈ ds, d.spot = a.spot →
        (ds.find? (·.spot = a.spot)).map Claim.source = some d.source := by
      intro d hd hda
      have hnone := List.filterMap_eq_nil_iff.1 hnil d hd
      rw [Claim.conflict?, hda] at hnone
      cases hfirst : ds.find? (·.spot = a.spot) with
      | none => exact absurd hda (by simpa using List.find?_eq_none.1 hfirst d hd)
      | some first =>
        rw [hfirst, Option.bind_some] at hnone
        split at hnone
        · rename_i heq
          rw [Option.map_some, heq]
        · cases hnone
    exact hsource (Option.some.inj ((hsame a ha rfl).symm.trans (hsame b hb hspot.symm)))

/-- **Conflicts of places are found exactly.**  There is one if and only if two messages with
different texts are, in resolved form, at one line of one file; and there is one for each place,
in the order of messages and places, whose text is not that of the first message at its line. -/
theorem conflicts_exact (c : Catalogue) :
    let conflicts := (run {} c).findings.filter (·.kind = .conflictingPlace)
    (conflicts ≠ [] ↔ ∃ a ∈ c.resolve.messages, ∃ b ∈ c.resolve.messages,
        a.2.source ≠ b.2.source ∧
          ∃ file line, Place.inFile file line ∈ a.2.places ∧ Place.inFile file line ∈ b.2.places) ∧
      conflicts = (claims c.resolve.messages).filterMap
        (Claim.conflict? (claims c.resolve.messages)) := by
  intro conflicts
  have hconflicts : conflicts = (claims c.resolve.messages).filterMap
      (Claim.conflict? (claims c.resolve.messages)) := by
    show (run {} c).findings.filter (·.kind = .conflictingPlace) = _
    rw [findings_run_default, filter_findings]
    exact conflictFindings_eq owned_nil (List.prefix_refl _)
  refine ⟨?_, hconflicts⟩
  rw [hconflicts, filterMap_conflict?_ne_nil_iff]
  constructor
  · rintro ⟨a, ha, b, hb, hspot, hsource⟩
    obtain ⟨m, hm, hplace, -, ham⟩ := mem_claims.1 ha
    obtain ⟨m', hm', hplace', -, hbm⟩ := mem_claims.1 hb
    obtain ⟨hfile, hline⟩ := Prod.mk.inj hspot
    rw [← hfile, ← hline] at hplace'
    exact ⟨m, hm, m', hm', ham ▸ hbm ▸ hsource, a.file, a.line, hplace, hplace'⟩
  · rintro ⟨m, hm, m', hm', hsource, file, line, hplace, hplace'⟩
    exact ⟨⟨m.1, m.2.source, file, line⟩, mem_claims.2 ⟨m, hm, hplace, rfl, rfl⟩,
      ⟨m'.1, m'.2.source, file, line⟩, mem_claims.2 ⟨m', hm', hplace', rfl, rfl⟩, rfl, hsource⟩

end Audit
end Linguist
