import Linguist.Proofs.Merge.Front

/-!
# A merge loses and invents nothing

Both sides of a merge are accounted for message by message (`Account`).  On the one side
stands the ledger, with an entry for every collected message; on the other the old
messages, each of which was taken by one entry, or stayed as vanished, or went.  The
merged catalogue has the merged messages in front and the retired ones behind, and
nothing else.

Neither catalogue has to be in order for this.  Contexts of one name share their first
pool, messages of one key share the first old message, and what they cannot reach is left
over and retired with the rest; it is still counted, and counted once.

## The two halves

The merge first goes through the collected contexts (a run, in the sense of
`Merge.Ledger`) and then empties the pools (`Merge.Retirement`).  What the run leaves in
the pools is what the second half divides into messages that stay and messages that go.
-/

namespace Linguist
namespace Merge

/-- An account of a merge: where every collected and every old message went, and what the
merged catalogue consists of. -/
structure Account (options : Options) (existing extracted merged : Catalogue) (report : Report)
    (ledger : List Entry) (stayed gone : List (String × Message)) : Prop where
  collected : ledger.map Entry.listed = extracted.messages
  old : existing.messages.Perm (olds ledger ++ (stayed ++ gone))
  report : report = (tally ledger).plus { vanished := stayed.length, pruned := gone.length }
  startsWith : StartsWith extracted.contexts merged.contexts
  front : List.Forall₂ Entry.Explains ledger (front extracted.contexts merged.contexts)
  others : (others extracted.contexts merged.contexts).Perm
    (stayed.map fun p => (p.1, retired p.2))
  stayed : ∀ p ∈ stayed, stays options p.2 = true
  gone : ∀ p ∈ gone, stays options p.2 = false
  /-- In distinct contexts every old message with the address of a collected one is
  taken. -/
  missed : Distinct existing.contexts → ∀ e ∈ ledger, e.old? = none →
    e.address ∈ existing.messages.map addressOf → e.address ∈ (olds ledger).map addressOf
  names : (extracted.contexts.map Context.name).Nodup → (merged.contexts.map Context.name).Nodup

variable (options : Options) (existing extracted : Catalogue)

/-- The pools at the start hold the old catalogue. -/
theorem left_ofContext (xs : List Context) : left (xs.map Pool.ofContext) = xs := by
  rw [left, List.map_map]
  exact List.map_id xs

/-- The merged contexts have an account before their places are rewritten. -/
theorem exists_account_mergeContexts :
    ∃ ledger stayed gone, Account options existing extracted
      { existing with contexts := (mergeContexts options existing extracted).1 }
      (mergeContexts options existing extracted).2 ledger stayed gone := by
  obtain ⟨ledger, hledger, hrun⟩ := exists_run_walked options existing extracted
  have hcurrent := current_walked options existing extracted
  have hfiled := filed_mergeContexts options existing extracted
  have hleft := left_ofContext existing.contexts
  have hold := hrun.old
  have hmissed := hrun.missed
  rw [hleft, Catalogue.listing_contexts] at hold hmissed
  refine ⟨ledger, staying options (listing (left (walked options existing extracted).2.pools)),
    going options (listing (left (walked options existing extracted).2.pools)), ?_⟩
  exact {
    collected := hledger
    old := hold.trans ((perm_staying_going options _).symm.append_left _)
    report := by
      rw [mergeContexts_eq, report_retirePools, hrun.report, Report.zero_plus]
      rfl
    startsWith := startsWith_filed hcurrent hfiled
    front := (front_filed hcurrent hfiled).symm ▸ hrun.explained
    others := perm_others_filed hcurrent hfiled (perm_retirePools options _ _ _)
    stayed := fun p hp => (List.mem_filter.1 hp).2
    gone := fun p hp => by simpa using (List.mem_filter.1 hp).2
    missed := fun hdistinct => hmissed (sound_ofContext hdistinct)
    names := nodup_names_mergeContexts options existing }

variable {options existing extracted}

/-- An account does not depend on the places of the merged messages. -/
theorem Account.alike {merged merged' : Catalogue} {report : Report} {ledger : List Entry}
    {stayed gone : List (String × Message)}
    (h : Account options existing extracted merged report ledger stayed gone)
    (halike : List.Forall₂ Context.Alike merged.contexts merged'.contexts) :
    Account options existing extracted merged' report ledger stayed gone where
  collected := h.collected
  old := h.old
  report := h.report
  startsWith := h.startsWith.alike halike
  front := by
    have hfront := forall₂_front extracted.contexts halike
    refine Sequence.forall₂_comp h.front hfront fun e p q he hpq => ?_
    exact ⟨hpq.address.trans he.address, he.old, hpq.message.target ▸ he.target⟩
  others := by
    rw [others_alike extracted.contexts halike]
    · exact h.others
    · intro p hp
      obtain ⟨q, _, rfl⟩ := List.mem_map.1 (h.others.mem_iff.1 hp)
      exact retired_places q.2
  stayed := h.stayed
  gone := h.gone
  missed := h.missed
  names := fun hnodup => by
    rw [Context.map_name_of_alike halike]
    exact h.names hnodup

variable (options existing extracted)

/-- **Every merge has an account.** -/
theorem exists_account :
    ∃ ledger stayed gone, Account options existing extracted
      (merge options existing extracted).1 (merge options existing extracted).2
      ledger stayed gone := by
  obtain ⟨ledger, stayed, gone, h⟩ := exists_account_mergeContexts options existing extracted
  exact ⟨ledger, stayed, gone, h.alike (Catalogue.alike_withPlaces _ options.places)⟩

variable {options existing extracted}

namespace Account

variable {merged : Catalogue} {report : Report} {ledger : List Entry}
  {stayed gone : List (String × Message)}

/-- A message of the merged catalogue is what came of an entry, or an old one, retired. -/
theorem explained_or_retired
    (h : Account options existing extracted merged report ledger stayed gone)
    {q : String × Message} (hq : q ∈ merged.messages) :
    (∃ e ∈ ledger, e.Explains q) ∨ ∃ p ∈ stayed, q = (p.1, retired p.2) := by
  have hlisting := perm_front_others extracted.contexts merged.contexts
  rcases List.mem_append.1 (hlisting.mem_iff.2 hq) with hfront | hothers
  · exact Or.inl (Sequence.exists_of_forall₂ h.front.flip hfront)
  · obtain ⟨p, hp, hpq⟩ := List.mem_map.1 (h.others.mem_iff.1 hothers)
    exact Or.inr ⟨p, hp, hpq.symm⟩

/-- What an entry took is an old message. -/
theorem mem_of_old? (h : Account options existing extracted merged report ledger stayed gone)
    {e : Entry} (he : e ∈ ledger) {m : Message} (hm : e.origin.old? = some m) :
    (e.context, m) ∈ existing.messages := by
  have hentry : e.old? = some (e.context, m) := congrArg (Option.map (e.context, ·)) hm
  have holds : (e.context, m) ∈ olds ledger := List.mem_filterMap.2 ⟨e, he, hentry⟩
  exact h.old.mem_iff.2 (List.mem_append_left _ holds)

end Account

/-- The counters of a merge add up on both sides: to the collected messages, to the old
ones, and to what the merged catalogue has. -/
structure Balanced (existing extracted merged : Catalogue) (report : Report) : Prop where
  collected : report.kept + report.added + report.revived + report.sameText =
    extracted.messageCount
  old : report.kept + report.revived + report.vanished + report.pruned = existing.messageCount
  merged : merged.messageCount = extracted.messageCount + report.vanished

/-- Whatever has an account is balanced. -/
theorem Account.balanced {merged : Catalogue} {report : Report} {ledger : List Entry}
    {stayed gone : List (String × Message)}
    (h : Account options existing extracted merged report ledger stayed gone) :
    Balanced existing extracted merged report := by
  have hentries := tally_total ledger
  have holds := length_olds ledger
  have hcollected : ledger.length = extracted.messageCount := by
    rw [← Catalogue.length_messages, ← h.collected, List.length_map]
  have hold : existing.messageCount = (olds ledger).length + (stayed.length + gone.length) := by
    rw [← Catalogue.length_messages, h.old.length_eq, List.length_append, List.length_append]
  have hmerged : merged.messageCount = ledger.length + stayed.length := by
    rw [← Catalogue.length_messages, ← Catalogue.listing_contexts,
      ← (perm_front_others extracted.contexts merged.contexts).length_eq, List.length_append,
      ← h.front.length_eq, h.others.length_eq, List.length_map]
  refine ⟨?_, ?_, ?_⟩
  · rw [h.report, ← hcollected]
    exact hentries
  · rw [h.report, hold, holds]
    simp only [Report.plus, tally_vanished, tally_pruned]
    omega
  · rw [h.report, hmerged, hcollected]
    simp only [Report.plus, tally_vanished]
    omega

variable (options existing extracted)

/-- **A merge loses and invents nothing.**  Every collected message has an entry in the
ledger, every old message was taken by one entry, or stayed, or went, and the counters
count them so.  The merged contexts start with the collected ones, the front is what the
entries explain, with the old wording or with none, and the others are the messages that
stayed, retired and not empty.  Unless what vanished is dropped, only empty messages go. -/
theorem merge_conserves :
    ∃ (ledger : List Entry) (stayed gone : List (String × Message)),
      ledger.map Entry.listed = extracted.messages ∧
      existing.messages.Perm (olds ledger ++ (stayed ++ gone)) ∧
      (merge options existing extracted).2 =
        (tally ledger).plus { vanished := stayed.length, pruned := gone.length } ∧
      Balanced existing extracted (merge options existing extracted).1
        (merge options existing extracted).2 ∧
      StartsWith extracted.contexts (merge options existing extracted).1.contexts ∧
      List.Forall₂ Entry.Explains ledger
        (front extracted.contexts (merge options existing extracted).1.contexts) ∧
      (others extracted.contexts (merge options existing extracted).1.contexts).Perm
        (stayed.map fun p => (p.1, retired p.2)) ∧
      (∀ p ∈ stayed, p.2.target.isEmpty = false) ∧
      (options.dropVanished = false → ∀ p ∈ gone, p.2.target.isEmpty = true) := by
  obtain ⟨ledger, stayed, gone, h⟩ := exists_account options existing extracted
  refine ⟨ledger, stayed, gone, h.collected, h.old, h.report, h.balanced, h.startsWith, h.front,
    h.others, fun p hp => ((stays_iff options).1 (h.stayed p hp)).2, fun hkeep p hp => ?_⟩
  have hgone := h.gone p hp
  rw [stays, hkeep] at hgone
  simpa using hgone

end Merge
end Linguist
