import Linguist.Proofs.Comparison
import Linguist.Proofs.Merge.Lifecycle

/-!
# A merge as a comparison sees it

A merge counts what it does with messages as it takes them from the pools, and a comparison of
the catalogue before with the catalogue after looks at nothing but the two.  Both count the same
(`compare_merge`): what the merge has added, with or without a suggestion, is what the
comparison finds added, what it has pruned is what the comparison finds removed, and the rest,
whatever its targets have become, is in both.

One of the counts has to be found, and the others follow.  An old message that was taken stands
at the address of the collected message that took it, a message that stayed stands at its own,
and one that went has left its address empty, since nothing collected and nothing that stayed
has the same (`Account.countP_old`).  So the pruned messages are the old addresses that are gone.
Then the shared addresses are the other old ones, and the added ones are the merged ones that
are not shared; and the counters of a merge are balanced in the same way.
-/

namespace Linguist
namespace Merge

variable {options : Options} {existing extracted merged : Catalogue} {report : Report}
  {ledger : List Entry} {stayed gone : List (String × Message)}

namespace Account

/-- What was taken left its address to what took it. -/
theorem address_mem_of_olds
    (h : Account options existing extracted merged report ledger stayed gone)
    {p : String × Message} (hp : p ∈ olds ledger) :
    addressOf p ∈ merged.messages.map addressOf := by
  obtain ⟨e, he, hold⟩ := List.mem_filterMap.1 hp
  obtain ⟨q, hq, hexplains⟩ := Sequence.exists_of_forall₂ h.front he
  have hlisting := perm_front_others extracted.contexts merged.contexts
  rw [hexplains.old p hold, ← hexplains.address]
  exact List.mem_map_of_mem (hlisting.mem_iff.1 (List.mem_append_left _ hq))

/-- What stayed has kept its address. -/
theorem address_mem_of_stayed
    (h : Account options existing extracted merged report ledger stayed gone)
    {p : String × Message} (hp : p ∈ stayed) :
    addressOf p ∈ merged.messages.map addressOf := by
  have hothers := h.others.mem_iff.2 (List.mem_map_of_mem hp)
  have hlisting := perm_front_others extracted.contexts merged.contexts
  exact List.mem_map.2 ⟨_, hlisting.mem_iff.1 (List.mem_append_right _ hothers), rfl⟩

/-- What went has left its address empty. -/
theorem address_notMem_of_gone
    (h : Account options existing extracted merged report ledger stayed gone)
    (hexisting : Distinct existing.contexts) {p : String × Message} (hp : p ∈ gone) :
    addressOf p ∉ merged.messages.map addressOf := by
  intro hmem
  have hlisting := (perm_front_others extracted.contexts merged.contexts).map addressOf
  rw [List.map_append, h.map_addressOf_front] at hlisting
  rcases List.mem_append.1 (hlisting.mem_iff.2 hmem) with hfront | hothers
  · exact h.notMem_left hexisting hfront (List.mem_map_of_mem (List.mem_append_right _ hp))
  · have hnodup := (h.old.map addressOf).nodup_iff.1 hexisting.nodup_addresses
    rw [List.map_append, List.map_append] at hnodup
    refine List.disjoint_of_nodup_append (List.nodup_append'.1 hnodup).2.1 ?_
      (List.mem_map_of_mem hp)
    exact h.map_addressOf_others.mem_iff.1 hothers

/-- An element has a property or lacks it. -/
theorem countP_add_countP_not {α : Type} (P : α → Prop) [DecidablePred P] (as : List α) :
    as.countP (P ·) + as.countP (¬ P ·) = as.length := by
  rw [List.length_eq_countP_add_countP (P ·)]
  simp

/-- **The old addresses that are gone are those of the messages that went.** -/
theorem countP_old (h : Account options existing extracted merged report ledger stayed gone)
    (hexisting : Distinct existing.contexts) :
    (existing.messages.map addressOf).countP (· ∉ merged.messages.map addressOf) =
      gone.length := by
  have htaken : ((olds ledger).map addressOf).countP (· ∉ merged.messages.map addressOf) = 0 :=
    List.countP_eq_zero.2 <| List.forall_mem_map.2 fun p hp =>
      by simpa using h.address_mem_of_olds hp
  have hstayed : (stayed.map addressOf).countP (· ∉ merged.messages.map addressOf) = 0 :=
    List.countP_eq_zero.2 <| List.forall_mem_map.2 fun p hp =>
      by simpa using h.address_mem_of_stayed hp
  have hgone : (gone.map addressOf).countP (· ∉ merged.messages.map addressOf) =
      (gone.map addressOf).length :=
    List.countP_eq_length.2 <| List.forall_mem_map.2 fun p hp =>
      decide_eq_true (h.address_notMem_of_gone hexisting hp)
  rw [(h.old.map addressOf).countP_eq, List.map_append, List.map_append, List.countP_append,
    List.countP_append, htaken, hstayed, hgone, List.length_map]
  omega

/-- Old and merged addresses that are not shared have no part in both. -/
theorem balanced_addresses
    (h : Account options existing extracted merged report ledger stayed gone)
    (hexisting : Distinct existing.contexts) (hextracted : Distinct extracted.contexts) :
    (existing.messages.map addressOf).countP (· ∈ merged.messages.map addressOf) + gone.length =
        existing.messageCount ∧
      (existing.messages.map addressOf).countP (· ∈ merged.messages.map addressOf) +
          (merged.messages.map addressOf).countP (· ∉ existing.messages.map addressOf) =
        merged.messageCount := by
  have hshared : (existing.messages.map addressOf).countP (· ∈ merged.messages.map addressOf) =
      (merged.messages.map addressOf).countP (· ∈ existing.messages.map addressOf) :=
    Sequence.countP_of_nodup hexisting.nodup_addresses
      (h.distinct hexisting hextracted).nodup_addresses
      fun a => by rw [decide_eq_true_iff, decide_eq_true_iff, and_comm]
  constructor
  · rw [← h.countP_old hexisting, countP_add_countP_not (· ∈ _), List.length_map,
      Catalogue.length_messages]
  · rw [hshared, countP_add_countP_not (· ∈ _), List.length_map, Catalogue.length_messages]

end Account

/-- **The report of a merge and a comparison agree.** -/
theorem compare_merge (options : Options) (hexisting : Distinct existing.contexts)
    (hextracted : Distinct extracted.contexts) :
    let after := (merge options existing extracted).1
    let report := (merge options existing extracted).2
    let comparison := Comparison.Report.ofCatalogues existing after
    comparison.added = report.added + report.sameText ∧ comparison.removed = report.pruned ∧
      comparison.changed + comparison.unchanged =
        report.kept + report.revived + report.vanished := by
  intro after report comparison
  obtain ⟨ledger, stayed, gone, h⟩ := exists_account options existing extracted
  have hafter : Distinct after.contexts := h.distinct hexisting hextracted
  have hpruned : report.pruned = gone.length := by
    show (merge options existing extracted).2.pruned = gone.length
    rw [h.report]
    simp [Report.plus]
  have hremoved : comparison.removed = gone.length :=
    (Comparison.removed_eq hexisting hafter).trans (h.countP_old hexisting)
  have hadded : comparison.added = _ := Comparison.added_eq hexisting hafter
  have hshared : comparison.changed + comparison.unchanged = _ :=
    Comparison.changed_add_unchanged_eq hexisting hafter
  obtain ⟨hold, hmerged⟩ := h.balanced_addresses hexisting hextracted
  rw [← hshared] at hold hmerged
  rw [← hadded] at hmerged
  obtain ⟨hcollected, hcounted, hcount⟩ : Balanced existing extracted after report := h.balanced
  have hmerged' : comparison.changed + comparison.unchanged + comparison.added =
    after.messageCount := hmerged
  omega

/-- A context with a message in use, a vanished one, and two that are about to leave, of which
one has no wording. -/
def halfTranslated : Catalogue where
  contexts := [{ name := "Window", messages := [
    { source := "Open", target := ⟨.finished, .plain "Ouvrir"⟩ },
    { source := "Quit", target := ⟨.vanished, .plain "Quitter"⟩ },
    { source := "Help", target := ⟨.unfinished, .plain "Aide"⟩ },
    { source := "Print" }] }]

/-- A collection with a new message, and with a source text that has a wording elsewhere. -/
def rearranged : Catalogue where
  contexts := [
    { name := "Dialog", messages := [{ source := "Open" }] },
    { name := "Window", messages := [
      { source := "Quit" }, { source := "Close" }, { source := "Open" }] }]

/-- A merge in which every counter moves once. -/
theorem compare_merge_rearranged :
    let after := (merge {} halfTranslated rearranged).1
    let report := (merge {} halfTranslated rearranged).2
    let comparison := Comparison.Report.ofCatalogues halfTranslated after
    report = ⟨1, 1, 1, 1, 1, 1⟩ ∧
      comparison.added = report.added + report.sameText ∧ comparison.removed = report.pruned ∧
      comparison.changed + comparison.unchanged =
        report.kept + report.revived + report.vanished :=
  ⟨by decide, compare_merge {} (by decide) (by decide)⟩

end Merge
end Linguist
