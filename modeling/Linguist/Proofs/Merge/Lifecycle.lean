import Linguist.Proofs.Merge.Conservation

/-!
# No approved wording is lost

A message may leave the code and come back, at once or after many merges; its context may
go and come back with it.  As long as nothing is dropped on purpose, its wording is there
all the time, unchanged and once, and its status says whether the message stands in the
code (`mergeAll_keeps_wording`).

This holds for catalogues in which names and keys do not repeat, and such a catalogue
stays one (`distinct_merge`): a message that is collected is taken from the pools, so
that what is left over never has the address of a merged message
(`Account.notMem_left`).

An unfinished wording is not approved.  It is kept while its message stands in the code,
and it is kept as vanished, too; but when the message comes back it has become a finished
one, and so unfinished messages have no part in the statement.
-/

namespace Linguist
namespace Merge

variable {options : Options} {existing extracted merged : Catalogue} {report : Report}
  {ledger : List Entry} {stayed gone : List (String × Message)}

namespace Account

/-- The entries stand at the addresses of the collected messages. -/
theorem map_address (h : Account options existing extracted merged report ledger stayed gone) :
    ledger.map Entry.address = extracted.messages.map addressOf := by
  rw [← h.collected, List.map_map]
  rfl

/-- The front stands at the addresses of the collected messages. -/
theorem map_addressOf_front
    (h : Account options existing extracted merged report ledger stayed gone) :
    (Merge.front extracted.contexts merged.contexts).map addressOf =
      extracted.messages.map addressOf := by
  rw [← h.map_address]
  exact (Sequence.map_eq_map (h.front.imp fun _ _ he => he.address.symm)).symm

/-- **What is left over never has the address of a collected message,** if the old
catalogue is distinct. -/
theorem notMem_left (h : Account options existing extracted merged report ledger stayed gone)
    (hexisting : Distinct existing.contexts) {a : Catalogue.Address}
    (ha : a ∈ extracted.messages.map addressOf) : a ∉ (stayed ++ gone).map addressOf := by
  intro hleft
  have hperm := h.old.map addressOf
  rw [List.map_append] at hperm
  have hnodup : ((olds ledger).map addressOf ++ (stayed ++ gone).map addressOf).Nodup :=
    hperm.nodup_iff.1 hexisting.nodup_addresses
  refine (List.nodup_append'.1 hnodup).2.2 ?_ hleft
  rw [← h.map_address] at ha
  obtain ⟨e, he, rfl⟩ := List.mem_map.1 ha
  cases hold : e.old? with
  | none =>
    exact h.missed hexisting e he hold
      (hperm.mem_iff.2 (List.mem_append_right _ hleft))
  | some q =>
    obtain ⟨p, _, hp⟩ := Sequence.exists_of_forall₂ h.front he
    rw [← hp.old q hold]
    exact List.mem_map_of_mem (List.mem_filterMap.2 ⟨e, he, hold⟩)

/-- The others stand at the addresses of the messages that stayed. -/
theorem map_addressOf_others
    (h : Account options existing extracted merged report ledger stayed gone) :
    ((Merge.others extracted.contexts merged.contexts).map addressOf).Perm
      (stayed.map addressOf) := by
  refine (h.others.map addressOf).trans (.of_eq ?_)
  rw [List.map_map]
  rfl

/-- **Distinct catalogues merge into a distinct one.** -/
theorem distinct (h : Account options existing extracted merged report ledger stayed gone)
    (hexisting : Distinct existing.contexts) (hextracted : Distinct extracted.contexts) :
    Distinct merged.contexts := by
  rw [distinct_iff]
  refine ⟨h.names hextracted.1, ?_⟩
  have hperm := (perm_front_others extracted.contexts merged.contexts).map addressOf
  rw [← hperm.nodup_iff, List.map_append, List.nodup_append', h.map_addressOf_front,
    h.map_addressOf_others.nodup_iff]
  refine ⟨hextracted.nodup_addresses, ?_, fun a hfront hothers => ?_⟩
  · have hsub : (stayed.map addressOf).Sublist
        ((olds ledger ++ (stayed ++ gone)).map addressOf) :=
      ((List.sublist_append_left _ _).trans (List.sublist_append_right _ _)).map addressOf
    exact ((h.old.map addressOf).nodup_iff.1 hexisting.nodup_addresses).sublist hsub
  · refine h.notMem_left hexisting hfront ?_
    rw [List.map_append]
    exact List.mem_append_left _ (h.map_addressOf_others.mem_iff.1 hothers)

end Account

/-- Names and keys that do not repeat do not repeat after a merge. -/
theorem distinct_merge (options : Options) (hexisting : Distinct existing.contexts)
    (hextracted : Distinct extracted.contexts) :
    Distinct (merge options existing extracted).1.contexts := by
  obtain ⟨_, _, _, h⟩ := exists_account options existing extracted
  exact h.distinct hexisting hextracted

/-! ## One merge -/

/-- A message has a wording that was approved at some time. -/
structure Approved (m : Message) : Prop where
  wording : m.target.isEmpty = false
  status : m.target.status ≠ .unfinished

/-- What takes an old message with an approved wording is finished and has the wording. -/
theorem Origin.Leaves.of_approved {origin : Origin} {m : Message} {t : Target}
    (h : origin.Leaves t) (hold : origin.old? = some m) (hm : Approved m) :
    t.wording = m.target.wording ∧ t.status = .finished := by
  cases origin with
  | kept old =>
    obtain ⟨hactive, rfl⟩ := h
    cases hold
    refine ⟨rfl, ?_⟩
    have hstatus := hm.status
    cases hs : m.target.status with
    | finished => rfl
    | unfinished => exact absurd hs hstatus
    | vanished => rw [hs] at hactive; cases hactive
    | obsolete => rw [hs] at hactive; cases hactive
  | revived old =>
    obtain ⟨_, rfl⟩ := h
    cases hold
    refine ⟨rfl, ?_⟩
    show revivedStatus m.target = .finished
    rw [revivedStatus, hm.wording]
    rfl
  | added => cases hold
  | sameText => cases hold

/-- **One merge keeps an approved wording,** and settles its status. -/
theorem exists_merged_of_approved {name : String} {m : Message} (extracted : Catalogue)
    (hdrop : options.dropVanished = false) (hexisting : Distinct existing.contexts)
    (hmem : (name, m) ∈ existing.messages) (hm : Approved m) :
    ∃ m', (name, m') ∈ (merge options existing extracted).1.messages ∧ m'.key = m.key ∧
      m'.target.wording = m.target.wording ∧
      if (name, m.key) ∈ extracted.messages.map addressOf then m'.target.status = .finished
      else m'.target.status = .vanished ∨ m'.target.status = .obsolete := by
  obtain ⟨ledger, stayed, gone, h⟩ := exists_account options existing extracted
  have hlisting := perm_front_others extracted.contexts
    (merge options existing extracted).1.contexts
  rcases List.mem_append.1 (h.old.mem_iff.1 hmem) with htaken | hleft
  · obtain ⟨e, he, hold⟩ := List.mem_filterMap.1 htaken
    obtain ⟨⟨n, m'⟩, hp, hexplains⟩ := Sequence.exists_of_forall₂ h.front he
    have haddress : (n, m'.key) = (name, m.key) :=
      hexplains.address.trans (hexplains.old _ hold).symm
    obtain ⟨rfl, hkey⟩ := Prod.mk.inj haddress
    obtain ⟨old, horigin, heq⟩ := Option.map_eq_some_iff.1 hold
    rw [(Prod.mk.inj heq).2] at horigin
    obtain ⟨hwording, hstatus⟩ := hexplains.target.of_approved horigin hm
    have hcollected : (n, m.key) ∈ extracted.messages.map addressOf := by
      rw [← h.map_address]
      exact List.mem_map.2 ⟨e, he, (hexplains.old _ hold).symm⟩
    refine ⟨m', hlisting.mem_iff.1 (List.mem_append_left _ hp), hkey, hwording, ?_⟩
    rw [if_pos hcollected]
    exact hstatus
  · have hstays : stays options m = true := (stays_iff options).2 ⟨hdrop, hm.wording⟩
    have hstayed : (name, m) ∈ stayed := by
      rcases List.mem_append.1 hleft with hstayed | hgone
      · exact hstayed
      · exact absurd hstays (Bool.eq_false_iff.1 (h.gone _ hgone))
    have hothers := h.others.mem_iff.2 (List.mem_map_of_mem hstayed)
    have hcollected : (name, m.key) ∉ extracted.messages.map addressOf := fun hcollected =>
      h.notMem_left hexisting hcollected (List.mem_map_of_mem hleft)
    refine ⟨retired m, hlisting.mem_iff.1 (List.mem_append_right _ hothers), retired_key m,
      retired_wording m, ?_⟩
    rw [if_neg hcollected, retired_status]
    exact retiredStatus_eq _

/-! ## Any number of merges -/

/-- The catalogue after merging catalogues into it in turn, each in its own way. -/
def mergeAll (existing : Catalogue) (updates : List (Options × Catalogue)) : Catalogue :=
  updates.foldl (fun c u => (merge u.1 c u.2).1) existing

theorem mergeAll_cons (existing : Catalogue) (u : Options × Catalogue)
    (updates : List (Options × Catalogue)) :
    mergeAll existing (u :: updates) = mergeAll (merge u.1 existing u.2).1 updates := rfl

/-- **No approved wording is lost,** through any number of merges: in the end there is
one message at its address, it has the wording, and it is finished if the last of the
catalogues that were merged has a message there, and vanished or obsolete if not. -/
theorem mergeAll_keeps_wording {name : String} {m : Message} (existing : Catalogue)
    (updates : List (Options × Catalogue)) (last : Options × Catalogue)
    (hexisting : Distinct existing.contexts)
    (hupdates : ∀ u ∈ updates ++ [last], u.1.dropVanished = false ∧ Distinct u.2.contexts)
    (hmem : (name, m) ∈ existing.messages) (hwording : m.target.isEmpty = false)
    (hstatus : m.target.status ≠ .unfinished) :
    ∃ m', (mergeAll existing (updates ++ [last])).messages.filter
        (fun p => addressOf p = (name, m.key)) = [(name, m')] ∧
      m'.target.wording = m.target.wording ∧
      if (name, m.key) ∈ last.2.messages.map addressOf then m'.target.status = .finished
      else m'.target.status = .vanished ∨ m'.target.status = .obsolete := by
  induction updates generalizing existing m with
  | nil =>
    obtain ⟨hdrop, hlast⟩ := hupdates last List.mem_cons_self
    obtain ⟨m', hmem', hkey, hwording', hsettled⟩ :=
      exists_merged_of_approved last.2 hdrop hexisting hmem ⟨hwording, hstatus⟩
    refine ⟨m', ?_, hwording', hsettled⟩
    rw [← hkey]
    exact (distinct_merge last.1 hexisting hlast).filter_eq_singleton hmem'
  | cons u updates ih =>
    obtain ⟨hdrop, hu⟩ := hupdates u List.mem_cons_self
    obtain ⟨m', hmem', hkey, hwording', hsettled⟩ :=
      exists_merged_of_approved u.2 hdrop hexisting hmem ⟨hwording, hstatus⟩
    have hempty : m'.target.isEmpty = false := by
      rw [Target.isEmpty, hwording']
      exact hwording
    have hstatus' : m'.target.status ≠ .unfinished := by
      intro h
      rw [h] at hsettled
      split at hsettled
      · cases hsettled
      · rcases hsettled with h | h <;> cases h
    rw [List.cons_append, mergeAll_cons, ← hkey, ← hwording']
    exact ih _ (distinct_merge u.1 hexisting hu)
      (fun v hv => hupdates v (List.mem_cons_of_mem u hv)) hmem' hempty hstatus'

/-- One finished message. -/
def translated : Catalogue where
  contexts := [{ name := "Window", messages := [
    { source := "Open", target := ⟨.finished, .plain "Ouvrir"⟩ }] }]

/-- The same message as it is collected, beside a new one. -/
def recollected : Catalogue where
  contexts := [{ name := "Window", messages := [{ source := "Close" }, { source := "Open" }] }]

/-- Two updates in which the message is missing, the first time with its context. -/
def absences : List (Options × Catalogue) :=
  [({}, {}), ({ places := .none }, { contexts := [{ name := "Window" }] })]

/-- A wording outlives its message and its context. -/
theorem wording_of_open_returns :
    ∃ m', (mergeAll translated (absences ++ [(Options.mk false true .absolute, recollected)])
        ).messages.filter (fun p => addressOf p = ("Window", ⟨"Open", ""⟩)) = [("Window", m')] ∧
      m'.target.wording = .plain "Ouvrir" ∧
      if ("Window", ⟨"Open", ""⟩) ∈ recollected.messages.map addressOf then
        m'.target.status = .finished
      else m'.target.status = .vanished ∨ m'.target.status = .obsolete :=
  mergeAll_keeps_wording (m := { source := "Open", target := ⟨.finished, .plain "Ouvrir"⟩ })
    translated absences (Options.mk false true .absolute, recollected) (by decide) (by decide)
    (by decide) (by decide) (by decide)

end Merge
end Linguist
