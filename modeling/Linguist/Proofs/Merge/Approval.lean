import Linguist.Proofs.Merge.Lifecycle
import Linguist.Proofs.Phrasebook

/-!
# How a wording comes to be approved

A phrasebook serves finished wordings only, and a merge approves nothing that is in front of
it: a draft that stands in the code stays a draft.  But a message that left the code and
comes back is finished if it has a wording, and what it was before it left is not
remembered.  So a draft can be approved by two merges, one that retires it and a later one that
collects its message again, and that is the only way (`served_after_merges`).

## Backwards through the merges

Where the wording of a finished message comes from is followed backwards.  One merge has it
from an old message at the same address, and what the merge did to the status is one of
three things (`Passage`).  A run of merges is followed merge by merge, and at each of them
what is known of the later ones says how the message in front of them came to be approved
in the end (`Approval`).
-/

namespace Linguist
namespace Merge

variable {options : Options} {existing extracted : Catalogue} {u : Options × Catalogue}
  {updates : List (Options × Catalogue)} {a : Catalogue.Address} {w : Wording} {s s' : Status}

/-! ## One merge -/

/-- A catalogue has a message at an address. -/
def Collects (c : Catalogue) (a : Catalogue.Address) : Prop :=
  a ∈ c.messages.map addressOf

instance (c : Catalogue) (a : Catalogue.Address) : Decidable (Collects c a) :=
  inferInstanceAs (Decidable (a ∈ _))

/-- What a merge may do to the status of a message with a wording. -/
inductive Passage (options : Options) (extracted : Catalogue) (a : Catalogue.Address) :
    Status → Status → Prop
  | kept {s : Status} (hactive : s.isActive = true) : Passage options extracted a s s
  | revived {s : Status} (hgone : s.isActive = false) (hback : Collects extracted a) :
      Passage options extracted a s .finished
  | retired {s : Status} (hdrop : options.dropVanished = false) :
      Passage options extracted a s (retiredStatus s)

/-- **A merged message with a wording has it from an old message** at its address, by one of
the three passages. -/
theorem exists_passage {q : String × Message}
    (hq : q ∈ (merge options existing extracted).1.messages)
    (hwording : q.2.target.isEmpty = false) :
    ∃ p ∈ existing.messages, addressOf p = addressOf q ∧
      p.2.target.wording = q.2.target.wording ∧
      Passage options extracted (addressOf q) p.2.target.status q.2.target.status := by
  obtain ⟨ledger, stayed, gone, h⟩ := exists_account options existing extracted
  rcases h.explained_or_retired hq with ⟨e, he, hexplains⟩ | ⟨p, hp, rfl⟩
  · have hcollected : Collects extracted (addressOf q) := by
      rw [Collects, ← h.map_address, hexplains.address]
      exact List.mem_map_of_mem he
    have hold : ∀ old, e.origin.old? = some old →
        (e.context, old) ∈ existing.messages ∧ addressOf (e.context, old) = addressOf q := by
      intro old horigin
      have hentry : e.old? = some (e.context, old) := congrArg (Option.map (e.context, ·)) horigin
      exact ⟨h.mem_of_old? he horigin, (hexplains.old _ hentry).trans hexplains.address.symm⟩
    have htarget := hexplains.target
    cases horigin : e.origin with
    | kept old =>
      rw [horigin] at htarget
      obtain ⟨hactive, htarget⟩ := htarget
      obtain ⟨hmem, haddress⟩ := hold old (by rw [horigin]; rfl)
      refine ⟨(e.context, old), hmem, haddress, by rw [htarget], ?_⟩
      rw [htarget]
      exact .kept hactive
    | revived old =>
      rw [horigin] at htarget
      obtain ⟨hgone, htarget⟩ := htarget
      obtain ⟨hmem, haddress⟩ := hold old (by rw [horigin]; rfl)
      have hsame : old.target.isEmpty = false := by
        rw [← hwording, htarget]
        rfl
      refine ⟨(e.context, old), hmem, haddress, by rw [htarget], ?_⟩
      rw [htarget, revivedStatus, hsame]
      exact .revived (Bool.eq_false_iff.2 hgone) hcollected
    | added =>
      rw [horigin] at htarget
      rw [htarget.2] at hwording
      cases hwording
    | sameText =>
      rw [horigin] at htarget
      rw [htarget.2] at hwording
      cases hwording
  · obtain ⟨hdrop, -⟩ := (stays_iff options).1 (h.stayed p hp)
    refine ⟨p, ?_, rfl, rfl, .retired hdrop⟩
    exact h.old.mem_iff.2 (List.mem_append_right _ (List.mem_append_left _ hp))

/-! ## Any number of merges -/

/-- A catalogue has a message with a target at an address. -/
def Holds (c : Catalogue) (a : Catalogue.Address) (t : Target) : Prop :=
  ∃ p ∈ c.messages, addressOf p = a ∧ p.2.target = t

/-- **The detour of a draft:** one of the merges finds it unfinished and leaves it vanished,
and a later one collects a message at its address. -/
def Detour (existing : Catalogue) (updates : List (Options × Catalogue))
    (a : Catalogue.Address) (w : Wording) : Prop :=
  ∃ before u after, updates = before ++ u :: after ∧ u.1.dropVanished = false ∧
    Holds (mergeAll existing before) a ⟨.unfinished, w⟩ ∧
    Holds (mergeAll existing (before ++ [u])) a ⟨.vanished, w⟩ ∧
    ∃ v ∈ after, Collects v.2 a

theorem Detour.cons (h : Detour (merge u.1 existing u.2).1 updates a w) :
    Detour existing (u :: updates) a w := by
  obtain ⟨before, v, after, rfl, hdrop, hdraft, hvanished, hback⟩ := h
  exact ⟨u :: before, v, after, rfl, hdrop, hdraft, hvanished, hback⟩

/-- How a message of a status is finished after the merges. -/
def Approval (existing : Catalogue) (updates : List (Options × Catalogue))
    (a : Catalogue.Address) (w : Wording) : Status → Prop
  | .finished => True
  | .vanished | .obsolete => ∃ v ∈ updates, Collects v.2 a
  | .unfinished => Detour existing updates a w

/-- **One merge more, at the beginning.** -/
theorem Approval.cons (hpassage : Passage u.1 u.2 a s s') (hbefore : Holds existing a ⟨s, w⟩)
    (hafter : Holds (merge u.1 existing u.2).1 a ⟨s', w⟩)
    (h : Approval (merge u.1 existing u.2).1 updates a w s') :
    Approval existing (u :: updates) a w s := by
  have hlater : (∃ v ∈ updates, Collects v.2 a) → ∃ v ∈ u :: updates, Collects v.2 a := by
    rintro ⟨v, hv, hback⟩
    exact ⟨v, List.mem_cons_of_mem u hv, hback⟩
  cases hpassage with
  | kept hactive =>
    cases s with
    | finished => trivial
    | unfinished => exact Detour.cons h
    | vanished => cases hactive
    | obsolete => cases hactive
  | revived hgone hback =>
    cases s with
    | finished => trivial
    | unfinished => cases hgone
    | vanished => exact ⟨u, List.mem_cons_self, hback⟩
    | obsolete => exact ⟨u, List.mem_cons_self, hback⟩
  | retired hdrop =>
    cases s with
    | finished => trivial
    | unfinished => exact ⟨[], u, updates, rfl, hdrop, hbefore, hafter, h⟩
    | vanished => exact hlater h
    | obsolete => exact hlater h

/-- **A finished wording after any merges was there before them,** and the status it had
says how it came to be approved. -/
theorem exists_approval {q : String × Message} (hq : q ∈ (mergeAll existing updates).messages)
    (hwording : q.2.target.isEmpty = false) (hstatus : q.2.target.status = .finished) :
    ∃ p ∈ existing.messages, addressOf p = addressOf q ∧
      p.2.target.wording = q.2.target.wording ∧
      Approval existing updates (addressOf q) q.2.target.wording p.2.target.status := by
  induction updates generalizing existing with
  | nil =>
    refine ⟨q, hq, rfl, rfl, ?_⟩
    rw [hstatus]
    trivial
  | cons u updates ih =>
    obtain ⟨q', hq', haddress', hwording', happroval⟩ := ih hq
    have hempty' : q'.2.target.isEmpty = false := by
      rw [Target.isEmpty, hwording']
      exact hwording
    obtain ⟨p, hp, haddress, hsame, hpassage⟩ := exists_passage hq' hempty'
    rw [haddress'] at haddress hpassage
    rw [hwording'] at hsame
    refine ⟨p, hp, haddress, hsame, ?_⟩
    exact Approval.cons hpassage ⟨p, hp, haddress, by rw [← hsame]⟩
      ⟨q', hq', haddress', by rw [← hwording']⟩ happroval

/-- **What is served after any merges was there before them,** at the same address and with
the same wording, and it was a draft only if it took the detour. -/
theorem served_after_merges
    (h : Phrasebook.entry? (.ofCatalogue false (mergeAll existing updates)) a = some w) :
    ∃ p ∈ existing.messages, addressOf p = a ∧ p.2.target.wording = w ∧
      (p.2.target.status = .unfinished → Detour existing updates a w) := by
  have hentry := Phrasebook.entry?_loadAll false [mergeAll existing updates] a
  obtain ⟨m, hm, rfl⟩ := Option.map_eq_some_iff.1 (hentry.symm.trans h)
  obtain ⟨hservable, hkey⟩ := Phrasebook.mem_of_lastServable? hm
  obtain ⟨hlisted, hwording, hstatus⟩ := Phrasebook.mem_servables.1 hservable
  have hfinished : m.target.status = .finished :=
    hstatus.resolve_right fun hdraft => Bool.false_ne_true hdraft.1
  rw [List.flatMap_singleton] at hlisted
  have haddress : addressOf (a.1, m) = a := Prod.ext rfl hkey
  obtain ⟨p, hp, hpa, hpw, happroval⟩ := exists_approval hlisted hwording hfinished
  rw [haddress] at hpa happroval
  refine ⟨p, hp, hpa, hpw, fun hdraft => ?_⟩
  rw [hdraft] at happroval
  exact happroval

/-- A draft. -/
def drafted : Catalogue where
  contexts := [{ name := "Window", messages := [
    { source := "Open", target := ⟨.unfinished, .plain "Ouvre"⟩ }] }]

/-- Two updates: the message is missing, and then it is back. -/
def departure : List (Options × Catalogue) :=
  [({}, {}), ({ places := .none }, recollected)]

theorem drafted_departs :
    Phrasebook.entry? (.ofCatalogue false (mergeAll drafted departure)) ("Window", ⟨"Open", ""⟩) =
        some (.plain "Ouvre") ∧
      ∃ p ∈ drafted.messages, addressOf p = ("Window", ⟨"Open", ""⟩) ∧
        p.2.target.wording = .plain "Ouvre" ∧
        (p.2.target.status = .unfinished →
          Detour drafted departure ("Window", ⟨"Open", ""⟩) (.plain "Ouvre")) :=
  ⟨by decide, served_after_merges (by decide)⟩

/-- What is served after some merges may have been nothing but a draft before them. -/
theorem draft_served_after_merges :
    ¬ ∀ (existing : Catalogue) (updates : List (Options × Catalogue)) (a : Catalogue.Address)
      (w : Wording),
      Phrasebook.entry? (.ofCatalogue false (mergeAll existing updates)) a = some w →
        ∃ p ∈ existing.messages, addressOf p = a ∧ p.2.target.wording = w ∧
          p.2.target.status ≠ .unfinished := by
  intro h
  have hserved := h drafted departure ("Window", ⟨"Open", ""⟩) (.plain "Ouvre") (by decide)
  revert hserved
  decide

end Merge
end Linguist
