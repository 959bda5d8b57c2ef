import Linguist.Proofs.Merge.Pool

/-!
# The ledger of a merge

Every collected message is entered in a ledger, in order, with where its merged message
comes from: an old message that was kept, an old message that was revived, or nothing.
The ledger is not computed by the merge; it is what the merge can be shown to have done.

## What one step does

A collected message takes at most one old message from the pools, under its own key and
the name of its context.  If it does, the merged message has the wording of the old one,
and if not, it has none.  Exactly one of four counters goes up by one.

## Runs

A *run* leads from one state to another along a stretch of the ledger, and what it states
is closed under composition (`Run.append`): the merged messages are explained by the
entries, what was left at the start is what the entries took together with what is left
at the end, and the counters count the entries.  So the whole merge of the collected
messages is a run because each of its steps is (`exists_run_walked`).
-/

namespace Linguist
namespace Merge

/-! ## Entries -/

/-- Where a merged message comes from. -/
inductive Origin where
  | kept (old : Message)
  | revived (old : Message)
  | added
  | sameText
  deriving DecidableEq, Repr

namespace Origin

/-- The old message that was taken. -/
def old? : Origin → Option Message
  | kept old | revived old => some old
  | added | sameText => none

/-- The target of the merged message: that of an old message with its status brought up
to date, or an unfinished one without wording. -/
def Leaves (origin : Origin) (target : Target) : Prop :=
  match origin with
  | kept old => old.target.status.isActive ∧ target = old.target
  | revived old =>
    ¬ old.target.status.isActive ∧ target = ⟨revivedStatus old.target, old.target.wording⟩
  | added | sameText => target.status = .unfinished ∧ target.isEmpty

end Origin

/-- A collected message, the name of its context, and where its merged message comes
from. -/
structure Entry where
  context : String
  collected : Message
  origin : Origin
  deriving DecidableEq, Repr

namespace Entry

/-- The collected message as it is listed. -/
def listed (e : Entry) : String × Message :=
  (e.context, e.collected)

/-- The address of the collected message. -/
def address (e : Entry) : Catalogue.Address :=
  addressOf e.listed

/-- The old message as it is listed. -/
def old? (e : Entry) : Option (String × Message) :=
  e.origin.old?.map (e.context, ·)

/-- A listed message is what came of the entry: it stands at the address of the collected
message, where the old one stood too, and has the target that the origin leaves. -/
structure Explains (e : Entry) (p : String × Message) : Prop where
  address : addressOf p = e.address
  old : ∀ q, e.old? = some q → addressOf q = e.address
  target : e.origin.Leaves p.2.target

end Entry

/-- The old messages that were taken. -/
def olds (ledger : List Entry) : List (String × Message) :=
  ledger.filterMap Entry.old?

@[simp] theorem olds_append (l₁ l₂ : List Entry) : olds (l₁ ++ l₂) = olds l₁ ++ olds l₂ :=
  List.filterMap_append

/-! ## Counters -/

namespace Report

/-- The counters of two stretches of work. -/
def plus (r₁ r₂ : Report) : Report where
  kept := r₁.kept + r₂.kept
  added := r₁.added + r₂.added
  revived := r₁.revived + r₂.revived
  sameText := r₁.sameText + r₂.sameText
  vanished := r₁.vanished + r₂.vanished
  pruned := r₁.pruned + r₂.pruned

theorem zero_plus (r : Report) : plus {} r = r := by
  simp [plus]

theorem plus_assoc (r₁ r₂ r₃ : Report) : (r₁.plus r₂).plus r₃ = r₁.plus (r₂.plus r₃) := by
  simp [plus, Nat.add_assoc]

end Report

/-- The one counter that a merged message of this origin adds to. -/
def Origin.count : Origin → Report
  | kept _ => { kept := 1 }
  | revived _ => { revived := 1 }
  | added => { added := 1 }
  | sameText => { sameText := 1 }

/-- The counters that a ledger calls for. -/
def tally : List Entry → Report
  | [] => {}
  | e :: rest => e.origin.count.plus (tally rest)

@[simp] theorem tally_append (l₁ l₂ : List Entry) :
    tally (l₁ ++ l₂) = (tally l₁).plus (tally l₂) := by
  induction l₁ with
  | nil => exact (Report.zero_plus _).symm
  | cons e rest ih =>
    rw [List.cons_append, tally, ih, tally, Report.plus_assoc]

@[simp] theorem tally_vanished (ledger : List Entry) : (tally ledger).vanished = 0 := by
  induction ledger with
  | nil => rfl
  | cons e rest ih =>
    rw [tally, Report.plus, ih]
    cases e.origin <;> rfl

@[simp] theorem tally_pruned (ledger : List Entry) : (tally ledger).pruned = 0 := by
  induction ledger with
  | nil => rfl
  | cons e rest ih =>
    rw [tally, Report.plus, ih]
    cases e.origin <;> rfl

/-- Every entry is counted once. -/
theorem tally_total (ledger : List Entry) :
    (tally ledger).kept + (tally ledger).added + (tally ledger).revived +
      (tally ledger).sameText = ledger.length := by
  induction ledger with
  | nil => rfl
  | cons e rest ih =>
    have hone : e.origin.count.kept + e.origin.count.added + e.origin.count.revived +
        e.origin.count.sameText = 1 := by
      cases e.origin <;> rfl
    rw [List.length_cons, tally]
    simp only [Report.plus]
    omega

/-- What was taken was kept or revived. -/
theorem length_olds (ledger : List Entry) :
    (olds ledger).length = (tally ledger).kept + (tally ledger).revived := by
  induction ledger with
  | nil => rfl
  | cons e rest ih =>
    have hone : (olds [e]).length = e.origin.count.kept + e.origin.count.revived := by
      obtain ⟨_, _, origin⟩ := e
      cases origin <;> rfl
    rw [← List.singleton_append, olds_append, List.length_append, List.singleton_append, tally]
    simp only [Report.plus]
    omega

/-! ## Runs -/

/-- From one state to another along a stretch of the ledger. -/
structure Run (s s' : State) (ledger : List Entry) (merged : List (String × Message)) :
    Prop where
  explained : List.Forall₂ Entry.Explains ledger merged
  old : (listing (left s.pools)).Perm (olds ledger ++ listing (left s'.pools))
  report : s'.report = s.report.plus (tally ledger)
  sound : Sound s.pools → Sound s'.pools
  /-- An entry that found nothing at an address with an old message came after one that
  took it. -/
  missed : Sound s.pools → ∀ e ∈ ledger, e.old? = none →
    e.address ∈ (listing (left s.pools)).map addressOf → e.address ∈ (olds ledger).map addressOf

namespace Run

variable {s s' s'' : State} {l₁ l₂ : List Entry} {m₁ m₂ : List (String × Message)}

theorem nil (s : State) : Run s s [] [] where
  explained := .nil
  old := .refl _
  report := rfl
  sound := id
  missed := fun _ _ he => absurd he List.not_mem_nil

/-- **A run after a run is a run.** -/
theorem append (h₁ : Run s s' l₁ m₁) (h₂ : Run s' s'' l₂ m₂) :
    Run s s'' (l₁ ++ l₂) (m₁ ++ m₂) where
  explained := List.rel_append h₁.explained h₂.explained
  old := by
    rw [olds_append, List.append_assoc]
    exact h₁.old.trans (h₂.old.append_left _)
  report := by rw [h₂.report, h₁.report, Report.plus_assoc, tally_append]
  sound := fun hs => h₂.sound (h₁.sound hs)
  missed := by
    intro hs e he hnone hmem
    rw [olds_append, List.map_append, List.mem_append]
    rcases List.mem_append.1 he with he | he
    · exact .inl (h₁.missed hs e he hnone hmem)
    · -- what was there at the start was taken by the first run or is there for the second
      have hsplit := (h₁.old.map addressOf).mem_iff.1 hmem
      rw [List.map_append, List.mem_append] at hsplit
      rcases hsplit with htaken | hleft
      · exact .inl htaken
      · exact .inr (h₂.missed (h₁.sound hs) e he hnone hleft)

end Run

/-! ## One collected message -/

variable (setting : Setting) (context : String) (s : State) (collected : Message)

theorem mergeMessage_of_some {old : Message} {pools : List Pool}
    (h : take? context collected.key s.pools = some (old, pools)) :
    mergeMessage setting context s collected =
      ((mergeOld old collected s.report).1, ⟨pools, (mergeOld old collected s.report).2⟩) := by
  rw [mergeMessage, h]

theorem mergeMessage_of_none (h : take? context collected.key s.pools = none) :
    mergeMessage setting context s collected =
      ((mergeNew setting collected s.report).1,
        ⟨s.pools, (mergeNew setting collected s.report).2⟩) := by
  rw [mergeMessage, h]

/-- A message that takes an old one keeps or revives it. -/
theorem exists_origin_mergeOld (old : Message) (r : Report) :
    ∃ origin : Origin, origin.old? = some old ∧
      origin.Leaves (mergeOld old collected r).1.target ∧
      (mergeOld old collected r).2 = r.plus (tally [⟨context, collected, origin⟩]) := by
  by_cases hactive : old.target.status.isActive
  · refine ⟨.kept old, rfl, ?_, ?_⟩
    · rw [mergeOld, if_pos hactive]
      exact ⟨hactive, rfl⟩
    · rw [mergeOld, if_pos hactive]
      rfl
  · refine ⟨.revived old, rfl, ?_, ?_⟩
    · rw [mergeOld, if_neg hactive]
      exact ⟨hactive, rfl⟩
    · rw [mergeOld, if_neg hactive]
      rfl

@[simp] theorem isEmpty_newTarget (formCount : Nat) (isPlural : Bool) :
    (newTarget formCount isPlural).isEmpty = true := by
  cases isPlural with
  | false => rfl
  | true => simp [newTarget, Target.isEmpty, Wording.isEmpty, Wording.all]

/-- A message that takes nothing is new, with or without a suggestion. -/
theorem exists_origin_mergeNew (r : Report) :
    ∃ origin : Origin, origin.old? = none ∧
      origin.Leaves (mergeNew setting collected r).1.target ∧
      (mergeNew setting collected r).2 = r.plus (tally [⟨context, collected, origin⟩]) := by
  have hempty := isEmpty_newTarget setting.formCount collected.isPlural
  rw [mergeNew]
  split
  · exact ⟨.sameText, rfl, ⟨rfl, hempty⟩, rfl⟩
  · exact ⟨.added, rfl, ⟨rfl, hempty⟩, rfl⟩

theorem key_mergeOld {old : Message} (h : old.key = collected.key) (r : Report) :
    (mergeOld old collected r).1.key = collected.key := by
  rw [mergeOld, ← h]
  split <;> rfl

theorem key_mergeNew (r : Report) : (mergeNew setting collected r).1.key = collected.key := by
  rw [mergeNew]
  split <;> rfl

/-- **One collected message is a run** of one entry. -/
theorem exists_run_mergeMessage :
    ∃ origin, Run s (mergeMessage setting context s collected).2 [⟨context, collected, origin⟩]
      [(context, (mergeMessage setting context s collected).1)] := by
  cases htake : take? context collected.key s.pools with
  | some taken =>
    obtain ⟨old, pools⟩ := taken
    obtain ⟨origin, hold, hleaves, hreport⟩ :=
      exists_origin_mergeOld context collected old s.report
    have hentry : Entry.old? ⟨context, collected, origin⟩ = some (context, old) := by
      rw [Entry.old?, hold]
      rfl
    have hkey : old.key = collected.key := key_of_take? htake
    have holds : olds [⟨context, collected, origin⟩] = [(context, old)] := by
      rw [olds, List.filterMap_cons_some hentry]
      rfl
    rw [mergeMessage_of_some setting context s collected htake]
    refine ⟨origin, ⟨.cons ⟨?_, ?_, hleaves⟩ .nil, ?_, hreport, ?_, ?_⟩⟩
    · exact congrArg (context, ·) (key_mergeOld collected hkey s.report)
    · intro q hq
      rw [hentry] at hq
      cases hq
      exact congrArg (context, ·) hkey
    · rw [holds]
      exact perm_of_take? htake
    · exact fun hsound => hsound.take? htake
    · intro _ e he hnone
      rw [List.mem_singleton.1 he, hentry] at hnone
      cases hnone
  | none =>
    obtain ⟨origin, hold, hleaves, hreport⟩ :=
      exists_origin_mergeNew setting context collected s.report
    have hentry : Entry.old? ⟨context, collected, origin⟩ = none := by
      rw [Entry.old?, hold]
      rfl
    have holds : olds [⟨context, collected, origin⟩] = [] := by
      rw [olds, List.filterMap_cons_none hentry]
      rfl
    rw [mergeMessage_of_none setting context s collected htake]
    refine ⟨origin, ⟨.cons ⟨?_, ?_, hleaves⟩ .nil, ?_, hreport, id, ?_⟩⟩
    · exact congrArg (context, ·) (key_mergeNew setting collected s.report)
    · intro q hq
      rw [hentry] at hq
      cases hq
    · rw [holds]
      exact .refl _
    · intro hsound e he _ hmem
      rw [List.mem_singleton.1 he] at hmem
      exact absurd hmem (notMem_of_take? hsound htake)

/-! ## All collected messages -/

theorem exists_run_mergeMessages (messages : List Message) :
    ∃ ledger : List Entry, ledger.map Entry.listed = messages.map (context, ·) ∧
      Run s (Sequence.thread (mergeMessage setting context) s messages).2 ledger
        ((Sequence.thread (mergeMessage setting context) s messages).1.map (context, ·)) := by
  induction messages generalizing s with
  | nil => exact ⟨[], rfl, .nil s⟩
  | cons m rest ih =>
    obtain ⟨origin, hhead⟩ := exists_run_mergeMessage setting context s m
    obtain ⟨ledger, hledger, hrest⟩ := ih (mergeMessage setting context s m).2
    exact ⟨⟨context, m, origin⟩ :: ledger, congrArg ((context, m) :: ·) hledger,
      hhead.append hrest⟩

theorem exists_run_mergeContexts (contexts : List Context) :
    ∃ ledger : List Entry, ledger.map Entry.listed = listing contexts ∧
      Run s (Sequence.thread (mergeContext setting) s contexts).2 ledger
        (listing (Sequence.thread (mergeContext setting) s contexts).1) := by
  induction contexts generalizing s with
  | nil => exact ⟨[], rfl, .nil s⟩
  | cons x rest ih =>
    obtain ⟨l₁, hl₁, hhead⟩ := exists_run_mergeMessages setting x.name s x.messages
    obtain ⟨l₂, hl₂, hrest⟩ := ih (mergeContext setting s x).2
    refine ⟨l₁ ++ l₂, ?_, hhead.append hrest⟩
    rw [List.map_append, hl₁, hl₂]
    rfl

/-- The collected contexts, merged, and what they leave in the pools. -/
def walked (options : Options) (existing extracted : Catalogue) : List Context × State :=
  Sequence.thread (mergeContext (settingOf options existing))
    ⟨existing.contexts.map Pool.ofContext, {}⟩ extracted.contexts

/-- **The merge of the collected contexts is a run,** with an entry for every collected
message in its order. -/
theorem exists_run_walked (options : Options) (existing extracted : Catalogue) :
    ∃ ledger : List Entry, ledger.map Entry.listed = extracted.messages ∧
      Run ⟨existing.contexts.map Pool.ofContext, {}⟩ (walked options existing extracted).2 ledger
        (listing (walked options existing extracted).1) :=
  exists_run_mergeContexts _ _ extracted.contexts

end Merge
end Linguist
