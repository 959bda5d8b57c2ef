import Linguist.Command.Run
import Linguist.Proofs.Disk

/-!
# Actions that succeed

An action that succeeds in a session gives a value and leaves a session (`Action.Gives`).
What it takes to succeed is said once for each kind of step, and a composed action succeeds
if and only if its steps do, one in the session that the other leaves (`gives_bind_iff`).  So
a success can be taken apart step by step, without looking at the sessions in which
something fails.

Reading a catalogue leaves the session as it is.  Writing one leaves a disk from which the
written text is read at the same path (`entry?_of_writeCatalogue`).
-/

namespace Linguist
namespace Command
namespace Action

variable {α β ε : Type} {x : Action α} {f : α → Action β} {a : α} {b : β} {s s' s'' : Session}

/-- An action succeeds in a session, gives a value, and leaves a session. -/
def Gives (x : Action α) (s : Session) (a : α) (s' : Session) : Prop :=
  x.run s = .ok a s'

/-! ## Steps -/

theorem gives_pure_iff {a' : α} : Gives (pure a) s a' s' ↔ a = a' ∧ s' = s := by
  show EStateM.Result.ok a s = EStateM.Result.ok a' s' ↔ _
  rw [EStateM.Result.ok.injEq]
  exact and_congr_right fun _ => eq_comm

theorem not_gives_throw (failure : Failure) : ¬ Gives (throw failure : Action α) s a s' := by
  intro h
  cases h

/-- **Two actions, one after the other.** -/
theorem gives_bind_iff :
    Gives (x >>= f) s b s'' ↔ ∃ a s', Gives x s a s' ∧ Gives (f a) s' b s'' := by
  rw [Gives, EStateM.run_bind]
  cases hx : x.run s with
  | ok a s' =>
    constructor
    · exact fun h => ⟨a, s', hx, h⟩
    · rintro ⟨a', t, ha, h⟩
      obtain ⟨rfl, rfl⟩ := EStateM.Result.ok.inj (hx.symm.trans ha)
      exact h
  | error e s' =>
    constructor
    · exact fun h => by cases h
    · rintro ⟨a', t, ha, -⟩
      cases hx.symm.trans ha

theorem gives_orFail_iff {failure : ε → Failure} {r : Except ε α} :
    Gives (orFail failure r) s a s' ↔ r = .ok a ∧ s' = s := by
  cases r with
  | ok a' =>
    rw [orFail, gives_pure_iff, Except.ok.injEq]
  | error e => exact iff_of_false (not_gives_throw _) fun h => by cases h.1

theorem gives_say_iff {line : String} {u : Unit} :
    Gives (say line) s u s' ↔ s' = { s with output := s.output ++ line ++ "\n" } := by
  show EStateM.Result.ok () { s with output := s.output ++ line ++ "\n" } =
    EStateM.Result.ok u s' ↔ _
  rw [EStateM.Result.ok.injEq]
  exact (and_iff_right rfl).trans eq_comm

/-! ## Reading -/

theorem gives_readFile_iff {path : String} {bytes : List UInt8} :
    Gives (readFile path) s bytes s' ↔ s.disk.entry? path = some (.file bytes) ∧ s' = s := by
  rw [readFile, gives_bind_iff]
  constructor
  · rintro ⟨t, t', hget, hrest⟩
    obtain ⟨rfl, rfl⟩ := EStateM.Result.ok.inj hget
    split at hrest
    · exact absurd hrest (not_gives_throw _)
    · exact absurd hrest (not_gives_throw _)
    · rename_i hentry
      obtain ⟨rfl, rfl⟩ := gives_pure_iff.1 hrest
      exact ⟨hentry, rfl⟩
  · rintro ⟨hentry, rfl⟩
    refine ⟨s', s', rfl, ?_⟩
    simp only [hentry]
    exact gives_pure_iff.2 ⟨rfl, rfl⟩

/-- **A catalogue is read if and only if its file is there and its bytes are those of a
catalogue,** and the session stays as it is. -/
theorem gives_readCatalogue_iff [Bytes.Registry] {path : String} {c : Catalogue} :
    Gives (readCatalogue path) s c s' ↔
      (∃ bytes, s.disk.entry? path = some (.file bytes) ∧ (formatOf path).read bytes = .ok c) ∧
        s' = s := by
  rw [readCatalogue, gives_bind_iff]
  constructor
  · rintro ⟨bytes, t, hfile, hread⟩
    obtain ⟨hentry, rfl⟩ := gives_readFile_iff.1 hfile
    obtain ⟨hcatalogue, rfl⟩ := gives_orFail_iff.1 hread
    exact ⟨⟨bytes, hentry, hcatalogue⟩, rfl⟩
  · rintro ⟨⟨bytes, hentry, hread⟩, rfl⟩
    exact ⟨bytes, s', gives_readFile_iff.2 ⟨hentry, rfl⟩, gives_orFail_iff.2 ⟨hread, rfl⟩⟩

/-! ## Writing -/

/-- **What was written is found at its path.** -/
theorem entry?_of_writeCatalogue {path : String} {c : Catalogue} {u : Unit}
    (h : Gives (writeCatalogue path c) s u s') :
    s'.disk.entry? path = some (.file (Bytes.ofText ((formatOf path).render c))) := by
  obtain ⟨_, t, -, hwriteAs⟩ := gives_bind_iff.1 h
  obtain ⟨_, t₁, -, hwriteFile⟩ := gives_bind_iff.1 hwriteAs
  obtain ⟨d, t₂, hdisk, hmodify⟩ := gives_bind_iff.1 hwriteFile
  obtain ⟨hwrite, -⟩ := gives_orFail_iff.1 hdisk
  obtain ⟨-, rfl⟩ := EStateM.Result.ok.inj hmodify
  exact Disk.entry?_of_write hwrite

/-! ## Outcomes -/

/-- The outcome of an action that succeeds. -/
theorem outcome_of_gives {x : Action Unit} {d : Disk} {u : Unit}
    (h : Gives x { disk := d } u s) : x.outcome d = ⟨s.disk, s.output, s.notes, .done⟩ := by
  rw [outcome, show x.run { disk := d } = .ok u s from h]

/-- An action that ends well has succeeded. -/
theorem exists_gives_of_done {x : Action Unit} {d : Disk} (h : (x.outcome d).ending = .done) :
    ∃ s, Gives x { disk := d } () s := by
  rw [outcome] at h
  split at h
  · rename_i s hrun
    exact ⟨s, hrun⟩
  · cases h

end Action
end Command
end Linguist
