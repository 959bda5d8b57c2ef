import Mathlib.Data.List.Basic
import Linguist.Disk

/-!
# What is written can be read

A file that was written is what the path leads to (`Disk.entry?_of_write`).  Writing goes to
the folder that all steps of the path but the last lead to, and puts a file there under the
last name; reading follows all steps.  That it comes to the same place needs no more than
that putting a file makes and removes no folder, so that whatever could be followed before
is followed in the same way after.
-/

namespace Linguist
namespace Disk

variable {d : Disk} {a b c : Address} {bytes : List UInt8}

@[simp] theorem isFolder_put (d : Disk) (a : Address) (bytes : List UInt8) (b : Address) :
    (d.put a bytes).isFolder b = d.isFolder b := rfl

@[simp] theorem start_put (d : Disk) (a : Address) (bytes : List UInt8) (path : String) :
    (d.put a bytes).start path = d.start path := rfl

/-- The address that one step leads to. -/
def stepTo (a : Address) : Part → Address
  | .here => a
  | .up => a.dropLast
  | .name s => a ++ [s]

theorem follow_cons (d : Disk) (a : Address) (step : Part) (steps : List Part) :
    d.follow a (step :: steps) =
      if d.isFolder a then d.follow (stepTo a step) steps else .error (d.whyNoFolder a) := by
  cases step <;> rfl

/-- Steps that lead somewhere lead there after a file is put. -/
theorem follow_put {steps : List Part} (h : d.follow a steps = .ok b) :
    (d.put c bytes).follow a steps = .ok b := by
  induction steps generalizing a with
  | nil => exact h
  | cons step steps ih =>
    rw [follow_cons] at h ⊢
    rw [isFolder_put]
    split at h
    · rename_i hfolder
      rw [if_pos hfolder]
      exact ih h
    · cases h

/-- A step more leads from the folder at the end to a name in it. -/
theorem follow_concat_name {steps : List Part} {s : String} (h : d.follow a steps = .ok b)
    (hb : d.isFolder b = true) : d.follow a (steps ++ [.name s]) = .ok (b ++ [s]) := by
  induction steps generalizing a with
  | nil =>
    obtain rfl := Except.ok.inj h
    rw [List.nil_append, follow_cons, if_pos hb]
    rfl
  | cons step steps ih =>
    rw [follow_cons] at h
    rw [List.cons_append, follow_cons]
    split at h
    · rename_i hfolder
      rw [if_pos hfolder]
      exact ih h
    · cases h

/-- A path that allows to write a file leads through a folder to a name in it. -/
theorem exists_of_target {path : String} (h : d.target path = .ok c) :
    path.isEmpty = false ∧ ∃ (before : List Part) (a : Address) (s : String),
      Path.steps path = before ++ [.name s] ∧ d.follow (d.start path) before = .ok a ∧
        d.isFolder a = true ∧ c = a ++ [s] ∧ d.isFolder c = false := by
  rw [target] at h
  split at h
  · cases h
  · rename_i hpath
    refine ⟨Bool.eq_false_iff.2 hpath, ?_⟩
    split at h
    · cases h
    · rename_i a s hfollow hlast
      split at h
      · cases h
      · rename_i hfolder
        split at h
        · cases h
        · rename_i hfree
          obtain rfl := Except.ok.inj h
          have hsteps : Path.steps path = (Path.steps path).dropLast ++ [.name s] :=
            (List.dropLast_append_getLast? _ hlast).symm
          exact ⟨_, a, s, hsteps, hfollow, by simpa using hfolder, rfl, by simpa using hfree⟩
    · cases h

/-- **A file that was written is found at its path,** with the bytes that were written. -/
theorem entry?_of_write {d' : Disk} {path : String} (h : d.write path bytes = .ok d') :
    d'.entry? path = some (.file bytes) := by
  rw [write] at h
  cases htarget : d.target path with
  | error o =>
    rw [htarget] at h
    cases h
  | ok c =>
    rw [htarget] at h
    obtain rfl := Except.ok.inj h
    obtain ⟨hpath, before, a, s, hsteps, hfollow, hfolder, rfl, hfree⟩ := exists_of_target htarget
    have hway : (d.put (a ++ [s]) bytes).follow (d.start path) (Path.steps path) =
        .ok (a ++ [s]) := by
      rw [hsteps]
      exact follow_put (follow_concat_name hfollow hfolder)
    rw [ entry?, if_neg (Bool.eq_false_iff.1 hpath), start_put, hway]
    show (d.put (a ++ [s]) bytes).entryAt? (a ++ [s]) = _
    rw [entryAt?, isFolder_put, hfree, contents?_put_self]
    rfl

end Disk
end Linguist
