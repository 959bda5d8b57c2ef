/-!
# Walks along a list

A few ways of going through a list occur throughout the library: adding up a number
for each element, carrying a state from element to element while each is replaced,
changing the first element that has a property, and splitting at the first
occurrence of a mark.
-/

namespace Linguist
namespace Sequence

variable {α β σ : Type}

/-- The sum of a number for each element. -/
def total (f : α → Nat) : List α → Nat
  | [] => 0
  | a :: rest => f a + total f rest

@[simp] theorem total_nil (f : α → Nat) : total f [] = 0 := rfl

@[simp] theorem total_cons (f : α → Nat) (a : α) (rest : List α) :
    total f (a :: rest) = f a + total f rest := rfl

/-- The sum over a list is the sum of the sums over its parts. -/
@[simp] theorem total_append (f : α → Nat) (as bs : List α) :
    total f (as ++ bs) = total f as + total f bs := by
  induction as with
  | nil => simp
  | cons a rest ih => simp [ih, Nat.add_assoc]

/-- Replaces every element in turn, carrying a state along. -/
def thread (f : σ → α → β × σ) : σ → List α → List β × σ
  | s, [] => ([], s)
  | s, a :: rest =>
    let (b, s) := f s a
    let (bs, s) := thread f s rest
    (b :: bs, s)

@[simp] theorem thread_nil (f : σ → α → β × σ) (s : σ) : thread f s [] = ([], s) := rfl

@[simp] theorem thread_cons (f : σ → α → β × σ) (s : σ) (a : α) (rest : List α) :
    thread f s (a :: rest) =
      ((f s a).1 :: (thread f (f s a).2 rest).1, (thread f (f s a).2 rest).2) := rfl

/-- A walk keeps the number of elements. -/
@[simp] theorem length_thread (f : σ → α → β × σ) (s : σ) (as : List α) :
    (thread f s as).1.length = as.length := by
  induction as generalizing s with
  | nil => rfl
  | cons a rest ih => simp [ih]

/-- A list reads back element by element if each of its elements does. -/
theorem mapM_map_eq_pure {m : Type → Type} [Monad m] [LawfulMonad m] {γ : Type} {read : β → m γ}
    {write : α → β} {value : α → γ} {as : List α}
    (h : ∀ a ∈ as, read (write a) = pure (value a)) :
    (as.map write).mapM read = pure (as.map value) := by
  induction as with
  | nil => rfl
  | cons a as ih =>
    obtain ⟨ha, has⟩ := List.forall_mem_cons.1 h
    rw [List.map_cons, List.mapM_cons, ha, pure_bind, ih has, pure_bind, List.map_cons]

/-- Changes the first element with the property; fails if there is none, or if
the change fails. -/
def changeFirst? (p : α → Bool) (f : α → Option α) : List α → Option (List α)
  | [] => none
  | a :: rest =>
    if p a then (f a).map (· :: rest) else (changeFirst? p f rest).map (a :: ·)

@[simp] theorem changeFirst?_nil (p : α → Bool) (f : α → Option α) :
    changeFirst? p f [] = none := rfl

/-- The list with each element that occurs earlier left out. -/
def distinct [BEq α] (as : List α) : List α :=
  as.foldl (fun seen a => if seen.contains a then seen else seen ++ [a]) []

/-- Splits at the first occurrence of a mark, which goes to neither side. -/
def splitMark [BEq α] (mark : List α) : List α → Option (List α × List α)
  | [] => none
  | a :: rest =>
    if mark.isPrefixOf (a :: rest) then some ([], (a :: rest).drop mark.length)
    else (splitMark mark rest).map fun (before, rest) => (a :: before, rest)

/-- What follows a mark is not longer than the list. -/
theorem length_of_splitMark [BEq α] {mark as before rest : List α}
    (h : splitMark mark as = some (before, rest)) : rest.length ≤ as.length := by
  induction as generalizing before with
  | nil => simp [splitMark] at h
  | cons a as ih =>
    unfold splitMark at h
    split at h
    · cases h
      rw [List.length_drop]
      omega
    · obtain ⟨⟨t, r⟩, ht, heq⟩ := Option.map_eq_some_iff.1 h
      cases heq
      exact Nat.le_succ_of_le (ih ht)

end Sequence
end Linguist
