import Mathlib.Data.List.Forall2
import Linguist.Sequence

/-!
# Lists related element by element

Much of what is said about two catalogues, or about calls and the places where they are found,
is that two lists belong together, each element of the one to the element of the other at the
same place.  Here is what follows for the elements (`exists_of_forall₂`), for properties that
related elements share (`forall_iff_of_forall₂`), and for a third list (`forall₂_comp`).
-/

namespace Linguist
namespace Sequence

variable {α β γ σ : Type}

/-- What each step relates, the walk relates element by element. -/
theorem forall₂_thread {R : α → β → Prop} {f : σ → α → β × σ} (h : ∀ s a, R a (f s a).1)
    (s : σ) (as : List α) : List.Forall₂ R as (thread f s as).1 := by
  induction as generalizing s with
  | nil => exact .nil
  | cons a rest ih => exact .cons (h s a) (ih _)

theorem map_eq_map {f : α → γ} {g : β → γ} {as : List α} {bs : List β}
    (h : List.Forall₂ (fun a b => f a = g b) as bs) : as.map f = bs.map g := by
  induction h with
  | nil => rfl
  | cons hhead _ ih => rw [List.map_cons, List.map_cons, hhead, ih]

theorem exists_of_forall₂ {R : α → β → Prop} {as : List α} {bs : List β}
    (h : List.Forall₂ R as bs) {a : α} (ha : a ∈ as) : ∃ b ∈ bs, R a b := by
  induction h with
  | nil => cases ha
  | cons hhead _ ih =>
    rcases List.mem_cons.1 ha with rfl | ha
    · exact ⟨_, List.mem_cons_self, hhead⟩
    · obtain ⟨b, hb, hab⟩ := ih ha
      exact ⟨b, List.mem_cons_of_mem _ hb, hab⟩

theorem forall_iff_of_forall₂ {R : α → β → Prop} {P : α → Prop} {Q : β → Prop}
    (hR : ∀ a b, R a b → (P a ↔ Q b)) {as : List α} {bs : List β} (h : List.Forall₂ R as bs) :
    (∀ a ∈ as, P a) ↔ ∀ b ∈ bs, Q b := by
  induction h with
  | nil => simp
  | cons hhead _ ih => rw [List.forall_mem_cons, List.forall_mem_cons, hR _ _ hhead, ih]

/-- Whether elements are also related otherwise can be seen in the second list, if it can be seen
in each of its elements. -/
theorem forall₂_iff_forall {R S : α → β → Prop} {Q : β → Prop}
    (hR : ∀ a b, R a b → (S a b ↔ Q b)) {as : List α} {bs : List β} (h : List.Forall₂ R as bs) :
    List.Forall₂ S as bs ↔ ∀ b ∈ bs, Q b := by
  induction h with
  | nil => simp
  | cons hhead _ ih => rw [List.forall₂_cons, List.forall_mem_cons, hR _ _ hhead, ih]

/-- Related elements of three lists, from one to the next and from there to the last. -/
theorem forall₂_comp {R : α → β → Prop} {S : β → γ → Prop} {T : α → γ → Prop} {as : List α}
    {bs : List β} {cs : List γ} (hab : List.Forall₂ R as bs) (hbc : List.Forall₂ S bs cs)
    (h : ∀ a b c, R a b → S b c → T a c) : List.Forall₂ T as cs := by
  induction hab generalizing cs with
  | nil =>
    cases hbc
    exact .nil
  | cons hhead _ ih =>
    cases hbc with
    | cons hhead' hrest => exact .cons (h _ _ _ hhead hhead') (ih hrest)

end Sequence

end Linguist
