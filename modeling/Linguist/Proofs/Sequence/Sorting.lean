import Mathlib.Order.Lattice
import Linguist.Proofs.Sequence

/-!
# Sorted lists

Contexts, messages and keys are sorted by comparisons that look at one thing first and at
another where the first is equal.  Such comparisons are transitive because their parts are, and
that is all that sorting asks for: a sorted list is in order (`pairwise_sort`), and a list in
order is left as it is (`sort_eq_self_iff`).

If a comparison is that of keys in a linear order, then what sorting does can be said without
it: the keys rise, and elements of one key keep the order they had (`sortedBy_sort`).

If the comparison tells different elements apart, then equals stand side by side in a sorted
list, so that leaving out repetitions of the element before leaves out all of them, and what is
left is *rising* (`rising_eraseReps`).
-/

namespace Linguist
namespace Sequence

variable {α : Type} {cmp : α → α → Ordering}

/-! ## Sorting -/

/-- Comparisons sort alike what they compare alike. -/
theorem sort_congr {cmp' : α → α → Ordering} {as : List α}
    (h : ∀ a ∈ as, ∀ b ∈ as, cmp a b = cmp' a b) :
    (as.mergeSort fun a b => (cmp a b).isLE) = as.mergeSort fun a b => (cmp' a b).isLE := by
  have hmap := List.map_mergeSort (f := id) (r := fun a b => (cmp a b).isLE)
    (s := fun a b => (cmp' a b).isLE) (l := as) fun a ha b hb => congrArg Ordering.isLE (h a ha b hb)
  rwa [List.map_id, List.map_id] at hmap

section Sorting

variable [Std.TransCmp cmp]

theorem isLE_total (a b : α) : (cmp a b).isLE || (cmp b a).isLE := by
  cases h : cmp a b with
  | lt => rfl
  | eq => rfl
  | gt => rw [Std.OrientedCmp.lt_of_gt h]; rfl

/-- A sorted list is in order. -/
theorem pairwise_sort (as : List α) :
    (as.mergeSort fun a b => (cmp a b).isLE).Pairwise fun a b => (cmp a b).isLE :=
  List.pairwise_mergeSort (fun _ _ _ => Std.TransCmp.isLE_trans) isLE_total as

/-- A list is not changed by sorting just when it is in order. -/
theorem sort_eq_self_iff {as : List α} :
    (as.mergeSort fun a b => (cmp a b).isLE) = as ↔ as.Pairwise fun a b => (cmp a b).isLE :=
  ⟨fun h => h ▸ pairwise_sort as, List.mergeSort_of_pairwise⟩

/-- What is in order and part of a list is part of the sorted list. -/
theorem sublist_sort {as bs : List α} (h : bs.Pairwise fun a b => (cmp a b).isLE)
    (hsub : bs.Sublist as) : bs.Sublist (as.mergeSort fun a b => (cmp a b).isLE) :=
  List.sublist_mergeSort (fun _ _ _ => Std.TransCmp.isLE_trans) isLE_total h hsub

end Sorting

/-! ## Lists sorted by a key -/

section Keys

variable {κ : Type} [LinearOrder κ] {key : α → κ}

/-- The second list is the first one sorted by a key: it has the same elements, their keys
rise, and elements of one key keep their order. -/
structure SortedBy (key : α → κ) (as bs : List α) : Prop where
  perm : bs.Perm as
  rising : bs.Pairwise fun a b => key a ≤ key b
  stable : ∀ k, bs.filter (key · = k) = as.filter (key · = k)

theorem isLE_compareOn {a b : α} : (compareOn key a b).isLE ↔ key a ≤ key b :=
  (inferInstance : Std.LawfulBCmp (compare : κ → κ → Ordering)).isLE_iff_le

/-- **Sorting by a comparison of keys sorts by the key.** -/
theorem sortedBy_sort {as : List α}
    (h : ∀ a ∈ as, ∀ b ∈ as, cmp a b = compare (key a) (key b)) :
    SortedBy key as (as.mergeSort fun a b => (cmp a b).isLE) := by
  have hsort : (as.mergeSort fun a b => (cmp a b).isLE) =
      as.mergeSort fun a b => (compareOn key a b).isLE := sort_congr h
  have hperm : (as.mergeSort fun a b => (compareOn key a b).isLE).Perm as :=
    List.mergeSort_perm _ _
  have hrising : (as.mergeSort fun a b => (compareOn key a b).isLE).Pairwise
      fun a b => (compareOn key a b).isLE := pairwise_sort as
  rw [hsort]
  refine ⟨hperm, hrising.imp isLE_compareOn.1, fun k => ?_⟩
  -- elements of one key are in order as they stand, so that sorting does not part them
  have hties : (as.filter (key · = k)).Pairwise fun a b => (compareOn key a b).isLE := by
    refine List.pairwise_of_forall_mem_list fun a ha b hb => ?_
    have hka : key a = k := of_decide_eq_true (List.mem_filter.1 ha).2
    have hkb : key b = k := of_decide_eq_true (List.mem_filter.1 hb).2
    exact isLE_compareOn.2 (le_of_eq (hka.trans hkb.symm))
  have hsub : (as.filter (key · = k)).Sublist
      (as.mergeSort fun a b => (compareOn key a b).isLE) := sublist_sort hties List.filter_sublist
  have hkept := hsub.filter (key · = k)
  rw [List.filter_filter] at hkept
  simp only [Bool.and_self] at hkept
  exact (hkept.eq_of_length (hperm.filter _).length_eq.symm).symm

end Keys

/-! ## Rising lists -/

/-- Each element is less than those behind it. -/
def Rising (cmp : α → α → Ordering) (as : List α) : Prop :=
  as.Pairwise fun a b => cmp a b = .lt

/-- A rising list has no repetitions. -/
theorem Rising.nodup [Std.ReflCmp cmp] {as : List α} (h : Rising cmp as) : as.Nodup := by
  refine List.Pairwise.imp (fun {a b} hlt hab => ?_) h
  subst hab
  exact nomatch hlt.symm.trans Std.ReflCmp.compare_self

section EraseReps

variable [BEq α] [LawfulBEq α]

omit [LawfulBEq α] in
theorem eraseRepsBy_loop (a : α) (as acc : List α) :
    List.eraseRepsBy.loop (· == ·) a as acc = acc.reverse ++ (a :: as).eraseReps := by
  induction as generalizing a acc with
  | nil => simp [List.eraseRepsBy.loop, List.eraseReps, List.eraseRepsBy]
  | cons b as ih =>
    have hreps : (a :: b :: as).eraseReps = List.eraseRepsBy.loop (· == ·) a (b :: as) [] := rfl
    rw [hreps, List.eraseRepsBy.loop, List.eraseRepsBy.loop]
    cases a == b with
    | true => exact ih a acc
    | false =>
      show List.eraseRepsBy.loop (· == ·) b as (a :: acc) =
        acc.reverse ++ List.eraseRepsBy.loop (· == ·) b as [a]
      rw [ih b (a :: acc), ih b [a], List.reverse_cons, List.append_assoc]
      rfl

omit [LawfulBEq α] in
theorem eraseReps_cons_cons (a b : α) (as : List α) :
    (a :: b :: as).eraseReps =
      if a == b then (a :: as).eraseReps else a :: (b :: as).eraseReps := by
  have hreps : (a :: b :: as).eraseReps = List.eraseRepsBy.loop (· == ·) a (b :: as) [] := rfl
  rw [hreps, List.eraseRepsBy.loop]
  cases a == b with
  | true => rfl
  | false => exact eraseRepsBy_loop b as [a]

/-- Leaving out repetitions leaves nothing out altogether. -/
@[simp] theorem mem_eraseReps {as : List α} {a : α} : a ∈ as.eraseReps ↔ a ∈ as := by
  match as with
  | [] => exact Iff.rfl
  | [b] => exact Iff.rfl
  | b :: c :: as =>
    rw [eraseReps_cons_cons]
    split
    · rename_i hbc
      rw [mem_eraseReps, eq_of_beq hbc, List.mem_cons, List.mem_cons, List.mem_cons, or_self_left]
    · rw [List.mem_cons, mem_eraseReps, ← List.mem_cons]
termination_by as.length

/-- **What is left of a sorted list is rising.** -/
theorem rising_eraseReps [Std.TransCmp cmp] [Std.LawfulEqCmp cmp] {as : List α}
    (h : as.Pairwise fun a b => (cmp a b).isLE) : Rising cmp as.eraseReps := by
  match as with
  | [] => exact List.Pairwise.nil
  | [a] => exact List.pairwise_singleton _ _
  | a :: b :: as =>
    rw [eraseReps_cons_cons]
    obtain ⟨ha, hrest⟩ := List.pairwise_cons.1 h
    split
    · exact rising_eraseReps (h.sublist ((List.sublist_cons_self b as).cons_cons a))
    · rename_i hab
      have hlt : cmp a b = .lt := by
        have hle := ha b List.mem_cons_self
        cases hcmp : cmp a b with
        | lt => rfl
        | eq => exact absurd (beq_iff_eq.2 (Std.LawfulEqCmp.eq_of_compare hcmp)) hab
        | gt => rw [hcmp] at hle; cases hle
      refine List.pairwise_cons.2 ⟨fun c hc => ?_, rising_eraseReps hrest⟩
      rcases List.mem_cons.1 (mem_eraseReps.1 hc) with rfl | hc
      · exact hlt
      · exact Std.TransCmp.lt_of_lt_of_isLE hlt ((List.pairwise_cons.1 hrest).1 c hc)
termination_by as.length

end EraseReps

end Sequence
end Linguist
