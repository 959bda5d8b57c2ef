import Mathlib.Algebra.BigOperators.Group.List.Lemmas
import Mathlib.Algebra.GroupWithZero.Nat
import Mathlib.Data.List.Induction
import Linguist.Proofs.Sequence

/-!
# Groups in order of first appearance

Items come one after the other, each with a key, and each is taken into the element of its
key, which is begun when the first of them comes.  In the end there is one element for each
key, the elements stand in the order in which their keys first appeared, and each has taken
in the items of its key, in their order and no others (`gather_eq`).

The order of first appearance is that of a list without its repetitions (`distinct`): a
further item changes nothing if it is there already, and else it goes to the end
(`distinct_concat`).  Without reference to how it is made, it is the order of the places at
which the keys are found first (`firstSeen_distinct`).  Both this and the groups are built from
the left, so that the inductions go along the items that have come so far.
-/

namespace Linguist
namespace Sequence

variable {α κ υ : Type}

/-! ## Without repetitions -/

/-- The elements of a list, each once, in the order in which they first appear in it. -/
structure FirstSeen [BEq κ] (ks firsts : List κ) : Prop where
  mem : ∀ k, k ∈ firsts ↔ k ∈ ks
  order : firsts.Pairwise fun j k => ks.idxOf j < ks.idxOf k

section Distinct

variable [BEq κ] [LawfulBEq κ]

theorem distinct_concat_eq_ite (ks : List κ) (k : κ) :
    distinct (ks ++ [k]) = if k ∈ distinct ks then distinct ks else distinct ks ++ [k] := by
  rw [distinct, List.foldl_append, List.foldl_cons, List.foldl_nil]
  exact if_congr List.contains_iff_mem rfl rfl

/-- Leaving out repetitions leaves nothing out altogether. -/
@[simp] theorem mem_distinct {ks : List κ} {k : κ} : k ∈ distinct ks ↔ k ∈ ks := by
  induction ks using List.reverseRecOn with
  | nil => exact Iff.rfl
  | append_singleton ks j ih =>
    rw [distinct_concat_eq_ite, List.mem_append, List.mem_singleton]
    split
    · rename_i hj
      rw [ih]
      refine ⟨Or.inl, fun h => h.elim id fun hkj => ?_⟩
      rwa [← ih, hkj]
    · rw [List.mem_append, List.mem_singleton, ih]

/-- A further key is new or changes nothing. -/
theorem distinct_concat (ks : List κ) (k : κ) :
    distinct (ks ++ [k]) = if k ∈ ks then distinct ks else distinct ks ++ [k] := by
  rw [distinct_concat_eq_ite]
  exact if_congr mem_distinct rfl rfl

theorem nodup_distinct (ks : List κ) : (distinct ks).Nodup := by
  induction ks using List.reverseRecOn with
  | nil => exact List.nodup_nil
  | append_singleton ks k ih =>
    rw [distinct_concat]
    split
    · exact ih
    · rename_i hk
      exact List.nodup_append_comm.1 (List.nodup_cons.2 ⟨mt mem_distinct.1 hk, ih⟩)

/-- **What is left without repetitions stands in the order of first appearance.** -/
theorem firstSeen_distinct (ks : List κ) : FirstSeen ks (distinct ks) := by
  refine ⟨fun k => mem_distinct, ?_⟩
  induction ks using List.reverseRecOn with
  | nil => exact List.Pairwise.nil
  | append_singleton ks k ih =>
    -- a further key at the end moves none of those that were there
    have hplace : ∀ j ∈ distinct ks, (ks ++ [k]).idxOf j = ks.idxOf j := fun j hj =>
      List.idxOf_append_of_mem (mem_distinct.1 hj)
    have hbefore : (distinct ks).Pairwise fun i j => (ks ++ [k]).idxOf i < (ks ++ [k]).idxOf j := by
      refine ih.imp_of_mem fun {i j} hi hj hij => ?_
      rwa [hplace i hi, hplace j hj]
    rw [distinct_concat]
    split
    · exact hbefore
    · rename_i hk
      refine List.pairwise_append.2 ⟨hbefore, List.pairwise_singleton _ _, fun j hj i hi => ?_⟩
      rw [List.mem_singleton.1 hi, hplace j hj, List.idxOf_append_of_notMem hk]
      exact Nat.lt_add_right _ (List.idxOf_lt_length_of_mem (mem_distinct.1 hj))

end Distinct

theorem total_eq_sum (f : α → Nat) (as : List α) : total f as = (as.map f).sum := by
  induction as with
  | nil => rfl
  | cons a as ih => rw [total_cons, List.map_cons, List.sum_cons, ih]

/-- A sum is zero if there is nothing to add up. -/
theorem total_eq_zero_iff {f : α → Nat} {as : List α} : total f as = 0 ↔ ∀ a ∈ as, f a = 0 := by
  induction as with
  | nil => exact iff_of_true rfl fun _ ha => absurd ha List.not_mem_nil
  | cons a as ih => rw [total_cons, Nat.add_eq_zero_iff, ih, List.forall_mem_cons]

/-- Two sums over one list are a sum. -/
theorem total_add (f g : α → Nat) (as : List α) :
    total f as + total g as = total (fun a => f a + g a) as := by
  rw [total_eq_sum, total_eq_sum, total_eq_sum, List.sum_map_add]

/-- Keys without repetition share out the items among them. -/
theorem sum_length_filter [DecidableEq κ] {keyOf : υ → κ} {ks : List κ} (hks : ks.Nodup)
    {us : List υ} (h : ∀ u ∈ us, keyOf u ∈ ks) :
    (ks.map fun k => (us.filter fun u => keyOf u = k).length).sum = us.length := by
  induction us with
  | nil => simp
  | cons u us ih =>
    obtain ⟨hu, hus⟩ := List.forall_mem_cons.1 h
    have hone : (ks.map fun k => if keyOf u = k then 1 else 0).sum = 1 := by
      rw [List.sum_map_eq_nsmul_single (keyOf u) _ fun k hk _ => if_neg (Ne.symm hk),
        List.count_eq_one_of_mem hks hu, if_pos rfl, one_nsmul]
    have hsplit : ∀ k, ((u :: us).filter fun v => keyOf v = k).length =
        (if keyOf u = k then 1 else 0) + (us.filter fun v => keyOf v = k).length := by
      intro k
      by_cases hk : keyOf u = k
      · rw [List.filter_cons_of_pos (by simpa using hk), if_pos hk, List.length_cons, Nat.add_comm]
      · rw [List.filter_cons_of_neg (by simpa using hk), if_neg hk, Nat.zero_add]
    rw [funext hsplit, List.sum_map_add, hone, ih hus, List.length_cons, Nat.add_comm]

/-! ## Groups -/

section Gather

variable [DecidableEq κ] {key : α → κ} {take : α → υ → α} {blank : κ → α}

/-- Takes items in, one after the other, each into the element of its key or into a blank one
at the end. -/
def gather (key : α → κ) (keyOf : υ → κ) (take : α → υ → α) (blank : κ → α) (us : List υ) :
    List α :=
  us.foldl (fun as u => put key (keyOf u) (take · u) (take (blank (keyOf u)) u) as) []

/-- One element for each key: putting changes the one of the key, or adds it. -/
theorem put_map {element : κ → α} (helement : ∀ k, key (element k) = k) (k : κ) (f : α → α)
    (new : α) {ks : List κ} (hks : ks.Nodup) :
    put key k f new (ks.map element) =
      if k ∈ ks then ks.map fun j => if j = k then f (element j) else element j
      else ks.map element ++ [new] := by
  induction ks with
  | nil => rfl
  | cons j ks ih =>
    obtain ⟨hj, hks⟩ := List.nodup_cons.1 hks
    rw [List.map_cons, put, helement]
    by_cases hjk : j = k
    · subst hjk
      have hrest : (ks.map fun i => if i = j then f (element i) else element i) =
          ks.map element :=
        List.map_congr_left fun i hi => if_neg fun hij : i = j => hj (hij ▸ hi)
      rw [if_pos rfl, if_pos List.mem_cons_self, List.map_cons, if_pos rfl, hrest]
    · rw [if_neg hjk, ih hks]
      by_cases hk : k ∈ ks
      · rw [if_pos hk, if_pos (List.mem_cons_of_mem j hk), List.map_cons, if_neg hjk]
      · rw [if_neg hk, if_neg (List.not_mem_cons_of_ne_of_not_mem (Ne.symm hjk) hk)]
        rfl

omit [DecidableEq κ] in
/-- Taking items in keeps the key. -/
theorem key_foldl (htake : ∀ a u, key (take a u) = key a) (a : α) (us : List υ) :
    key (us.foldl take a) = key a := by
  induction us generalizing a with
  | nil => rfl
  | cons u us ih => rw [List.foldl_cons, ih, htake]

/-- **Gathering is grouping.**  There is one element for each key, in order of first
appearance, and it has taken in the items of its key, in their order. -/
theorem gather_eq (keyOf : υ → κ) (take : α → υ → α) (htake : ∀ a u, key (take a u) = key a)
    (hblank : ∀ k, key (blank k) = k) (us : List υ) :
    gather key keyOf take blank us =
      (distinct (us.map keyOf)).map fun k =>
        (us.filter fun u => keyOf u = k).foldl take (blank k) := by
  have hkey : ∀ (us : List υ) (k : κ), key (us.foldl take (blank k)) = k := fun us k =>
    (key_foldl htake (blank k) us).trans (hblank k)
  induction us using List.reverseRecOn with
  | nil => rfl
  | append_singleton us u ih =>
    have helement : ∀ k, ((us ++ [u]).filter fun v => keyOf v = k).foldl take (blank k) =
        if k = keyOf u then take ((us.filter fun v => keyOf v = k).foldl take (blank k)) u
        else (us.filter fun v => keyOf v = k).foldl take (blank k) := by
      intro k
      rw [List.filter_append, List.foldl_append]
      by_cases hk : k = keyOf u
      · rw [if_pos hk, List.filter_cons_of_pos (by simp [hk])]
        rfl
      · rw [if_neg hk, List.filter_cons_of_neg (by simpa using Ne.symm hk)]
        rfl
    have hstep : gather key keyOf take blank (us ++ [u]) =
        put key (keyOf u) (take · u) (take (blank (keyOf u)) u)
          (gather key keyOf take blank us) := List.foldl_append
    rw [hstep, ih, put_map (fun k => hkey _ k) _ _ _ (nodup_distinct _), List.map_append,
      List.map_singleton, distinct_concat, funext helement]
    by_cases hu : keyOf u ∈ us.map keyOf
    · rw [if_pos (mem_distinct.2 hu), if_pos hu]
    · -- a new key has no items yet, and it is none of the keys before it
      have hnone : us.filter (fun v => keyOf v = keyOf u) = [] := by
        refine List.filter_eq_nil_iff.2 fun v hv hkeys => hu ?_
        exact List.mem_map.2 ⟨v, hv, of_decide_eq_true hkeys⟩
      rw [if_neg (mt mem_distinct.1 hu), if_neg hu, List.map_append, List.map_singleton,
        if_pos rfl, hnone]
      congr 1
      refine List.map_congr_left fun k hk => (if_neg fun hku => hu ?_).symm
      exact hku ▸ mem_distinct.1 hk

end Gather

end Sequence
end Linguist
