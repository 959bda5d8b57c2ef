import Mathlib.Data.List.Nodup
import Linguist.Sequence

/-!
# More about walks along a list

Facts about lists that more than one part of the theory asks for.

* A walk along parts of elements is a walk along all of the parts (`flatMap_thread`), and a
  walk whose steps change no element changes nothing (`thread_eq_self`).
* What holds of all elements before a walk or a change holds of all elements after it, if
  each step keeps it (`forall_of_thread`, `forall_of_changeFirst?`).
* Where a value does not repeat along a list, one element has it (`filter_eq_singleton`), and
  a search finds it from either end (`find?_reverse_of_nodup`).
* A split at a mark loses nothing (`eq_of_splitMark`).
* An element is *put* into a list under a key: the first element with the key is changed, and
  if there is none, the new element goes to the end.  Contexts are found or made in this way,
  and messages, and the entries of a phrasebook.  A key is added only if it is new, so that
  keys that do not repeat never come to repeat (`nodup_put`).
-/

namespace Linguist
namespace Sequence

variable {α β σ κ : Type}

/-- A walk along two lists one after the other. -/
theorem thread_append (f : σ → α → β × σ) (s : σ) (as bs : List α) :
    thread f s (as ++ bs) = ((thread f s as).1 ++ (thread f (thread f s as).2 bs).1,
      (thread f (thread f s as).2 bs).2) := by
  induction as generalizing s with
  | nil => rfl
  | cons a as ih => rw [List.cons_append, thread_cons, ih]; rfl

/-- What a step makes of elements of one kind, a walk makes of a list of them. -/
theorem forall_of_thread {f : σ → α → β × σ} {P : α → Prop} {Q : β → Prop}
    (h : ∀ s a, P a → Q (f s a).1) (s : σ) {as : List α} (has : ∀ a ∈ as, P a) :
    ∀ b ∈ (thread f s as).1, Q b := by
  induction as generalizing s with
  | nil => exact fun _ hb => absurd hb List.not_mem_nil
  | cons a as ih =>
    obtain ⟨ha, has⟩ := List.forall_mem_cons.1 has
    exact List.forall_mem_cons.2 ⟨h s a ha, ih _ has⟩

/-- A walk that goes through the parts of each element is a walk along all parts. -/
theorem flatMap_thread {γ δ : Type} {f : σ → α → β × σ} {g : σ → γ → δ × σ} {parts : γ → List α}
    {parts' : δ → List β}
    (h : ∀ s c, thread f s (parts c) = (parts' (g s c).1, (g s c).2)) (s : σ) (cs : List γ) :
    thread f s (cs.flatMap parts) =
      ((thread g s cs).1.flatMap parts', (thread g s cs).2) := by
  induction cs generalizing s with
  | nil => rfl
  | cons c cs ih =>
    rw [List.flatMap_cons, thread_append, h, ih]
    rfl

/-- A walk whose steps change no element changes nothing. -/
theorem thread_eq_self {f : σ → α → α × σ} {P : α → Prop} (h : ∀ s a, P a → (f s a).1 = a)
    (s : σ) {as : List α} (has : ∀ a ∈ as, P a) : (thread f s as).1 = as := by
  induction as generalizing s with
  | nil => rfl
  | cons a as ih =>
    obtain ⟨ha, has⟩ := List.forall_mem_cons.1 has
    rw [thread_cons, h s a ha, ih _ has]

/-- What holds of all elements, and is kept by the change, holds of all elements after it. -/
theorem forall_of_changeFirst? {p : α → Bool} {f : α → Option α} {as bs : List α} {P : α → Prop}
    (hf : ∀ a ∈ as, ∀ b, f a = some b → P a → P b) (h : changeFirst? p f as = some bs)
    (has : ∀ a ∈ as, P a) : ∀ b ∈ bs, P b := by
  induction as generalizing bs with
  | nil => cases h
  | cons a as ih =>
    obtain ⟨ha, has⟩ := List.forall_mem_cons.1 has
    rw [changeFirst?] at h
    split at h
    · obtain ⟨b, hb, rfl⟩ := Option.map_eq_some_iff.1 h
      exact List.forall_mem_cons.2 ⟨hf a List.mem_cons_self b hb ha, has⟩
    · obtain ⟨rest, hrest, rfl⟩ := Option.map_eq_some_iff.1 h
      refine List.forall_mem_cons.2 ⟨ha, ih (fun a' ha' => ?_) hrest has⟩
      exact hf a' (List.mem_cons_of_mem a ha')

/-- A map changes no list whose elements it leaves as they are, and no other. -/
theorem map_eq_self_iff {f : α → α} {as : List α} : as.map f = as ↔ ∀ a ∈ as, f a = a := by
  induction as with
  | nil => simp
  | cons a as ih => rw [List.map_cons, List.cons.injEq, ih, List.forall_mem_cons]

/-- An element of a list that has no room for two is the whole list. -/
theorem eq_singleton_of_mem {as : List α} {a : α} (hlength : as.length ≤ 1) (ha : a ∈ as) :
    as = [a] := by
  have hpos := List.length_pos_of_mem ha
  obtain ⟨b, rfl⟩ := List.length_eq_one_iff.1 (by omega : as.length = 1)
  rw [List.mem_singleton.1 ha]

/-- Where a value does not repeat, one element has it. -/
theorem filter_eq_singleton [DecidableEq β] {f : α → β} {as : List α} {a : α}
    (h : (as.map f).Nodup) (ha : a ∈ as) : as.filter (fun b => f b = f a) = [a] := by
  induction as with
  | nil => cases ha
  | cons b bs ih =>
    obtain ⟨hb, hbs⟩ := List.nodup_cons.1 h
    rcases List.mem_cons.1 ha with rfl | ha
    · have hrest : bs.filter (fun c => f c = f a) = [] := by
        refine List.filter_eq_nil_iff.2 fun c hc hca => hb ?_
        rw [← of_decide_eq_true hca]
        exact List.mem_map_of_mem hc
      rw [List.filter_cons_of_pos (by simp), hrest]
    · have hne : f b ≠ f a := fun hba => hb (hba ▸ List.mem_map_of_mem ha)
      rw [List.filter_cons_of_neg (by simpa using hne), ih hbs ha]

/-- Where a value does not repeat, a search for it finds the element that has it. -/
theorem find?_of_nodup [DecidableEq β] {f : α → β} {as : List α} {a : α} (h : (as.map f).Nodup)
    (ha : a ∈ as) : as.find? (f · == f a) = some a := by
  have hfilter : as.filter (f · == f a) = [a] := by
    rw [← filter_eq_singleton h ha]
    exact List.filter_congr fun b _ => beq_eq_decide _ _
  rw [← List.head?_filter, hfilter, List.head?_singleton]

/-- Where a value does not repeat, a search from the end finds what a search from the front
does. -/
theorem find?_reverse_of_nodup [DecidableEq β] {f : α → β} {as : List α} (h : (as.map f).Nodup)
    (b : β) : as.reverse.find? (f · == b) = as.find? (f · == b) := by
  cases hfind : as.find? (f · == b) with
  | none =>
    rw [List.find?_eq_none] at hfind ⊢
    exact fun a ha => hfind a (List.mem_reverse.1 ha)
  | some a =>
    obtain rfl : f a = b := by simpa using List.find?_some hfind
    have hreverse : (as.reverse.map f).Nodup := by
      rw [List.map_reverse]
      exact List.nodup_reverse.2 h
    exact find?_of_nodup hreverse (List.mem_reverse.2 (List.mem_of_find?_eq_some hfind))

/-- What can be counted without repetitions is counted by what it is. -/
theorem countP_of_nodup {as bs : List α} {p q : α → Bool} (has : as.Nodup) (hbs : bs.Nodup)
    (h : ∀ a, a ∈ as ∧ p a = true ↔ a ∈ bs ∧ q a = true) : as.countP p = bs.countP q := by
  have hperm : (as.filter p).Perm (bs.filter q) :=
    (List.perm_ext_iff_of_nodup (has.filter p) (hbs.filter q)).2 fun a => by
      rw [List.mem_filter, List.mem_filter, h]
  rw [List.countP_eq_length_filter, List.countP_eq_length_filter, hperm.length_eq]

/-- What is split at a mark is what is before it, the mark, and what follows it. -/
theorem eq_of_splitMark [BEq α] [LawfulBEq α] {mark as before rest : List α}
    (h : splitMark mark as = some (before, rest)) : as = before ++ (mark ++ rest) := by
  induction as generalizing before with
  | nil => cases h
  | cons a as ih =>
    rw [splitMark] at h
    split at h
    · rename_i hprefix
      obtain ⟨rfl, rfl⟩ := Prod.mk.inj (Option.some.inj h)
      obtain ⟨tail, htail⟩ := List.isPrefixOf_iff_prefix.1 hprefix
      rw [← htail, List.drop_left, List.nil_append]
    · obtain ⟨⟨t, r⟩, ht, heq⟩ := Option.map_eq_some_iff.1 h
      obtain ⟨rfl, rfl⟩ := Prod.mk.inj heq
      rw [ih ht, List.cons_append]

/-- A split finds a mark that does not begin earlier. -/
theorem splitMark_append_of_forall [DecidableEq α] {mark before rest : List α} (hmark : mark ≠ [])
    (h : ∀ as, as <:+ before → as ≠ [] → ¬ mark <+: as ++ (mark ++ rest)) :
    splitMark mark (before ++ (mark ++ rest)) = some (before, rest) := by
  induction before with
  | nil =>
    obtain ⟨a, mark, rfl⟩ := List.exists_cons_of_ne_nil hmark
    have hprefix : (a :: mark).isPrefixOf (a :: mark ++ rest) = true :=
      List.isPrefixOf_iff_prefix.2 (List.prefix_append _ _)
    rw [List.nil_append, List.cons_append, splitMark, ← List.cons_append, if_pos hprefix,
      List.drop_left]
  | cons b before ih =>
    have hno : ¬ mark.isPrefixOf (b :: before ++ (mark ++ rest)) := by
      rw [List.isPrefixOf_iff_prefix]
      exact h (b :: before) List.suffix_rfl (List.cons_ne_nil b before)
    rw [List.cons_append, splitMark, ← List.cons_append, if_neg hno,
      ih fun as hsuffix => h as (hsuffix.trans (List.suffix_cons b before))]
    rfl

/-- A split finds the first mark, and a mark whose first element does not come again cannot
begin in what is before it. -/
theorem splitMark_append [DecidableEq α] {a : α} {mark before : List α} (ha : a ∉ mark)
    (h : ¬ a :: mark <:+: before) (rest : List α) :
    splitMark (a :: mark) (before ++ (a :: mark ++ rest)) = some (before, rest) := by
  refine splitMark_append_of_forall (List.cons_ne_nil a mark) ?_
  rintro as hsuffix hne ⟨tail, htail⟩
  rcases List.append_eq_append_iff.1 htail with ⟨more, rfl, -⟩ | ⟨more, hmark, hmore⟩
  · exact h ((List.prefix_append (a :: mark) more).isInfix.trans hsuffix.isInfix)
  -- a mark that goes on behind `before` has its first element there once more
  · cases more with
    | nil => exact h ((hmark.trans (List.append_nil _)) ▸ hsuffix.isInfix)
    | cons c more =>
      obtain ⟨b, as, rfl⟩ := List.exists_cons_of_ne_nil hne
      obtain ⟨rfl, -⟩ := List.cons.inj hmore
      obtain ⟨-, hmark⟩ := List.cons.inj hmark
      exact ha (hmark ▸ List.mem_append_right as List.mem_cons_self)

/-- So it is for a mark whose last element does not come before. -/
theorem splitMark_concat [DecidableEq α] {a : α} {mark before : List α} (ha : a ∉ mark)
    (h : ¬ mark ++ [a] <:+: before) (rest : List α) :
    splitMark (mark ++ [a]) (before ++ (mark ++ [a] ++ rest)) = some (before, rest) := by
  refine splitMark_append_of_forall (by simp) ?_
  rintro as hsuffix hne ⟨tail, htail⟩
  rcases List.append_eq_append_iff.1 htail with ⟨more, rfl, -⟩ | ⟨more, hmark, hmore⟩
  · exact h ((List.prefix_append (mark ++ [a]) more).isInfix.trans hsuffix.isInfix)
  -- a mark that ends behind `before` has its last element there before its own end
  · rcases List.eq_nil_or_concat more with rfl | ⟨more, b, rfl⟩
    · exact h ((hmark.trans (List.append_nil _)) ▸ hsuffix.isInfix)
    · rw [List.concat_eq_append, ← List.append_assoc] at hmark
      obtain ⟨hmark, hlast⟩ := List.append_inj' hmark rfl
      have hlonger : more.length < mark.length := by
        have hpos := List.length_pos_of_ne_nil hne
        rw [hmark, List.length_append]
        omega
      rw [List.concat_eq_append, List.append_assoc, List.append_assoc] at hmore
      rcases List.append_eq_append_iff.1 hmore with ⟨xs, hxs, -⟩ | ⟨xs, hxs, hbegin⟩
      · rw [hxs, List.length_append] at hlonger
        omega
      · cases xs with
        | nil =>
          rw [hxs, List.append_nil] at hlonger
          omega
        | cons x xs =>
          obtain ⟨rfl, -⟩ := List.cons.inj hbegin
          rw [hxs, ← List.singleton_inj.1 hlast] at ha
          exact ha (List.mem_append_right more List.mem_cons_self)

/-! ## Changing an element or adding it -/

section Put

variable [DecidableEq κ] {key : α → κ} {k : κ} {f : α → α} {new : α} {as : List α}

/-- The list with its first element of a key changed, or else with a new one at its end. -/
def put (key : α → κ) (k : κ) (f : α → α) (new : α) : List α → List α
  | [] => [new]
  | a :: rest => if key a = k then f a :: rest else a :: put key k f new rest

/-- A put changes what can be changed. -/
theorem put_eq_getD (key : α → κ) (k : κ) (f : α → α) (new : α) (as : List α) :
    put key k f new as = (changeFirst? (key · == k) (some ∘ f) as).getD (as ++ [new]) := by
  induction as with
  | nil => rfl
  | cons a as ih =>
    rw [put, changeFirst?]
    by_cases hkey : key a = k
    · rw [if_pos hkey, if_pos (beq_iff_eq.2 hkey)]
      rfl
    · rw [if_neg hkey, if_neg (mt beq_iff_eq.1 hkey), ih]
      cases changeFirst? (key · == k) (some ∘ f) as <;> rfl

/-- What a change keeps and the new element has holds of all elements. -/
theorem forall_put {P : α → Prop} (hf : ∀ a, key a = k → P a → P (f a)) (hnew : P new)
    (has : ∀ a ∈ as, P a) : ∀ b ∈ put key k f new as, P b := by
  induction as with
  | nil => exact List.forall_mem_singleton.2 hnew
  | cons a as ih =>
    obtain ⟨ha, has⟩ := List.forall_mem_cons.1 has
    rw [put]
    split
    · rename_i hkey
      exact List.forall_mem_cons.2 ⟨hf a hkey ha, has⟩
    · exact List.forall_mem_cons.2 ⟨ha, ih has⟩

/-- A key is added only if it is new. -/
theorem map_key_put (hf : ∀ a, key a = k → key (f a) = k) (hnew : key new = k) (as : List α) :
    (put key k f new as).map key =
      if k ∈ as.map key then as.map key else as.map key ++ [k] := by
  induction as with
  | nil => exact congrArg (fun j => [j]) hnew
  | cons a as ih =>
    rw [put, List.map_cons]
    by_cases hkey : key a = k
    · rw [if_pos hkey, if_pos (hkey ▸ List.mem_cons_self), List.map_cons, hf a hkey, hkey]
    · rw [if_neg hkey, List.map_cons, ih]
      by_cases hmem : k ∈ as.map key
      · rw [if_pos hmem, if_pos (List.mem_cons_of_mem _ hmem)]
      · rw [if_neg hmem, if_neg (List.not_mem_cons_of_ne_of_not_mem (Ne.symm hkey) hmem)]
        rfl

/-- **Keys that do not repeat never come to repeat.** -/
theorem nodup_put (hf : ∀ a, key a = k → key (f a) = k) (hnew : key new = k)
    (h : (as.map key).Nodup) : ((put key k f new as).map key).Nodup := by
  rw [map_key_put hf hnew]
  split
  · exact h
  · rename_i hmem
    exact List.nodup_append_comm.1 (List.nodup_cons.2 ⟨hmem, h⟩)

theorem mem_map_key_put (hf : ∀ a, key a = k → key (f a) = k) (hnew : key new = k) (as : List α)
    (j : κ) : j ∈ (put key k f new as).map key ↔ j ∈ as.map key ∨ j = k := by
  rw [map_key_put hf hnew]
  split
  · rename_i hmem
    exact ⟨Or.inl, fun h => h.elim id fun hj => hj ▸ hmem⟩
  · rw [List.mem_append, List.mem_singleton]

end Put

end Sequence
end Linguist
