import Linguist.Proofs.Merge.Ledger

/-!
# The old message that a collected one takes

What the ledger leaves open is which old message is taken where keys repeat.  It is the one
that a lookup in the old catalogue finds, and the first collected message at an address is
the one that takes it: a message that is taken from the pools is gone from its address and
every other address looks the same as before (`peek_of_take?`), and before anything is
taken the pools show what the old catalogue finds (`peek_ofContexts`).

The collected messages are merged context by context, but the contexts play no part in
what is taken.  So the walk is the same as one along the listing of all collected messages
(`thread_mergeContext`), and an induction about what is taken goes along that listing.
-/

namespace Linguist

namespace Merge

/-! ## What the pools show -/

/-- The message that would be taken under an address. -/
def peek (a : Catalogue.Address) (pools : List Pool) : Option Message :=
  (take? a.1 a.2 pools).map Prod.fst

theorem peek_cons (a : Catalogue.Address) (p : Pool) (rest : List Pool) :
    peek a (p :: rest) = if p.name = a.1 then (p.take? a.2).map Prod.fst else peek a rest := by
  rw [peek, take?]
  split
  · rw [Option.map_map]
    rfl
  · rw [Option.map_map]
    rfl

/-- A pool shows the first message with a key that is not spent. -/
theorem Pool.map_fst_take? (p : Pool) (key : Message.Key) :
    (p.take? key).map Prod.fst =
      if key ∈ p.spent then none else p.messages.find? (·.key == key) := by
  rw [Pool.take?]
  by_cases h : key ∈ p.spent
  · rw [if_pos h, if_pos (List.contains_iff_mem.2 h)]
    rfl
  · rw [if_neg h, if_neg (mt List.contains_iff_mem.1 h), Option.map_map]
    exact congrFun Option.map_id _

/-- What is taken from a pool is gone, and all else is as it was. -/
theorem Pool.map_fst_take?_of_take? {p p' : Pool} {key : Message.Key} {old : Message}
    (h : p.take? key = some (old, p')) (other : Message.Key) :
    (p'.take? other).map Prod.fst =
      if other = key then none else (p.take? other).map Prod.fst := by
  obtain ⟨before, after, hmessages, hkey, rfl⟩ := Pool.take?_eq_some h
  rw [map_fst_take?, map_fst_take?]
  dsimp only
  by_cases hother : other = key
  · rw [if_pos hother, if_pos (hother ▸ List.mem_cons_self)]
  · have hspent : other ∈ key :: p.spent ↔ other ∈ p.spent := by simp [hother]
    have hold : (old.key == other) = false := by
      rw [hkey]
      exact beq_eq_false_iff_ne.2 (Ne.symm hother)
    have hfind : (before ++ old :: after).find? (·.key == other) =
        (before ++ after).find? (·.key == other) := by
      rw [List.find?_append, List.find?_append, List.find?_cons_of_neg (by simp [hold])]
    simp only [hother, if_false, hspent, hmessages, hfind]

/-- **A message that is taken is gone from its address,** and every other address shows
what it showed before. -/
theorem peek_of_take? {a : Catalogue.Address} {pools pools' : List Pool} {old : Message}
    (h : take? a.1 a.2 pools = some (old, pools')) (b : Catalogue.Address) :
    peek b pools' = if b = a then none else peek b pools := by
  induction pools generalizing pools' with
  | nil => cases h
  | cons p rest ih =>
    rw [take?] at h
    split at h
    · rename_i hname
      obtain ⟨⟨m, p'⟩, htake, heq⟩ := Option.map_eq_some_iff.1 h
      obtain ⟨rfl, rfl⟩ := Prod.mk.inj heq
      rw [peek_cons, peek_cons, Pool.name_of_take? htake, Pool.map_fst_take?_of_take? htake]
      by_cases hb : p.name = b.1
      · have haddress : b = a ↔ b.2 = a.2 :=
          ⟨congrArg Prod.snd, fun hkey => Prod.ext (hb.symm.trans hname) hkey⟩
        rw [if_pos hb, if_pos hb]
        simp only [haddress]
      · have hne : b ≠ a := fun hba => hb (hba ▸ hname)
        rw [if_neg hb, if_neg hb, if_neg hne]
    · rename_i hname
      obtain ⟨⟨m, rest'⟩, htake, heq⟩ := Option.map_eq_some_iff.1 h
      obtain ⟨rfl, rfl⟩ := Prod.mk.inj heq
      rw [peek_cons, peek_cons, ih htake]
      by_cases hb : p.name = b.1
      · have hne : b ≠ a := fun hba => hname (hba ▸ hb)
        rw [if_pos hb, if_pos hb, if_neg hne]
      · rw [if_neg hb, if_neg hb]

/-- **At the start the pools show what the old catalogue finds.** -/
theorem peek_ofContexts (c : Catalogue) (name source : String) (comment? : Option String) :
    peek (name, .of source comment?) (c.contexts.map Pool.ofContext) =
      c.find? name source comment? := by
  rw [Catalogue.find?, Catalogue.context?]
  induction c.contexts with
  | nil => rfl
  | cons x rest ih =>
    rw [List.map_cons, peek_cons, List.find?_cons]
    by_cases hname : x.name = name
    · have hpool : (Pool.ofContext x).name = name := hname
      have hspent : Message.Key.of source comment? ∉ (Pool.ofContext x).spent := List.not_mem_nil
      rw [if_pos hpool, Pool.map_fst_take?, if_neg hspent, hname, beq_self_eq_true]
      rfl
    · have hpool : (Pool.ofContext x).name ≠ name := hname
      rw [if_neg hpool, ih, beq_eq_false_iff_ne.2 hname]

/-! ## Along the listing -/

variable (setting : Setting)

/-- Merges one listed message. -/
def mergeListed (s : State) (p : String × Message) : (String × Message) × State :=
  ((p.1, (mergeMessage setting p.1 s p.2).1), (mergeMessage setting p.1 s p.2).2)

theorem thread_mergeMessage (context : String) (s : State) (ms : List Message) :
    Sequence.thread (mergeListed setting) s (ms.map (context, ·)) =
      ((Sequence.thread (mergeMessage setting context) s ms).1.map (context, ·),
        (Sequence.thread (mergeMessage setting context) s ms).2) := by
  induction ms generalizing s with
  | nil => rfl
  | cons m ms ih => rw [List.map_cons, Sequence.thread_cons, ih]; rfl

/-- **The contexts play no part in what is taken:** merging them is merging the listing of
their messages. -/
theorem thread_mergeContext (s : State) (xs : List Context) :
    Sequence.thread (mergeListed setting) s (listing xs) =
      (listing (Sequence.thread (mergeContext setting) s xs).1,
        (Sequence.thread (mergeContext setting) s xs).2) := by
  induction xs generalizing s with
  | nil => rfl
  | cons x xs ih =>
    rw [listing_cons, Sequence.thread_append, Context.listing, thread_mergeMessage, ih]
    rfl

end Merge
end Linguist
