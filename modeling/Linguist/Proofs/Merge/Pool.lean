import Linguist.Merge
import Linguist.Proofs.Catalogue.Address

/-!
# Taking from the pools

A message that is taken leaves its pool and nothing else changes: the listing of what is
left is the old one without that message (`perm_of_take?`), and the pools keep their
names and their order.

When nothing is taken, the reason may be that the key is spent, or that a pool of the
same name stands before the one with the message.  If the old contexts are distinct
neither can hide a message, so that a key under which nothing is found is the key of no
message that is left (`notMem_of_take?`).  *Sound* pools are those for which this holds,
and they stay sound.
-/

namespace Linguist
namespace Merge

variable {name : String} {key : Message.Key} {old : Message}

namespace Pool

/-- What is left of a pool, as a context. -/
def rest (p : Pool) : Context :=
  ⟨p.name, p.comment?, p.messages⟩

@[simp] theorem name_rest (p : Pool) : p.rest.name = p.name := rfl

/-- No key repeats in the pool, and none that is spent is left in it. -/
def Sound (p : Pool) : Prop :=
  (p.messages.map Message.key).Nodup ∧ ∀ k ∈ p.spent, k ∉ p.messages.map Message.key

variable {p p' : Pool}

/-- What is taken has the key, and leaves a gap. -/
theorem take?_eq_some (h : p.take? key = some (old, p')) :
    ∃ before after, p.messages = before ++ old :: after ∧ old.key = key ∧
      p' = { p with messages := before ++ after, spent := key :: p.spent } := by
  rw [take?] at h
  split at h
  · cases h
  · obtain ⟨m, hfind, hm⟩ := Option.map_eq_some_iff.1 h
    obtain ⟨hkey, before, after, hmessages, hbefore⟩ := List.find?_eq_some_iff_append.1 hfind
    obtain ⟨rfl, rfl⟩ := Prod.mk.inj hm
    refine ⟨before, after, hmessages, eq_of_beq hkey, ?_⟩
    -- the message that was found is the one that is erased
    have herase : p.messages.eraseP (·.key == key) = before ++ after := by
      rw [hmessages, List.eraseP_append_right _ (by simpa using hbefore),
        List.eraseP_cons_of_pos (p := fun m : Message => m.key == key) hkey]
    rw [herase]

theorem take?_eq_none (h : p.take? key = none) :
    key ∈ p.spent ∨ key ∉ p.messages.map Message.key := by
  rw [take?] at h
  split at h
  · rename_i hspent
    exact .inl (List.contains_iff_mem.1 hspent)
  · right
    rw [Option.map_eq_none_iff, List.find?_eq_none] at h
    intro hmem
    obtain ⟨m, hm, hkey⟩ := List.mem_map.1 hmem
    exact h m hm (beq_iff_eq.2 hkey)

theorem name_of_take? (h : p.take? key = some (old, p')) : p'.name = p.name := by
  obtain ⟨before, after, _, _, rfl⟩ := take?_eq_some h
  rfl

theorem perm_of_take? (h : p.take? key = some (old, p')) :
    p.messages.Perm (old :: p'.messages) := by
  obtain ⟨before, after, hmessages, _, rfl⟩ := take?_eq_some h
  rw [hmessages]
  exact List.perm_middle

/-- A pool without repetitions stays one, and the key it spends is gone. -/
theorem Sound.take? (hsound : p.Sound) (h : p.take? key = some (old, p')) : p'.Sound := by
  obtain ⟨before, after, hmessages, rfl, rfl⟩ := take?_eq_some h
  obtain ⟨hnodup, hspent⟩ := hsound
  rw [hmessages] at hnodup hspent
  have hsub : (before ++ after).Sublist (before ++ old :: after) :=
    (List.sublist_cons_self old after).append_left before
  rw [List.map_append, List.map_cons, List.nodup_middle, ← List.map_append] at hnodup
  refine ⟨(List.nodup_cons.1 hnodup).2, fun k hk => ?_⟩
  rcases List.mem_cons.1 hk with rfl | hk
  · exact (List.nodup_cons.1 hnodup).1
  · exact fun hmem => hspent k hk ((hsub.map Message.key).subset hmem)

end Pool

/-! ## All pools -/

variable {pools pools' : List Pool}

/-- What is left of the pools, as contexts. -/
def left (pools : List Pool) : List Context :=
  pools.map Pool.rest

/-- What is taken is taken from one pool of the name. -/
theorem take?_eq_some (h : take? name key pools = some (old, pools')) :
    ∃ before p p' after, pools = before ++ p :: after ∧ p.name = name ∧
      p.take? key = some (old, p') ∧ pools' = before ++ p' :: after := by
  induction pools generalizing pools' with
  | nil => cases h
  | cons p rest ih =>
    rw [take?] at h
    split at h
    · rename_i hname
      obtain ⟨⟨m, p'⟩, htake, heq⟩ := Option.map_eq_some_iff.1 h
      obtain ⟨rfl, rfl⟩ := Prod.mk.inj heq
      exact ⟨[], p, p', rest, rfl, hname, htake, rfl⟩
    · obtain ⟨⟨m, rest'⟩, htake, heq⟩ := Option.map_eq_some_iff.1 h
      obtain ⟨rfl, rfl⟩ := Prod.mk.inj heq
      obtain ⟨before, q, q', after, rfl, hname, hq, rfl⟩ := ih htake
      exact ⟨p :: before, q, q', after, rfl, hname, hq, rfl⟩

/-- Where names do not repeat, nothing is found only if the pool of the name has
nothing. -/
theorem take?_eq_none (hnames : (pools.map Pool.name).Nodup) (h : take? name key pools = none) :
    ∀ p ∈ pools, p.name = name → p.take? key = none := by
  induction pools with
  | nil =>
    intro p hp
    cases hp
  | cons p rest ih =>
    rw [List.map_cons, List.nodup_cons] at hnames
    rw [take?] at h
    split at h
    · rename_i hname
      intro q hq hq'
      rcases List.mem_cons.1 hq with rfl | hq
      · exact Option.map_eq_none_iff.1 h
      · refine absurd ?_ hnames.1
        rw [hname, ← hq']
        exact List.mem_map_of_mem hq
    · rename_i hname
      intro q hq hq'
      rcases List.mem_cons.1 hq with rfl | hq
      · exact absurd hq' hname
      · exact ih hnames.2 (Option.map_eq_none_iff.1 h) q hq hq'

theorem key_of_take? (h : take? name key pools = some (old, pools')) : old.key = key := by
  obtain ⟨_, _, _, _, _, _, htake, _⟩ := take?_eq_some h
  obtain ⟨_, _, _, hkey, _⟩ := Pool.take?_eq_some htake
  exact hkey

theorem names_of_take? (h : take? name key pools = some (old, pools')) :
    pools'.map Pool.name = pools.map Pool.name := by
  obtain ⟨before, p, p', after, rfl, _, htake, rfl⟩ := take?_eq_some h
  rw [List.map_append, List.map_append, List.map_cons, List.map_cons,
    Pool.name_of_take? htake]

/-- **What is taken is the only thing that goes.** -/
theorem perm_of_take? (h : take? name key pools = some (old, pools')) :
    (listing (left pools)).Perm ((name, old) :: listing (left pools')) := by
  obtain ⟨before, p, p', after, rfl, rfl, htake, rfl⟩ := take?_eq_some h
  have hpool : p.rest.listing.Perm ((p.name, old) :: p'.rest.listing) := by
    have hperm := (Pool.perm_of_take? htake).map (p.name, ·)
    rw [Context.listing, Context.listing, Pool.name_rest, Pool.name_rest,
      Pool.name_of_take? htake]
    exact hperm
  rw [left, left, List.map_append, List.map_append, List.map_cons, List.map_cons,
    listing_append, listing_append, listing_cons, listing_cons]
  exact ((hpool.append_right _).append_left _).trans List.perm_middle

/-! ## Sound pools -/

/-- No name and no key repeats, and what is spent is gone. -/
def Sound (pools : List Pool) : Prop :=
  (pools.map Pool.name).Nodup ∧ ∀ p ∈ pools, p.Sound

/-- The pools of distinct contexts are sound at the start. -/
theorem sound_ofContext {xs : List Context} (h : Distinct xs) :
    Sound (xs.map Pool.ofContext) := by
  constructor
  · rw [List.map_map]
    exact h.1
  · intro p hp
    obtain ⟨x, hx, rfl⟩ := List.mem_map.1 hp
    exact ⟨h.2 x hx, fun k hk => absurd hk List.not_mem_nil⟩

theorem Sound.take? (hsound : Sound pools) (h : take? name key pools = some (old, pools')) :
    Sound pools' := by
  refine ⟨names_of_take? h ▸ hsound.1, ?_⟩
  obtain ⟨before, p, p', after, rfl, _, htake, rfl⟩ := take?_eq_some h
  intro q hq
  rcases List.mem_append.1 hq with hq | hq
  · exact hsound.2 q (List.mem_append_left _ hq)
  · rcases List.mem_cons.1 hq with rfl | hq
    · exact (hsound.2 p (List.mem_append_right _ List.mem_cons_self)).take? htake
    · exact hsound.2 q (List.mem_append_right _ (List.mem_cons_of_mem p hq))

/-- **Nothing is missed:** a key that finds nothing is not left under that name. -/
theorem notMem_of_take? (hsound : Sound pools) (h : take? name key pools = none) :
    (name, key) ∉ (listing (left pools)).map addressOf := by
  intro hmem
  obtain ⟨⟨n, m⟩, hm, heq⟩ := List.mem_map.1 hmem
  obtain ⟨rfl, rfl⟩ := Prod.mk.inj heq
  obtain ⟨x, hx, hname, hmessage⟩ := exists_of_mem_listing hm
  obtain ⟨p, hp, rfl⟩ := List.mem_map.1 hx
  have hkey : m.key ∈ p.messages.map Message.key := List.mem_map_of_mem hmessage
  rcases Pool.take?_eq_none (take?_eq_none hsound.1 h p hp hname.symm) with hspent | hgone
  · exact (hsound.2 p hp).2 _ hspent hkey
  · exact hgone hkey

end Merge
end Linguist
