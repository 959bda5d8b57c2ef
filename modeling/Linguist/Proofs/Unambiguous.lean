import Linguist.Proofs.Audit
import Linguist.Proofs.Catalogue.Lookup
import Linguist.Proofs.Phrasebook

/-!
# Catalogues without ambiguity

Three answers are given for an address, the name of a context with the key of a message in
it.  The catalogue lists the messages there (`Catalogue.messagesAt`), a look-up finds the
first one in the first context of the name, and a phrasebook serves the last one that may be
served.  They are the same answer where one message at most is at the address.

## What an audit can tell

An audit reports messages whose key repeats in a context.  Where it reports none, a context
holds at most one message of a key, so that there are exactly as many messages at an address
as contexts of the name that hold its key, its *holders* (`length_messagesAt`).  The audit
passes over the border between two contexts of one name.  Hence nothing it says excludes two
holders, and then a look-up and a phrasebook answer with different messages
(`twofold_passes`).

With one holder at most, what a look-up finds is alone at the address and is all that a
phrasebook can serve for it; and if moreover no other context has the name, then a look-up
that finds nothing means that there is nothing (`one_answer_of_audit`).  The second condition
is not idle: a look-up stops at the first context of the name even if another one is the
holder.
-/

namespace Linguist

/-- Where the addresses in a context do not repeat, it has one message at an address or
none. -/
theorem Context.length_filter_listing {x : Context} (h : (x.messages.map Message.key).Nodup)
    (a : Catalogue.Address) :
    (x.listing.filter fun p => addressOf p = a).length =
      if x.name = a.1 ∧ a.2 ∈ x.messages.map Message.key then 1 else 0 := by
  split
  · rename_i hholds
    obtain ⟨hname, hkey⟩ := hholds
    obtain ⟨m, hm, hmkey⟩ := List.mem_map.1 hkey
    have hlisted : (x.name, m) ∈ x.listing := Context.mem_listing.2 ⟨rfl, hm⟩
    have haddress : addressOf (x.name, m) = a := Prod.ext hname hmkey
    rw [← haddress, Sequence.filter_eq_singleton (x.nodup_addresses_iff.2 h) hlisted]
    rfl
  · rename_i hholds
    rw [List.length_eq_zero_iff, List.filter_eq_nil_iff]
    intro p hp haddress
    obtain ⟨hname, hm⟩ := Context.mem_listing.1 hp
    obtain rfl := of_decide_eq_true haddress
    exact hholds ⟨hname.symm, List.mem_map_of_mem hm⟩

namespace Catalogue

/-- The messages at an address, each with the name of its context. -/
def messagesAt (c : Catalogue) (a : Address) : List (String × Message) :=
  c.messages.filter fun p => addressOf p = a

/-- The contexts that have the name of an address and hold a message with its key. -/
def holders (c : Catalogue) (a : Address) : List Context :=
  c.contexts.filter fun x => x.name = a.1 ∧ a.2 ∈ x.messages.map Message.key

/-- The contexts of a name. -/
def namesakes (c : Catalogue) (name : String) : List Context :=
  c.contexts.filter fun x => x.name = name

variable {c : Catalogue} {a : Address} {m : Message}

theorem mem_messagesAt {p : String × Message} :
    p ∈ c.messagesAt a ↔ p ∈ c.messages ∧ addressOf p = a := by
  rw [messagesAt, List.mem_filter, decide_eq_true_iff]

/-- **Where no key repeats in a context, there is one message for each holder.** -/
theorem length_messagesAt (h : ∀ x ∈ c.contexts, (x.messages.map Message.key).Nodup)
    (a : Address) : (c.messagesAt a).length = (c.holders a).length := by
  rw [messagesAt, holders, ← listing_contexts]
  generalize c.contexts = xs at h ⊢
  induction xs with
  | nil => rfl
  | cons x xs ih =>
    obtain ⟨hx, hxs⟩ := List.forall_mem_cons.1 h
    rw [listing_cons, List.filter_append, List.length_append, ih hxs,
      x.length_filter_listing hx, List.filter_cons]
    by_cases hholds : x.name = a.1 ∧ a.2 ∈ x.messages.map Message.key
    · rw [if_pos hholds, if_pos (decide_eq_true hholds), List.length_cons, Nat.add_comm]
    · rw [if_neg hholds, if_neg (by simpa using hholds), Nat.zero_add]

/-- What a look-up finds is at the address. -/
theorem mem_messagesAt_of_lookup (h : c.lookup a = some m) : (a.1, m) ∈ c.messagesAt a := by
  refine mem_messagesAt.2 ⟨mem_of_lookup h, ?_⟩
  obtain ⟨x, -, hm⟩ := Option.bind_eq_some_iff.1 h
  have hkey : m.key = a.2 := by simpa using List.find?_some hm
  rw [addressOf, hkey]

/-- With one holder at most, what a look-up finds is alone at the address. -/
theorem messagesAt_of_lookup (hc : ∀ x ∈ c.contexts, (x.messages.map Message.key).Nodup)
    (hholders : (c.holders a).length ≤ 1) (h : c.lookup a = some m) :
    c.messagesAt a = [(a.1, m)] := by
  rw [← length_messagesAt hc] at hholders
  exact Sequence.eq_singleton_of_mem hholders (mem_messagesAt_of_lookup h)

/-- Where a name does not repeat, a look-up that finds nothing means that there is nothing. -/
theorem messagesAt_of_lookup_eq_none (hname : (c.namesakes a.1).length ≤ 1)
    (h : c.lookup a = none) : c.messagesAt a = [] := by
  rw [List.eq_nil_iff_forall_not_mem]
  intro p hp
  obtain ⟨hlisted, haddress⟩ := mem_messagesAt.1 hp
  obtain ⟨y, hy, hpy, hm⟩ := exists_of_mem_listing hlisted
  have hyname : y.name = a.1 := by rw [← haddress, addressOf, hpy]
  have hyname' : y ∈ c.namesakes a.1 := List.mem_filter.2 ⟨hy, decide_eq_true hyname⟩
  cases hx : c.context? a.1 with
  | none =>
    have hother := List.find?_eq_none.1 hx y hy
    exact hother (by simpa using hyname)
  | some x =>
    -- the first context of the name is the only one
    have hxname : x.name = a.1 := by simpa using List.find?_some hx
    have hxname' : x ∈ c.namesakes a.1 :=
      List.mem_filter.2 ⟨List.mem_of_find?_eq_some hx, decide_eq_true hxname⟩
    obtain rfl : y = x := by
      rw [Sequence.eq_singleton_of_mem hname hxname', List.mem_singleton] at hyname'
      exact hyname'
    rw [lookup, hx, Option.bind_some] at h
    have hkey : p.2.key = a.2 := by rw [← haddress, addressOf]
    exact List.find?_eq_none.1 h p.2 hm (by simpa using hkey)

end Catalogue

/-- **A phrasebook of one catalogue serves the last message at the address that may be
served.** -/
theorem Phrasebook.entry?_ofCatalogue_eq (includeUnfinished : Bool) (c : Catalogue)
    (a : Catalogue.Address) :
    entry? (ofCatalogue includeUnfinished c) a =
      ((c.messagesAt a).filter fun p => Servable includeUnfinished p.2).getLast?.map
        fun p => p.2.target.wording := by
  refine (entry?_loadAll includeUnfinished [c] a).trans ?_
  rw [lastServable?, servables, List.flatMap_singleton, List.filter_comm, Option.map_map,
    Catalogue.messagesAt]
  rfl

namespace Catalogue

/-- **What an audit says about the answers at an address.**  Where it reports no message that
repeats another one, there are as many messages at the address as holders.  With one holder
at most, what a look-up finds is the only message there, and a phrasebook serves it or, if
it may not be served, nothing.  If no other context has the name, then where a look-up finds
nothing there is no message and nothing is served. -/
theorem one_answer_of_audit {c : Catalogue}
    (haudit : ∀ f ∈ (Audit.run {} c).findings, f.kind ≠ .duplicateMessage)
    (context source : String) (comment? : Option String) :
    (c.messagesAt (context, .of source comment?)).length =
        (c.holders (context, .of source comment?)).length ∧
      ((c.holders (context, .of source comment?)).length ≤ 1 →
        ∀ m, c.find? context source comment? = some m →
          c.messagesAt (context, .of source comment?) = [(context, m)] ∧
            ∀ includeUnfinished,
              Phrasebook.entry? (Phrasebook.ofCatalogue includeUnfinished c)
                  (context, .of source comment?) =
                if Phrasebook.Servable includeUnfinished m then some m.target.wording
                else none) ∧
      ((c.namesakes context).length ≤ 1 → c.find? context source comment? = none →
        c.messagesAt (context, .of source comment?) = [] ∧
          ∀ includeUnfinished,
            Phrasebook.entry? (Phrasebook.ofCatalogue includeUnfinished c)
              (context, .of source comment?) = none) := by
  have hkeys := (Audit.forall_kind_run rfl c).1 haudit
  refine ⟨length_messagesAt hkeys _, ?_, ?_⟩
  · intro hholders m hm
    have hat : c.messagesAt (context, .of source comment?) = [(context, m)] :=
      messagesAt_of_lookup hkeys hholders hm
    refine ⟨hat, fun includeUnfinished => ?_⟩
    rw [Phrasebook.entry?_ofCatalogue_eq, hat]
    by_cases hservable : Phrasebook.Servable includeUnfinished m
    · rw [if_pos hservable, List.filter_cons_of_pos (by simpa using hservable)]
      rfl
    · rw [if_neg hservable, List.filter_cons_of_neg (by simpa using hservable)]
      rfl
  · intro hname hnone
    have hat : c.messagesAt (context, .of source comment?) = [] :=
      messagesAt_of_lookup_eq_none hname hnone
    refine ⟨hat, fun includeUnfinished => ?_⟩
    rw [Phrasebook.entry?_ofCatalogue_eq, hat]
    rfl

/-- A message that two contexts share, and a draft under a comment. -/
def shared : Catalogue where
  contexts := [
    { name := "Q", messages := [
      { source := "a", target := ⟨.finished, .plain "x"⟩ },
      { source := "a", comment? := some "b", target := ⟨.unfinished, .plain "z"⟩ }] },
    { name := "R", messages := [{ source := "a", target := ⟨.finished, .plain "y"⟩ }] }]

theorem shared_has_one_answer :
    shared.messagesAt ("Q", .of "a" (some "")) =
        [("Q", { source := "a", target := ⟨.finished, .plain "x"⟩ })] ∧
      (∀ includeUnfinished,
        Phrasebook.entry? (Phrasebook.ofCatalogue includeUnfinished shared)
          ("Q", .of "a" (some "")) = some (.plain "x")) ∧
      ∀ includeUnfinished,
        Phrasebook.entry? (Phrasebook.ofCatalogue includeUnfinished shared)
          ("R", .of "a" (some "b")) = none := by
  have haudit : ∀ f ∈ (Audit.run {} shared).findings, f.kind ≠ .duplicateMessage := by
    decide +kernel
  obtain ⟨-, hone, -⟩ := one_answer_of_audit haudit "Q" "a" (some "")
  obtain ⟨-, -, hnone⟩ := one_answer_of_audit haudit "R" "a" (some "b")
  obtain ⟨hat, hserved⟩ := hone (by decide)
    { source := "a", target := ⟨.finished, .plain "x"⟩ } (by decide)
  refine ⟨hat, fun includeUnfinished => (hserved includeUnfinished).trans ?_,
    (hnone (by decide) (by decide)).2⟩
  exact if_pos (by cases includeUnfinished <;> decide)

/-- Two contexts of one name that share a message. -/
def twofold : Catalogue where
  contexts := [
    { name := "Q", messages := [{ source := "a", target := ⟨.finished, .plain "x"⟩ }] },
    { name := "Q", messages := [{ source := "a", target := ⟨.finished, .plain "y"⟩ }] }]

/-- **No finding in spite of two answers.**  The audit reports nothing at all, but a look-up
and a phrasebook disagree. -/
theorem twofold_passes :
    (Audit.run {} twofold).findings = [] ∧
      (twofold.messagesAt ("Q", .of "a" none)).length = 2 ∧
      (twofold.find? "Q" "a" none).map (·.target.wording) = some (.plain "x") ∧
      Phrasebook.entry? (Phrasebook.ofCatalogue false twofold) ("Q", .of "a" none) =
        some (.plain "y") := by
  decide +kernel

end Catalogue
end Linguist
