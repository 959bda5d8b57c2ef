import Linguist.Proofs.Sequence
import Linguist.Proofs.Catalogue.Alike

/-!
# Where a message stands

The address of a message is the name of its context with its key.  A list of contexts is
*distinct* if no name repeats in it and no key repeats in a context.  Addresses do not
repeat then (`Distinct.nodup_addresses`), so that an address leads to one message at
most, and distinct names with distinct addresses are all there is to it
(`distinct_iff`).

Addresses are read off the listing of the contexts, which has the messages in file order,
each with the name of its context.  It says nothing about contexts without messages; this
is why distinctness asks for the names as well.
-/

namespace Linguist

/-- The name of a context and the key of a message in it. -/
abbrev Catalogue.Address := String × Message.Key

/-- The address of a listed message. -/
def addressOf (p : String × Message) : Catalogue.Address :=
  (p.1, p.2.key)

/-- Listed messages of one context name that differ in their places only. -/
structure AlikeListed (p q : String × Message) : Prop where
  name : q.1 = p.1
  message : p.2.Alike q.2

theorem AlikeListed.address {p q : String × Message} (h : AlikeListed p q) :
    addressOf q = addressOf p := by
  rw [addressOf, addressOf, h.name, h.message.key]

namespace Context

/-- The messages of a context, each with its name. -/
def listing (x : Context) : List (String × Message) :=
  x.messages.map (x.name, ·)

@[simp] theorem length_listing (x : Context) : x.listing.length = x.messages.length :=
  List.length_map _

theorem mem_listing {x : Context} {p : String × Message} :
    p ∈ x.listing ↔ p.1 = x.name ∧ p.2 ∈ x.messages := by
  rw [listing, List.mem_map]
  constructor
  · rintro ⟨m, hm, rfl⟩
    exact ⟨rfl, hm⟩
  · rintro ⟨hname, hm⟩
    exact ⟨p.2, hm, by rw [← hname]⟩

theorem map_addressOf_listing (x : Context) :
    x.listing.map addressOf = (x.messages.map Message.key).map (x.name, ·) := by
  rw [listing, List.map_map, List.map_map]
  rfl

/-- Inside a context the address is the key. -/
theorem nodup_addresses_iff (x : Context) :
    (x.listing.map addressOf).Nodup ↔ (x.messages.map Message.key).Nodup := by
  rw [map_addressOf_listing]
  exact List.nodup_map_iff fun _ _ h => congrArg Prod.snd h

theorem Alike.forall₂_listing {x y : Context} (h : x.Alike y) :
    List.Forall₂ AlikeListed x.listing y.listing := by
  rw [listing, listing, List.forall₂_map_left_iff, List.forall₂_map_right_iff]
  exact h.messages.imp fun _ _ hm => ⟨h.name, hm⟩

end Context

/-- The messages of contexts, each with the name of its context. -/
def listing (xs : List Context) : List (String × Message) :=
  xs.flatMap Context.listing

namespace Catalogue

theorem listing_contexts (c : Catalogue) : listing c.contexts = c.messages := rfl

end Catalogue

@[simp] theorem listing_nil : listing [] = [] := rfl

@[simp] theorem listing_cons (x : Context) (xs : List Context) :
    listing (x :: xs) = x.listing ++ listing xs := rfl

@[simp] theorem listing_append (xs ys : List Context) :
    listing (xs ++ ys) = listing xs ++ listing ys :=
  List.flatMap_append

/-- A listed message is in a context of its name. -/
theorem exists_of_mem_listing {xs : List Context} {p : String × Message} (h : p ∈ listing xs) :
    ∃ x ∈ xs, p.1 = x.name ∧ p.2 ∈ x.messages := by
  obtain ⟨x, hx, hp⟩ := List.mem_flatMap.1 h
  exact ⟨x, hx, Context.mem_listing.1 hp⟩

theorem mem_listing {xs : List Context} {x : Context} {m : Message} (hx : x ∈ xs)
    (hm : m ∈ x.messages) : (x.name, m) ∈ listing xs :=
  List.mem_flatMap.2 ⟨x, hx, Context.mem_listing.2 ⟨rfl, hm⟩⟩

/-- Alike contexts list alike messages under the same names. -/
theorem forall₂_listing {xs ys : List Context} (h : List.Forall₂ Context.Alike xs ys) :
    List.Forall₂ AlikeListed (listing xs) (listing ys) := by
  induction h with
  | nil => exact .nil
  | cons hhead _ ih => exact List.rel_append hhead.forall₂_listing ih

/-! ## Distinctness -/

/-- No name repeats, and no key repeats in a context. -/
def Distinct (xs : List Context) : Prop :=
  (xs.map Context.name).Nodup ∧ ∀ x ∈ xs, (x.messages.map Message.key).Nodup

instance (xs : List Context) : Decidable (Distinct xs) :=
  inferInstanceAs (Decidable (_ ∧ _))

namespace Distinct

variable {x : Context} {xs : List Context}

theorem tail (h : Distinct (x :: xs)) : Distinct xs :=
  ⟨h.1.of_cons, fun y hy => h.2 y (List.mem_cons_of_mem x hy)⟩

/-- The first context shares no address with the others. -/
theorem disjoint_head (h : (x :: xs).map Context.name |>.Nodup) :
    List.Disjoint (x.listing.map addressOf) ((listing xs).map addressOf) := by
  intro a hx hxs
  obtain ⟨p, hp, rfl⟩ := List.mem_map.1 hx
  obtain ⟨q, hq, hqp⟩ := List.mem_map.1 hxs
  obtain ⟨y, hy, hname, _⟩ := exists_of_mem_listing hq
  have hsame : x.name = y.name := by
    rw [← (Context.mem_listing.1 hp).1, ← hname]
    exact (congrArg Prod.fst hqp).symm
  rw [List.map_cons] at h
  exact (List.nodup_cons.1 h).1 (hsame ▸ List.mem_map_of_mem hy)

/-- **The addresses of distinct contexts do not repeat.** -/
theorem nodup_addresses (h : Distinct xs) : ((listing xs).map addressOf).Nodup := by
  induction xs with
  | nil => exact List.nodup_nil
  | cons x xs ih =>
    rw [listing_cons, List.map_append, List.nodup_append']
    exact ⟨x.nodup_addresses_iff.2 (h.2 x List.mem_cons_self), ih h.tail, disjoint_head h.1⟩

end Distinct

/-- Distinct names and distinct addresses are all that distinctness asks for. -/
theorem distinct_iff (xs : List Context) :
    Distinct xs ↔ (xs.map Context.name).Nodup ∧ ((listing xs).map addressOf).Nodup := by
  refine ⟨fun h => ⟨h.1, h.nodup_addresses⟩, fun h => ⟨h.1, fun x hx => ?_⟩⟩
  have hsub : x.listing.Sublist (listing xs) := by
    rw [listing, List.flatMap_def]
    exact List.sublist_flatten_of_mem (List.mem_map_of_mem hx)
  exact x.nodup_addresses_iff.1 (h.2.sublist (hsub.map addressOf))

/-- Where a value does not repeat, what comes before an element does not have its value. -/
theorem notMem_of_nodup_append {α β : Type} {f : α → β} {as bs : List α} {a : α}
    (h : ((as ++ a :: bs).map f).Nodup) : f a ∉ as.map f := by
  rw [List.map_append, List.map_cons] at h
  exact fun hmem => List.disjoint_of_nodup_append h hmem List.mem_cons_self

/-- **In distinct contexts an address leads to one message.** -/
theorem Distinct.filter_eq_singleton {xs : List Context} (h : Distinct xs)
    {p : String × Message} (hp : p ∈ listing xs) :
    (listing xs).filter (fun q => addressOf q = addressOf p) = [p] :=
  Sequence.filter_eq_singleton h.nodup_addresses hp

end Linguist
