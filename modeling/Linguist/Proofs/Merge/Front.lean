import Linguist.Proofs.Merge.Retirement

/-!
# The front of the merged contexts

The merged catalogue starts with the collected contexts, and each of them with the merged
messages of its collected ones (`StartsWith`).  These messages are the *front*; all the
*others* come behind them, in the same contexts or in further ones.  Front and others
together are the listing of the merged contexts (`perm_front_others`), whatever they are
merged from.

The merge of the collected contexts alone leaves nothing but a front, and emptying the
pools afterwards only adds others (`front_filed`, `perm_others_filed`).

A message of the front is *current*: it has the key of the collected message, it says the
same about its use, and it is active.
-/

namespace Linguist
namespace Merge

/-! ## Current messages -/

/-- A message has the key of a collected one, agrees with it on its use, and is active. -/
structure Current (collected m : Message) : Prop where
  key : m.key = collected.key
  refresh : refresh m collected = m
  isActive : m.target.status.isActive = true

variable {collected : Message}

theorem isActive_revivedStatus (t : Target) : (revivedStatus t).isActive = true := by
  rw [revivedStatus]
  split <;> rfl

theorem current_mergeOld {old : Message} (h : old.key = collected.key) (r : Report) :
    Current collected (mergeOld old collected r).1 := by
  refine ⟨key_mergeOld collected h r, ?_, ?_⟩
  · rw [mergeOld]
    split <;> rfl
  · rw [mergeOld]
    split
    · assumption
    · exact isActive_revivedStatus _

theorem current_mergeNew (setting : Setting) (collected : Message) (r : Report) :
    Current collected (mergeNew setting collected r).1 := by
  refine ⟨key_mergeNew setting collected r, ?_, ?_⟩
  · rw [mergeNew]
    split <;> rfl
  · rw [mergeNew]
    split <;> rfl

/-- **Every merged message is current.** -/
theorem current_mergeMessage (setting : Setting) (context : String) (s : State)
    (collected : Message) :
    Current collected (mergeMessage setting context s collected).1 := by
  cases htake : take? context collected.key s.pools with
  | some taken =>
    rw [mergeMessage_of_some setting context s collected htake]
    exact current_mergeOld (key_of_take? htake) s.report
  | none =>
    rw [mergeMessage_of_none setting context s collected htake]
    exact current_mergeNew setting collected s.report

/-- A context has the name of a collected one and current messages, one for each of its
messages, and its comment does not wait for the collected one. -/
structure CurrentContext (collected x : Context) : Prop where
  name : x.name = collected.name
  comment? : x.comment?.or collected.comment? = x.comment?
  messages : List.Forall₂ Current collected.messages x.messages

theorem current_mergeContext (setting : Setting) (s : State) (collected : Context) :
    CurrentContext collected (mergeContext setting s collected).1 where
  name := rfl
  comment? := by
    show (contextComment? s.pools collected).or collected.comment? =
      contextComment? s.pools collected
    rw [contextComment?, Option.or_assoc, Option.or_self]
  messages := Sequence.forall₂_thread (current_mergeMessage setting collected.name) s _

/-- The merge makes a current context of each collected one. -/
theorem current_walked (options : Options) (existing extracted : Catalogue) :
    List.Forall₂ CurrentContext extracted.contexts (walked options existing extracted).1 :=
  Sequence.forall₂_thread (current_mergeContext _) _ extracted.contexts

theorem map_name_of_current {cs xs : List Context} (h : List.Forall₂ CurrentContext cs xs) :
    xs.map Context.name = cs.map Context.name :=
  (Sequence.map_eq_map (h.imp fun _ _ hx => hx.name.symm)).symm

/-- Collected names that do not repeat do not repeat in the merged contexts. -/
theorem nodup_names_mergeContexts (options : Options) (existing : Catalogue)
    {extracted : Catalogue} (h : (extracted.contexts.map Context.name).Nodup) :
    ((mergeContexts options existing extracted).1.map Context.name).Nodup := by
  have hwalked := map_name_of_current (current_walked options existing extracted)
  rw [mergeContexts_eq]
  exact nodup_names_retirePools options _ _ (hwalked ▸ h) _

theorem map_key_of_current {cs ms : List Message} (h : List.Forall₂ Current cs ms) :
    ms.map Message.key = cs.map Message.key :=
  (Sequence.map_eq_map (h.imp fun _ _ hm => hm.key.symm)).symm

/-! ## Front and others -/

/-- The merged contexts start with the collected ones, and each of these with one message
for each collected message, in their order and under their keys. -/
def StartsWith : List Context → List Context → Prop
  | [], _ => True
  | c :: cs, x :: xs =>
    x.name = c.name ∧ c.messages.map Message.key <+: x.messages.map Message.key ∧
      StartsWith cs xs
  | _ :: _, [] => False

/-- The listed messages in the places of collected ones. -/
def front : List Context → List Context → List (String × Message)
  | c :: cs, x :: xs => x.listing.take c.messages.length ++ front cs xs
  | _, _ => []

/-- The other listed messages. -/
def others : List Context → List Context → List (String × Message)
  | c :: cs, x :: xs => x.listing.drop c.messages.length ++ others cs xs
  | _, xs => listing xs

/-- Every message is in the front or one of the others. -/
theorem perm_front_others (cs xs : List Context) :
    (front cs xs ++ others cs xs).Perm (listing xs) := by
  induction cs generalizing xs with
  | nil => exact .refl _
  | cons c cs ih =>
    cases xs with
    | nil => exact .refl _
    | cons x xs =>
      have hx := x.listing.take_append_drop c.messages.length
      calc front (c :: cs) (x :: xs) ++ others (c :: cs) (x :: xs)
          = x.listing.take c.messages.length ++ (front cs xs ++
              (x.listing.drop c.messages.length ++ others cs xs)) := List.append_assoc ..
        _ |>.Perm (x.listing.take c.messages.length ++ (x.listing.drop c.messages.length ++
              (front cs xs ++ others cs xs))) := (List.perm_append_comm_assoc ..).append_left _
        _ |>.Perm (listing (x :: xs)) := by
            rw [← List.append_assoc, hx, listing_cons]
            exact (ih xs).append_left _

variable {options : Options} {cs xs ys : List Context}

/-- Contexts that have grown since they were merged start with the collected ones. -/
theorem startsWith_filed (hcurrent : List.Forall₂ CurrentContext cs xs)
    (hfiled : Filed options xs ys) : StartsWith cs ys := by
  induction hcurrent generalizing ys with
  | nil => trivial
  | @cons c x cs xs hhead _ ih =>
    cases ys with
    | nil => exact hfiled.elim
    | cons y ys =>
      obtain ⟨⟨back, rfl, _⟩, hrest⟩ := hfiled
      refine ⟨hhead.name, ?_, ih hrest⟩
      rw [Context.withMessages, List.map_append, map_key_of_current hhead.messages]
      exact List.prefix_append _ _

/-- **The front is what was merged,** however the contexts grow. -/
theorem front_filed (hcurrent : List.Forall₂ CurrentContext cs xs)
    (hfiled : Filed options xs ys) : front cs ys = listing xs := by
  induction hcurrent generalizing ys with
  | nil => cases ys <;> rfl
  | @cons c x cs xs hhead _ ih =>
    cases ys with
    | nil => exact hfiled.elim
    | cons y ys =>
      obtain ⟨⟨back, rfl, _⟩, hrest⟩ := hfiled
      have hlisting : (x.withMessages (x.messages ++ back)).listing =
          x.listing ++ back.map (x.name, ·) := List.map_append
      have hlength : c.messages.length = x.listing.length := by
        rw [Context.length_listing, hhead.messages.length_eq]
      rw [front, ih hrest, hlisting, hlength, List.take_left]
      rfl

/-- What the listing gains, the others gain. -/
theorem perm_others_filed (hcurrent : List.Forall₂ CurrentContext cs xs)
    (hfiled : Filed options xs ys) {ps : List (String × Message)}
    (hperm : (listing ys).Perm (listing xs ++ ps)) : (others cs ys).Perm ps := by
  have hsplit := (perm_front_others cs ys).trans hperm
  rw [front_filed hcurrent hfiled] at hsplit
  exact (List.perm_append_left_iff _).1 hsplit

/-! ## Other places -/

/-- Alike contexts start with the same collected ones. -/
theorem StartsWith.alike (h : StartsWith cs xs) (halike : List.Forall₂ Context.Alike xs ys) :
    StartsWith cs ys := by
  induction cs generalizing xs ys with
  | nil => trivial
  | cons c cs ih =>
    cases halike with
    | nil => exact h.elim
    | cons hhead hrest =>
      refine ⟨hhead.name.trans h.1, ?_, ih h.2.2 hrest⟩
      rw [hhead.map_key]
      exact h.2.1

/-- Alike contexts have alike fronts. -/
theorem forall₂_front (cs : List Context) (h : List.Forall₂ Context.Alike xs ys) :
    List.Forall₂ AlikeListed (front cs xs) (front cs ys) := by
  induction cs generalizing xs ys with
  | nil => exact .nil
  | cons c cs ih =>
    cases h with
    | nil => exact .nil
    | cons hhead hrest =>
      exact List.rel_append (List.forall₂_take _ hhead.forall₂_listing) (ih hrest)

/-- Alike contexts have alike others. -/
theorem forall₂_others (cs : List Context) (h : List.Forall₂ Context.Alike xs ys) :
    List.Forall₂ AlikeListed (others cs xs) (others cs ys) := by
  induction cs generalizing xs ys with
  | nil => exact forall₂_listing h
  | cons c cs ih =>
    cases h with
    | nil => exact .nil
    | cons hhead hrest =>
      exact List.rel_append (List.forall₂_drop _ hhead.forall₂_listing) (ih hrest)

/-- Others without places stay the same when the places are rewritten. -/
theorem others_alike (cs : List Context) (h : List.Forall₂ Context.Alike xs ys)
    (hplaces : ∀ p ∈ others cs xs, p.2.places = []) : others cs ys = others cs xs := by
  have hothers := forall₂_others cs h
  generalize others cs xs = ps at hothers hplaces ⊢
  generalize others cs ys = qs at hothers ⊢
  induction hothers with
  | nil => rfl
  | @cons p q ps qs hhead _ ih =>
    obtain ⟨hp, hps⟩ := List.forall_mem_cons.1 hplaces
    have hq : q = p := Prod.ext hhead.name (hhead.message.eq_of_places hp)
    rw [hq, ih hps]

end Merge
end Linguist
