import Linguist.Comparison
import Linguist.Proofs.Catalogue.Address
import Linguist.Proofs.Sequence.Grouping
import Linguist.Proofs.Sequence.Sorting

/-!
# What a comparison counts

The comparison of two catalogues takes up every key of every context of either of them, each
key once, and sorts it by where it is found: in the later one only, in the earlier one only, or
in both, and then with equal or with different targets (`foldl_add`).

Where names do not repeat, a name and a key are an address, and the comparison as a whole takes
up the addresses of both catalogues, each once (`compared`).  So the numbers that it reports are
numbers of addresses: those of the later catalogue that the earlier one lacks, those of the
earlier one that the later one lacks, and those that they share (`added_eq`, `removed_eq`,
`changed_add_unchanged_eq`).

Targets play no part in this except that they tell changed from unchanged messages, whose
number together does not depend on them.
-/

namespace Linguist

/-! ## The order of keys -/

namespace Message.Key

theorem order_eq : Key.order = compareLex (compareOn Key.source) (compareOn Key.comment) := rfl

instance : Std.TransCmp Key.order := by
  rw [order_eq]
  infer_instance

/-- Keys that compare as equal are equal. -/
instance : Std.LawfulEqCmp Key.order where
  compare_self := Std.ReflCmp.compare_self
  eq_of_compare := by
    rintro ⟨source, comment⟩ ⟨source', comment'⟩ h
    obtain ⟨hsource, hcomment⟩ := Ordering.then_eq_eq.1 h
    rw [Key.mk.injEq]
    exact ⟨Std.LawfulEqCmp.eq_of_compare hsource, Std.LawfulEqCmp.eq_of_compare hcomment⟩

end Message.Key

namespace Comparison

/-! ## Keys -/

/-- The keys of some messages are rising. -/
theorem rising_keys (ms : List Message) : Sequence.Rising Message.Key.order (keys ms) :=
  Sequence.rising_eraseReps (Sequence.pairwise_sort (ms.map Message.key))

theorem nodup_keys (ms : List Message) : (keys ms).Nodup :=
  (rising_keys ms).nodup

@[simp] theorem mem_keys {ms : List Message} {key : Message.Key} :
    key ∈ keys ms ↔ key ∈ ms.map Message.key := by
  rw [keys, Sequence.mem_eraseReps, List.mem_mergeSort]

/-- A key has a target if there is a message of that key. -/
theorem isSome_target? {ms : List Message} {key : Message.Key} :
    (target? ms key).isSome = true ↔ key ∈ ms.map Message.key := by
  rw [target?, Option.isSome_map, List.find?_isSome, List.mem_map]
  simp

/-! ## Contexts -/

/-- The change of a key from one target to another. -/
def change? (key : Message.Key) : Option Target → Option Target → Option Change
  | some before, some after => if before = after then none else some ⟨key, before, after⟩
  | _, _ => none

@[simp] theorem change?_none (key : Message.Key) (after : Option Target) :
    change? key none after = none := rfl

@[simp] theorem change?_some_none (key : Message.Key) (before : Target) :
    change? key (some before) none = none := rfl

@[simp] theorem change?_some_some (key : Message.Key) (before after : Target) :
    change? key (some before) (some after) =
      if before = after then none else some ⟨key, before, after⟩ := rfl

/-- **A key is sorted by where it is found.** -/
theorem foldl_add (before after : Message.Key → Option Target) (d : ContextChanges)
    (ks : List Message.Key) :
    ks.foldl (fun d key => d.add key (before key) (after key)) d =
      { d with
        added := d.added ++ ks.filter fun key => (before key).isNone && (after key).isSome
        removed := d.removed ++ ks.filter fun key => (before key).isSome && (after key).isNone
        changed := d.changed ++ ks.filterMap fun key => change? key (before key) (after key)
        unchanged := d.unchanged + ks.countP fun key =>
          (before key).isSome && before key = after key } := by
  induction ks generalizing d with
  | nil => simp
  | cons key ks ih =>
    rw [List.foldl_cons, ih]
    cases hbefore : before key with
    | none => cases hafter : after key <;> simp [ContextChanges.add, hbefore, hafter]
    | some x =>
      cases hafter : after key with
      | none => simp [ContextChanges.add, hbefore, hafter]
      | some y =>
        by_cases hxy : x = y
        · simp [ContextChanges.add, hbefore, hafter, hxy, Nat.add_assoc, Nat.add_comm]
        · simp [ContextChanges.add, hbefore, hafter, hxy]

/-- A key that is found in both is changed or unchanged. -/
theorem length_changed_add_unchanged (before after : Message.Key → Option Target)
    (ks : List Message.Key) :
    (ks.filterMap fun key => change? key (before key) (after key)).length +
        ks.countP (fun key => (before key).isSome && before key = after key) =
      ks.countP fun key => (before key).isSome && (after key).isSome := by
  induction ks with
  | nil => rfl
  | cons key ks ih =>
    cases hbefore : before key with
    | none => simp [hbefore, ih]
    | some x =>
      cases hafter : after key with
      | none => simp [hbefore, hafter, ih]
      | some y =>
        by_cases hxy : x = y
        · simp [hbefore, hafter, hxy, ← ih, Nat.add_assoc]
        · simp [hbefore, hafter, hxy, ← ih, Nat.add_right_comm]

/-! ## Addresses -/

variable {c : Catalogue}

/-- Where names do not repeat, the messages of a name are those that are listed under it. -/
theorem mem_messagesOf (hnames : (c.contexts.map Context.name).Nodup) {name : String}
    {m : Message} : m ∈ messagesOf c name ↔ (name, m) ∈ c.messages := by
  constructor
  · intro hm
    rw [messagesOf] at hm
    cases hx : c.context? name with
    | none => rw [hx] at hm; cases hm
    | some x =>
      rw [hx] at hm
      have hname : x.name = name := eq_of_beq (List.find?_some hx :)
      exact hname ▸ mem_listing (List.mem_of_find?_eq_some hx) hm
  · intro hm
    obtain ⟨x, hx, hname, hm⟩ := exists_of_mem_listing hm
    obtain rfl : name = x.name := hname
    have hcontext : c.context? x.name = some x := Sequence.find?_of_nodup hnames hx
    rw [messagesOf, hcontext]
    exact hm

/-- The target at an address. -/
def targetAt? (c : Catalogue) (a : Catalogue.Address) : Option Target :=
  target? (messagesOf c a.1) a.2

theorem mem_map_key_messagesOf (hnames : (c.contexts.map Context.name).Nodup)
    (a : Catalogue.Address) :
    a.2 ∈ (messagesOf c a.1).map Message.key ↔ a ∈ c.messages.map addressOf := by
  constructor
  · intro ha
    obtain ⟨m, hm, hkey⟩ := List.mem_map.1 ha
    exact List.mem_map.2 ⟨(a.1, m), (mem_messagesOf hnames).1 hm, Prod.ext rfl hkey⟩
  · intro ha
    obtain ⟨p, hp, rfl⟩ := List.mem_map.1 ha
    exact List.mem_map_of_mem ((mem_messagesOf hnames).2 hp)

theorem isSome_targetAt? (hnames : (c.contexts.map Context.name).Nodup)
    (a : Catalogue.Address) :
    (targetAt? c a).isSome = true ↔ a ∈ c.messages.map addressOf :=
  isSome_target?.trans (mem_map_key_messagesOf hnames a)

theorem isNone_targetAt? (hnames : (c.contexts.map Context.name).Nodup)
    (a : Catalogue.Address) :
    (targetAt? c a).isNone = true ↔ a ∉ c.messages.map addressOf := by
  rw [← isSome_targetAt? hnames, Option.isNone_iff_eq_none, Option.not_isSome_iff_eq_none]

variable (before after : Catalogue)

/-- The addresses that a comparison takes up. -/
def compared : List Catalogue.Address :=
  (contextNames before after).flatMap fun name =>
    (keys (messagesOf before name ++ messagesOf after name)).map (name, ·)

/-- No address is taken up twice. -/
theorem nodup_compared : (compared before after).Nodup := by
  rw [compared, List.nodup_flatMap]
  refine ⟨fun name _ => ?_, ?_⟩
  · exact (nodup_keys _).map fun _ _ h => congrArg Prod.snd h
  · refine (Sequence.nodup_distinct _).imp fun {name name'} hne => ?_
    intro a ha ha'
    obtain ⟨_, -, rfl⟩ := List.mem_map.1 ha
    obtain ⟨_, -, heq⟩ := List.mem_map.1 ha'
    exact hne (congrArg Prod.fst heq).symm

variable {before after}

theorem name_mem_of_address {a : Catalogue.Address} (h : a ∈ c.messages.map addressOf) :
    a.1 ∈ c.contexts.map Context.name := by
  obtain ⟨p, hp, rfl⟩ := List.mem_map.1 h
  obtain ⟨x, hx, hname, -⟩ := exists_of_mem_listing hp
  exact hname ▸ List.mem_map_of_mem hx

/-- The addresses of both catalogues are taken up, and no others. -/
theorem mem_compared (hbefore : (before.contexts.map Context.name).Nodup)
    (hafter : (after.contexts.map Context.name).Nodup) (a : Catalogue.Address) :
    a ∈ compared before after ↔
      a ∈ before.messages.map addressOf ∨ a ∈ after.messages.map addressOf := by
  have hkeys : a.2 ∈ keys (messagesOf before a.1 ++ messagesOf after a.1) ↔
      a ∈ before.messages.map addressOf ∨ a ∈ after.messages.map addressOf := by
    rw [mem_keys, List.map_append, List.mem_append, mem_map_key_messagesOf hbefore,
      mem_map_key_messagesOf hafter]
  rw [← hkeys, compared, List.mem_flatMap]
  constructor
  · rintro ⟨name, -, ha⟩
    obtain ⟨key, hkey, rfl⟩ := List.mem_map.1 ha
    exact hkey
  · intro ha
    refine ⟨a.1, ?_, List.mem_map_of_mem ha⟩
    rw [contextNames, Sequence.mem_distinct, List.map_append, List.mem_append]
    exact (hkeys.1 ha).imp name_mem_of_address name_mem_of_address

/-! ## Counts -/

theorem compareContext_eq (name : String) (before after : List Message) :
    compareContext name before after =
      { context := name
        added := (keys (before ++ after)).filter fun key =>
          (target? before key).isNone && (target? after key).isSome
        removed := (keys (before ++ after)).filter fun key =>
          (target? before key).isSome && (target? after key).isNone
        changed := (keys (before ++ after)).filterMap fun key =>
          change? key (target? before key) (target? after key)
        unchanged := (keys (before ++ after)).countP fun key =>
          (target? before key).isSome && target? before key = target? after key } := by
  rw [compareContext, foldl_add]
  simp

/-- What is counted in each context is counted over all addresses. -/
theorem total_contexts {f : ContextChanges → Nat} {p : Catalogue.Address → Bool}
    (h : ∀ name, f (compareContext name (messagesOf before name) (messagesOf after name)) =
      (keys (messagesOf before name ++ messagesOf after name)).countP fun key => p (name, key)) :
    Sequence.total f (Report.ofCatalogues before after).contexts =
      (compared before after).countP p := by
  rw [Sequence.total_eq_sum, Report.ofCatalogues, List.map_map, compared, List.countP_flatMap]
  refine congrArg List.sum (List.map_congr_left fun name _ => ?_)
  rw [Function.comp_apply, h, Function.comp_apply, List.countP_map]
  rfl

variable (hbefore : Distinct before.contexts) (hafter : Distinct after.contexts)

include hbefore hafter

/-- **Added are the addresses that the earlier catalogue lacks.** -/
theorem added_eq :
    (Report.ofCatalogues before after).added =
      (after.messages.map addressOf).countP (· ∉ before.messages.map addressOf) := by
  have hcount : (Report.ofCatalogues before after).added = (compared before after).countP
      fun a => (targetAt? before a).isNone && (targetAt? after a).isSome := by
    refine total_contexts fun name => ?_
    rw [compareContext_eq]
    exact List.countP_eq_length_filter.symm
  rw [hcount]
  refine Sequence.countP_of_nodup (nodup_compared _ _) hafter.nodup_addresses fun a => ?_
  rw [mem_compared hbefore.1 hafter.1, Bool.and_eq_true, isNone_targetAt? hbefore.1,
    isSome_targetAt? hafter.1, decide_eq_true_iff]
  tauto

/-- **Removed are the addresses that the later catalogue lacks.** -/
theorem removed_eq :
    (Report.ofCatalogues before after).removed =
      (before.messages.map addressOf).countP (· ∉ after.messages.map addressOf) := by
  have hcount : (Report.ofCatalogues before after).removed = (compared before after).countP
      fun a => (targetAt? before a).isSome && (targetAt? after a).isNone := by
    refine total_contexts fun name => ?_
    rw [compareContext_eq]
    exact List.countP_eq_length_filter.symm
  rw [hcount]
  refine Sequence.countP_of_nodup (nodup_compared _ _) hbefore.nodup_addresses fun a => ?_
  rw [mem_compared hbefore.1 hafter.1, Bool.and_eq_true, isSome_targetAt? hbefore.1,
    isNone_targetAt? hafter.1, decide_eq_true_iff]
  tauto

/-- **Changed or unchanged are the addresses that both catalogues have.** -/
theorem changed_add_unchanged_eq :
    (Report.ofCatalogues before after).changed + (Report.ofCatalogues before after).unchanged =
      (before.messages.map addressOf).countP (· ∈ after.messages.map addressOf) := by
  have hcount : (Report.ofCatalogues before after).changed +
      (Report.ofCatalogues before after).unchanged = (compared before after).countP
        fun a => (targetAt? before a).isSome && (targetAt? after a).isSome := by
    rw [Report.changed, Report.unchanged, Sequence.total_add]
    refine total_contexts fun name => ?_
    rw [compareContext_eq]
    exact length_changed_add_unchanged _ _ _
  rw [hcount]
  refine Sequence.countP_of_nodup (nodup_compared _ _) hbefore.nodup_addresses fun a => ?_
  rw [mem_compared hbefore.1 hafter.1, Bool.and_eq_true, isSome_targetAt? hbefore.1,
    isSome_targetAt? hafter.1, decide_eq_true_iff]
  tauto

end Comparison
end Linguist
