import Linguist.Proofs.Catalogue.Lookup
import Linguist.Proofs.Comparison

/-!
# A comparison is exact

What a comparison reports can be said by look-ups alone.  A key is reported as added to a
context if a look-up finds it in the later catalogue only, as removed if it does so in the
earlier one only, as changed if both look-ups find it with different targets, and it is
counted as unchanged if both find it with the same target.  These are all the keys that a
look-up can find, and each of them is in one class, so that a comparison reports no difference
just when every look-up gives the same target in both catalogues (`exact_ofCatalogues`).

Names of contexts may repeat.  A comparison and a look-up go to the first context of a name,
and the name is reported once.  Keys are assumed not to repeat in a context: a look-up finds
the first message of a key and a comparison takes the last one, which is the same message
then (`target?_eq_find?`).
-/

namespace Linguist
namespace Comparison

variable {c before after : Catalogue} {name : String} {key : Message.Key}

/-- The target that a look-up finds. -/
def found? (c : Catalogue) (name : String) (key : Message.Key) : Option Target :=
  (c.find? name key.source (some key.comment)).map Message.target

/-- The report says of every key what look-ups find, in the order of names and keys. -/
structure Report.Exact (before after : Catalogue) (r : Report) : Prop where
  names : Sequence.FirstSeen ((before.contexts ++ after.contexts).map Context.name)
    (r.contexts.map ContextChanges.context)
  added : ∀ name key, (∃ d ∈ r.contexts, d.context = name ∧ key ∈ d.added) ↔
    found? before name key = none ∧ (found? after name key).isSome
  removed : ∀ name key, (∃ d ∈ r.contexts, d.context = name ∧ key ∈ d.removed) ↔
    (found? before name key).isSome ∧ found? after name key = none
  changed : ∀ name change, (∃ d ∈ r.contexts, d.context = name ∧ change ∈ d.changed) ↔
    found? before name change.key = some change.before ∧
      found? after name change.key = some change.after ∧ change.before ≠ change.after
  unchanged : ∀ d ∈ r.contexts, ∃ ks, Sequence.Rising Message.Key.order ks ∧
    ks.length = d.unchanged ∧ ∀ key, key ∈ ks ↔
      ∃ t, found? before d.context key = some t ∧ found? after d.context key = some t
  rising : ∀ d ∈ r.contexts, Sequence.Rising Message.Key.order d.added ∧
    Sequence.Rising Message.Key.order d.removed ∧
    Sequence.Rising Message.Key.order (d.changed.map Change.key)
  summary : r.added = (r.contexts.map (·.added.length)).sum ∧
    r.removed = (r.contexts.map (·.removed.length)).sum ∧
    r.changed = (r.contexts.map (·.changed.length)).sum ∧
    r.unchanged = (r.contexts.map (·.unchanged)).sum
  differences : r.hasDifferences = false ↔ ∀ name source comment?,
    (before.find? name source comment?).map Message.target =
      (after.find? name source comment?).map Message.target

/-! ## Look-ups -/

theorem target?_eq_find? {ms : List Message} (h : (ms.map Message.key).Nodup)
    (key : Message.Key) : target? ms key = (ms.find? (·.key == key)).map Message.target := by
  rw [target?, Sequence.find?_reverse_of_nodup h]

/-- Where keys do not repeat in a context, a comparison takes what a look-up finds. -/
theorem target?_messagesOf (h : ∀ x ∈ c.contexts, (x.messages.map Message.key).Nodup)
    (name : String) (key : Message.Key) : target? (messagesOf c name) key = found? c name key := by
  have hfound : found? c name key = (c.lookup (name, key)).map Message.target := rfl
  rw [hfound, Catalogue.lookup, messagesOf]
  cases hx : c.context? name with
  | none => rfl
  | some x => exact target?_eq_find? (h x (List.mem_of_find?_eq_some hx)) key

/-- What a look-up finds is in a context of the name. -/
theorem name_mem_of_found (h : (found? c name key).isSome) :
    name ∈ c.contexts.map Context.name := by
  obtain ⟨m, hm⟩ := Option.isSome_iff_exists.1 (Option.isSome_map ▸ h)
  obtain ⟨x, hx, -⟩ := Option.bind_eq_some_iff.1 hm
  have hname : x.name = name := eq_of_beq (List.find?_some hx :)
  exact hname ▸ List.mem_map_of_mem (List.mem_of_find?_eq_some hx)

/-! ## One name -/

/-- What is reported under a name. -/
def changesAt (before after : Catalogue) (name : String) : ContextChanges :=
  compareContext name (messagesOf before name) (messagesOf after name)

@[simp] theorem context_changesAt : (changesAt before after name).context = name := by
  rw [changesAt, compareContext_eq]

/-- The keys that are taken up under a name. -/
def keysAt (before after : Catalogue) (name : String) : List Message.Key :=
  keys (messagesOf before name ++ messagesOf after name)

theorem change?_eq_some_iff {t t' : Option Target} {change : Change} :
    change? key t t' = some change ↔ key = change.key ∧
      t = some change.before ∧ t' = some change.after ∧ change.before ≠ change.after := by
  obtain ⟨key', x, y⟩ := change
  cases t with
  | none => simp
  | some x' =>
    cases t' with
    | none => simp
    | some y' =>
      rw [change?_some_some]
      split
      · rename_i heq
        simp only [reduceCtorEq, Option.some.injEq, false_iff]
        rintro ⟨-, rfl, rfl, hne⟩
        exact hne heq
      · rename_i hne
        simp only [Option.some.injEq, Change.mk.injEq, ne_eq]
        constructor
        · rintro ⟨rfl, rfl, rfl⟩
          exact ⟨rfl, rfl, rfl, hne⟩
        · rintro ⟨rfl, rfl, rfl, -⟩
          exact ⟨rfl, rfl, rfl⟩

section

variable (hbefore : ∀ x ∈ before.contexts, (x.messages.map Message.key).Nodup)
  (hafter : ∀ x ∈ after.contexts, (x.messages.map Message.key).Nodup)

include hbefore hafter

/-- **The keys that are taken up are those that a look-up finds.** -/
theorem mem_keysAt : key ∈ keysAt before after name ↔
    (found? before name key).isSome ∨ (found? after name key).isSome := by
  rw [keysAt, mem_keys, List.map_append, List.mem_append, ← isSome_target?, ← isSome_target?,
    target?_messagesOf hbefore, target?_messagesOf hafter]

theorem changesAt_eq : changesAt before after name =
    { context := name
      added := (keysAt before after name).filter fun key =>
        (found? before name key).isNone && (found? after name key).isSome
      removed := (keysAt before after name).filter fun key =>
        (found? before name key).isSome && (found? after name key).isNone
      changed := (keysAt before after name).filterMap fun key =>
        change? key (found? before name key) (found? after name key)
      unchanged := (keysAt before after name).countP fun key =>
        (found? before name key).isSome && found? before name key = found? after name key } := by
  simp only [changesAt, compareContext_eq, target?_messagesOf hbefore, target?_messagesOf hafter,
    keysAt]

/-- A key that is taken up under a name makes the name one of the report. -/
theorem name_mem_contextNames (h : key ∈ keysAt before after name) :
    name ∈ contextNames before after := by
  rw [contextNames, Sequence.mem_distinct, List.map_append, List.mem_append]
  exact ((mem_keysAt hbefore hafter).1 h).imp name_mem_of_found name_mem_of_found

/-- **What is said of a key under a name is said in the report.**  The name is in the report
once, so that it does not matter which of its contexts is asked. -/
theorem exists_listed_iff {P : ContextChanges → Prop} {p : Prop}
    (h : P (changesAt before after name) ↔ key ∈ keysAt before after name ∧ p) :
    (∃ d ∈ (Report.ofCatalogues before after).contexts, d.context = name ∧ P d) ↔
      key ∈ keysAt before after name ∧ p := by
  rw [← h]
  constructor
  · rintro ⟨d, hd, hname, hP⟩
    obtain ⟨name', -, rfl⟩ := List.mem_map.1 hd
    obtain rfl : name' = name := context_changesAt.symm.trans hname
    exact hP
  · intro hP
    have hname := name_mem_contextNames hbefore hafter (h.1 hP).1
    exact ⟨changesAt before after name, List.mem_map_of_mem hname, context_changesAt, hP⟩

/-! ## The classes -/

theorem exists_added_iff :
    (∃ d ∈ (Report.ofCatalogues before after).contexts, d.context = name ∧ key ∈ d.added) ↔
      found? before name key = none ∧ (found? after name key).isSome := by
  have hadded : key ∈ (changesAt before after name).added ↔ key ∈ keysAt before after name ∧
      found? before name key = none ∧ (found? after name key).isSome := by
    rw [changesAt_eq hbefore hafter, List.mem_filter, Bool.and_eq_true, Option.isNone_iff_eq_none]
  rw [exists_listed_iff hbefore hafter hadded, mem_keysAt hbefore hafter]
  exact and_iff_right_of_imp fun h => Or.inr h.2

theorem exists_removed_iff :
    (∃ d ∈ (Report.ofCatalogues before after).contexts, d.context = name ∧ key ∈ d.removed) ↔
      (found? before name key).isSome ∧ found? after name key = none := by
  have hremoved : key ∈ (changesAt before after name).removed ↔ key ∈ keysAt before after name ∧
      (found? before name key).isSome ∧ found? after name key = none := by
    rw [changesAt_eq hbefore hafter, List.mem_filter, Bool.and_eq_true, Option.isNone_iff_eq_none]
  rw [exists_listed_iff hbefore hafter hremoved, mem_keysAt hbefore hafter]
  exact and_iff_right_of_imp fun h => Or.inl h.1

theorem exists_changed_iff {change : Change} :
    (∃ d ∈ (Report.ofCatalogues before after).contexts, d.context = name ∧ change ∈ d.changed) ↔
      found? before name change.key = some change.before ∧
        found? after name change.key = some change.after ∧ change.before ≠ change.after := by
  have hchanged : change ∈ (changesAt before after name).changed ↔
      change.key ∈ keysAt before after name ∧ found? before name change.key = some change.before ∧
        found? after name change.key = some change.after ∧ change.before ≠ change.after := by
    rw [changesAt_eq hbefore hafter, List.mem_filterMap]
    constructor
    · rintro ⟨key, hkey, hchange⟩
      obtain ⟨rfl, hfound⟩ := change?_eq_some_iff.1 hchange
      exact ⟨hkey, hfound⟩
    · rintro ⟨hkey, hfound⟩
      exact ⟨change.key, hkey, change?_eq_some_iff.2 ⟨rfl, hfound⟩⟩
  rw [exists_listed_iff hbefore hafter hchanged, mem_keysAt hbefore hafter]
  exact and_iff_right_of_imp fun h => Or.inl (Option.isSome_of_eq_some h.1)

/-- The keys that both look-ups find with the same target are counted. -/
theorem exists_unchanged (name : String) : ∃ ks, Sequence.Rising Message.Key.order ks ∧
    ks.length = (changesAt before after name).unchanged ∧ ∀ key, key ∈ ks ↔
      ∃ t, found? before name key = some t ∧ found? after name key = some t := by
  refine ⟨(keysAt before after name).filter fun key =>
    (found? before name key).isSome && found? before name key = found? after name key,
    (rising_keys _).filter _, ?_, fun key => ?_⟩
  · rw [changesAt_eq hbefore hafter]
    exact List.countP_eq_length_filter.symm
  · rw [List.mem_filter, mem_keysAt hbefore hafter, Bool.and_eq_true, decide_eq_true_iff]
    constructor
    · rintro ⟨-, hsome, hsame⟩
      obtain ⟨t, ht⟩ := Option.isSome_iff_exists.1 hsome
      exact ⟨t, ht, hsame ▸ ht⟩
    · rintro ⟨t, hbefore, hafter⟩
      rw [hbefore, hafter]
      exact ⟨Or.inl rfl, rfl, rfl⟩

/-- Every class is listed in the order of keys. -/
theorem rising_changesAt (name : String) :
    Sequence.Rising Message.Key.order (changesAt before after name).added ∧
      Sequence.Rising Message.Key.order (changesAt before after name).removed ∧
      Sequence.Rising Message.Key.order ((changesAt before after name).changed.map Change.key) := by
  rw [changesAt_eq hbefore hafter]
  refine ⟨(rising_keys _).filter _, (rising_keys _).filter _, ?_⟩
  refine List.pairwise_map.2 ((rising_keys _).filterMap _ fun key key' hlt x hx y hy => ?_)
  rwa [← (change?_eq_some_iff.1 hx).1, ← (change?_eq_some_iff.1 hy).1]

/-! ## The report -/

/-- **No difference is reported just when every look-up gives the same target.** -/
theorem hasDifferences_eq_false_iff :
    (Report.ofCatalogues before after).hasDifferences = false ↔
      ∀ name key, found? before name key = found? after name key := by
  have hnone : (Report.ofCatalogues before after).hasDifferences = false ↔
      ∀ d ∈ (Report.ofCatalogues before after).contexts,
        d.added = [] ∧ d.removed = [] ∧ d.changed = [] := by
    simp only [Report.hasDifferences, decide_eq_false_iff_not, Report.added, Report.removed,
      Report.changed, Nat.pos_iff_ne_zero, not_not, Nat.add_eq_zero_iff, Sequence.total_eq_zero_iff,
      List.length_eq_zero_iff, ← forall₂_and, and_assoc]
  rw [hnone]
  constructor
  · intro h name key
    cases hx : found? before name key with
    | none =>
      cases hy : found? after name key with
      | none => rfl
      | some y =>
        have hadded := (exists_added_iff hbefore hafter).2 ⟨hx, Option.isSome_of_eq_some hy⟩
        obtain ⟨d, hd, -, hkey⟩ := hadded
        rw [(h d hd).1] at hkey
        cases hkey
    | some x =>
      cases hy : found? after name key with
      | none =>
        have hremoved := (exists_removed_iff hbefore hafter).2 ⟨Option.isSome_of_eq_some hx, hy⟩
        obtain ⟨d, hd, -, hkey⟩ := hremoved
        rw [(h d hd).2.1] at hkey
        cases hkey
      | some y =>
        by_contra hne
        have hchanged : ∃ d ∈ (Report.ofCatalogues before after).contexts,
            d.context = name ∧ (⟨key, x, y⟩ : Change) ∈ d.changed :=
          (exists_changed_iff hbefore hafter).2 ⟨hx, hy, fun heq => hne (congrArg some heq)⟩
        obtain ⟨d, hd, -, hkey⟩ := hchanged
        rw [(h d hd).2.2] at hkey
        cases hkey
  · intro h d hd
    refine ⟨List.eq_nil_iff_forall_not_mem.2 fun key hkey => ?_,
      List.eq_nil_iff_forall_not_mem.2 fun key hkey => ?_,
      List.eq_nil_iff_forall_not_mem.2 fun change hchange => ?_⟩
    · obtain ⟨hx, hy⟩ := (exists_added_iff hbefore hafter).1 ⟨d, hd, rfl, hkey⟩
      rw [← h, hx] at hy
      cases hy
    · obtain ⟨hx, hy⟩ := (exists_removed_iff hbefore hafter).1 ⟨d, hd, rfl, hkey⟩
      rw [h, hy] at hx
      cases hx
    · obtain ⟨hx, hy, hne⟩ := (exists_changed_iff hbefore hafter).1 ⟨d, hd, rfl, hchange⟩
      exact hne (Option.some.inj (hx.symm.trans ((h _ _).trans hy)))

/-- **A comparison is exact.** -/
theorem exact_ofCatalogues : (Report.ofCatalogues before after).Exact before after := by
  refine {
    names := ?_
    added := fun name key => exists_added_iff hbefore hafter
    removed := fun name key => exists_removed_iff hbefore hafter
    changed := fun name change => exists_changed_iff hbefore hafter
    unchanged := fun d hd => ?_
    rising := fun d hd => ?_
    summary := ?_
    differences := ?_ }
  · have hnames : (Report.ofCatalogues before after).contexts.map ContextChanges.context =
        contextNames before after := by
      refine (List.map_map ..).trans (Eq.trans ?_ (List.map_id _))
      exact List.map_congr_left fun name _ => context_changesAt
    rw [hnames]
    exact Sequence.firstSeen_distinct _
  · obtain ⟨name, -, rfl⟩ := List.mem_map.1 hd
    have hcontext : (changesAt before after name).context = name := context_changesAt
    have hunchanged := exists_unchanged hbefore hafter name
    exact hcontext.symm ▸ hunchanged
  · obtain ⟨name, -, rfl⟩ := List.mem_map.1 hd
    exact rising_changesAt hbefore hafter name
  · exact ⟨Sequence.total_eq_sum _ _, Sequence.total_eq_sum _ _, Sequence.total_eq_sum _ _,
      Sequence.total_eq_sum _ _⟩
  · rw [hasDifferences_eq_false_iff hbefore hafter]
    exact ⟨fun h name source comment? => h name (.of source comment?),
      fun h name key => h name key.source (some key.comment)⟩

end

/-- A catalogue in which a name repeats, and two messages that differ in their comments. -/
def edition : Catalogue where
  contexts := [
    { name := "Q", messages := [
      { source := "b", target := ⟨.finished, .plain "x"⟩ },
      { source := "a", comment? := some "c", target := ⟨.finished, .plain "y"⟩ },
      { source := "a", target := ⟨.finished, .plain "z"⟩ }] },
    { name := "P", messages := [{ source := "p" }] },
    { name := "Q", messages := [{ source := "d" }] }]

/-- A later state of it: a context is gone and one is new, an empty comment is written out, and
a message of another comment has come. -/
def revision : Catalogue where
  contexts := [
    { name := "R", messages := [{ source := "r" }] },
    { name := "Q", messages := [
      { source := "a", comment? := some "", target := ⟨.finished, .plain "z"⟩ },
      { source := "b", target := ⟨.finished, .plain "w"⟩ },
      { source := "a", comment? := some "d" }] }]

theorem exact_revision : (∀ x ∈ edition.contexts, (x.messages.map Message.key).Nodup) ∧
    (∀ x ∈ revision.contexts, (x.messages.map Message.key).Nodup) ∧
    (Report.ofCatalogues edition revision).Exact edition revision := by
  have hbefore : ∀ x ∈ edition.contexts, (x.messages.map Message.key).Nodup := by decide
  have hafter : ∀ x ∈ revision.contexts, (x.messages.map Message.key).Nodup := by decide
  exact ⟨hbefore, hafter, exact_ofCatalogues hbefore hafter⟩

example : (Report.ofCatalogues edition revision).contexts = [
    { context := "Q", added := [⟨"a", "d"⟩], removed := [⟨"a", "c"⟩], unchanged := 1
      changed := [⟨⟨"b", ""⟩, ⟨.finished, .plain "x"⟩, ⟨.finished, .plain "w"⟩⟩] },
    { context := "P", removed := [⟨"p", ""⟩] },
    { context := "R", added := [⟨"r", ""⟩] }] := by
  cbv

end Comparison
end Linguist
