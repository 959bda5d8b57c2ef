import Linguist.Proofs.Catalogue.Address

/-!
# Looking up and replacing a target

A look-up goes to the first context of its name and in it to the first message with its
key, and a target is replaced exactly there.  So a replacement changes the answer to one
look-up (`lookup_setTarget`), and it passes over every message that no look-up can find,
because an earlier one has its key or an earlier context its name: these messages are
*hidden*, and they stay hidden and as they are (`hidden_setTarget`).  A message is hidden or
it is found at its address (`hidden_or_lookup`).

Both levels of a catalogue are lists whose first element with a key counts, and what is said
about them is said once, for any such list.
-/

namespace Linguist

/-! ## The first element with a key -/

namespace Sequence

variable {α κ : Type} [DecidableEq κ] {key : α → κ} {k : κ} {f : α → Option α} {as bs : List α}

/-- The elements whose key occurs earlier or among those seen before. -/
def repeats (key : α → κ) (seen : List κ) : List α → List α
  | [] => []
  | a :: rest =>
    if key a ∈ seen then a :: repeats key seen rest else repeats key (key a :: seen) rest

theorem mem_of_mem_repeats {seen : List κ} {a : α} (h : a ∈ repeats key seen as) : a ∈ as := by
  fun_induction repeats key seen as with
  | case1 => exact h
  | case2 seen b rest _ ih =>
    rcases List.mem_cons.1 h with rfl | h
    · exact List.mem_cons_self
    · exact List.mem_cons_of_mem b (ih h)
  | case3 seen b rest _ ih => exact List.mem_cons_of_mem b (ih h)

theorem find?_cons_ne {a : α} (h : key a ≠ k) :
    (a :: as).find? (key · == k) = as.find? (key · == k) :=
  List.find?_cons_of_neg (by simpa using h)

/-- An element repeats an earlier key or is the first one with its key. -/
theorem mem_repeats_or_find? (key : α → κ) (seen : List κ) {a : α} (ha : a ∈ as) :
    a ∈ repeats key seen as ∨ key a ∉ seen ∧ as.find? (key · == key a) = some a := by
  fun_induction repeats key seen as with
  | case1 => cases ha
  | case2 seen b rest hb ih =>
    rcases List.mem_cons.1 ha with rfl | ha
    · exact Or.inl List.mem_cons_self
    · rcases ih ha with hrepeat | ⟨hseen, hfind⟩
      · exact Or.inl (List.mem_cons_of_mem b hrepeat)
      · have hne : key b ≠ key a := fun h => hseen (h ▸ hb)
        exact Or.inr ⟨hseen, (find?_cons_ne hne).trans hfind⟩
  | case3 seen b rest hb ih =>
    rcases List.mem_cons.1 ha with rfl | ha
    · exact Or.inr ⟨hb, List.find?_cons_of_pos (by simp)⟩
    · rcases ih ha with hrepeat | ⟨hseen, hfind⟩
      · exact Or.inl hrepeat
      · rw [List.mem_cons, not_or] at hseen
        exact Or.inr ⟨hseen.2, (find?_cons_ne (Ne.symm hseen.1)).trans hfind⟩

theorem changeFirst?_cons (a : α) (as : List α) :
    changeFirst? (key · == k) f (a :: as) =
      if key a = k then (f a).map (· :: as) else (changeFirst? (key · == k) f as).map (a :: ·) := by
  rw [changeFirst?]
  simp only [beq_iff_eq]

/-- A change that succeeds has found what it changes. -/
theorem exists_of_changeFirst? (h : changeFirst? (key · == k) f as = some bs) :
    ∃ a b, as.find? (key · == k) = some a ∧ f a = some b := by
  induction as generalizing bs with
  | nil => cases h
  | cons a as ih =>
    rw [changeFirst?_cons] at h
    split at h
    · rename_i ha
      obtain ⟨b, hb, -⟩ := Option.map_eq_some_iff.1 h
      exact ⟨a, b, List.find?_cons_of_pos (by simpa using ha), hb⟩
    · rename_i ha
      obtain ⟨rest, hrest, -⟩ := Option.map_eq_some_iff.1 h
      obtain ⟨b, b', hb, hb'⟩ := ih hrest
      exact ⟨b, b', (find?_cons_ne ha).trans hb, hb'⟩

/-- A change passes over what has other keys. -/
theorem changeFirst?_split {a b : α} (h : k ∉ as.map key) (ha : key a = k) (hb : f a = some b)
    (cs : List α) : changeFirst? (key · == k) f (as ++ a :: cs) = some (as ++ b :: cs) := by
  induction as with
  | nil => rw [List.nil_append, changeFirst?_cons, if_pos ha, hb, Option.map_some, List.nil_append]
  | cons a' as ih =>
    rw [List.map_cons, List.mem_cons, not_or] at h
    rw [List.cons_append, changeFirst?_cons, if_neg (Ne.symm h.1), ih h.2, Option.map_some,
      List.cons_append]

/-- So does a search. -/
theorem find?_append_of_notMem (h : k ∉ as.map key) (bs : List α) :
    (as ++ bs).find? (key · == k) = bs.find? (key · == k) := by
  have hnone : as.find? (key · == k) = none :=
    List.find?_eq_none.2 fun a ha => by
      simpa using fun heq : key a = k => h (heq ▸ List.mem_map_of_mem ha)
  rw [List.find?_append, hnone, Option.none_or]

/-- What the change keeps of an element, it keeps of the list. -/
theorem map_of_changeFirst? {β : Type} {g : α → β} (hf : ∀ a b, f a = some b → g b = g a)
    (h : changeFirst? (key · == k) f as = some bs) : bs.map g = as.map g := by
  induction as generalizing bs with
  | nil => cases h
  | cons a as ih =>
    rw [changeFirst?_cons] at h
    split at h
    · obtain ⟨b, hb, rfl⟩ := Option.map_eq_some_iff.1 h
      rw [List.map_cons, List.map_cons, hf a b hb]
    · obtain ⟨rest, hrest, rfl⟩ := Option.map_eq_some_iff.1 h
      rw [List.map_cons, List.map_cons, ih hrest]

/-- **A change is seen under its key,** and under no other. -/
theorem find?_of_changeFirst? (hf : ∀ a b, f a = some b → key b = key a)
    (h : changeFirst? (key · == k) f as = some bs) (j : κ) :
    bs.find? (key · == j) =
      if j = k then (as.find? (key · == j)).bind f else as.find? (key · == j) := by
  induction as generalizing bs with
  | nil => cases h
  | cons a as ih =>
    rw [changeFirst?_cons] at h
    split at h
    · rename_i ha
      obtain ⟨b, hb, rfl⟩ := Option.map_eq_some_iff.1 h
      have hkey : key b = k := (hf a b hb).trans ha
      by_cases hj : j = k
      · subst hj
        rw [if_pos rfl, List.find?_cons_of_pos (by simpa using hkey),
          List.find?_cons_of_pos (by simpa using ha), Option.bind_some, hb]
      · rw [if_neg hj, find?_cons_ne (hkey ▸ Ne.symm hj), find?_cons_ne (ha ▸ Ne.symm hj)]
    · rename_i ha
      obtain ⟨rest, hrest, rfl⟩ := Option.map_eq_some_iff.1 h
      by_cases haj : key a = j
      · have hj : j ≠ k := fun hjk => ha (haj.trans hjk)
        rw [if_neg hj, List.find?_cons_of_pos (by simpa using haj),
          List.find?_cons_of_pos (by simpa using haj)]
      · rw [find?_cons_ne haj, find?_cons_ne haj, ih hrest]

/-- **A change leaves the elements alone that repeat a key.** -/
theorem repeats_of_changeFirst? (hf : ∀ a b, f a = some b → key b = key a)
    (h : changeFirst? (key · == k) f as = some bs) {seen : List κ} (hk : k ∉ seen) :
    repeats key seen bs = repeats key seen as := by
  induction as generalizing bs seen with
  | nil => cases h
  | cons a as ih =>
    rw [changeFirst?_cons] at h
    split at h
    · rename_i ha
      obtain ⟨b, hb, rfl⟩ := Option.map_eq_some_iff.1 h
      have hkey : key b = key a := hf a b hb
      have hseen : key a ∉ seen := ha ▸ hk
      rw [repeats, repeats, hkey, if_neg hseen, if_neg hseen]
    · rename_i ha
      obtain ⟨rest, hrest, rfl⟩ := Option.map_eq_some_iff.1 h
      rw [repeats, repeats]
      split
      · rw [ih hrest hk]
      · exact ih hrest (List.not_mem_cons_of_ne_of_not_mem (Ne.symm ha) hk)

end Sequence

/-! ## Catalogues -/

namespace Catalogue

variable {c c' : Catalogue} {name source : String} {comment? : Option String} {target : Target}

/-- The message that is found at an address. -/
def lookup (c : Catalogue) (a : Address) : Option Message :=
  (c.context? a.1).bind fun x => x.messages.find? (·.key == a.2)

theorem find?_eq_lookup (c : Catalogue) (name source : String) (comment? : Option String) :
    c.find? name source comment? = c.lookup (name, .of source comment?) := rfl

/-- The message is at an address, but a look-up finds another one there or none. -/
def Hidden (c : Catalogue) (p : String × Message) : Prop :=
  (∃ x ∈ Sequence.repeats Context.name [] c.contexts, p ∈ x.listing) ∨
    ∃ x, c.context? p.1 = some x ∧ p.2 ∈ Sequence.repeats Message.key [] x.messages

theorem Hidden.mem {p : String × Message} (h : c.Hidden p) : p ∈ listing c.contexts := by
  rcases h with ⟨x, hx, hp⟩ | ⟨x, hx, hp⟩
  · exact List.mem_flatMap.2 ⟨x, Sequence.mem_of_mem_repeats hx, hp⟩
  · have hname : x.name = p.1 := by simpa using List.find?_some hx
    refine List.mem_flatMap.2 ⟨x, List.mem_of_find?_eq_some hx, Context.mem_listing.2 ?_⟩
    exact ⟨hname.symm, Sequence.mem_of_mem_repeats hp⟩

theorem mem_of_lookup {a : Address} {m : Message} (h : c.lookup a = some m) :
    (a.1, m) ∈ listing c.contexts := by
  obtain ⟨x, hx, hm⟩ := Option.bind_eq_some_iff.1 h
  have hname : x.name = a.1 := by simpa using List.find?_some hx
  refine List.mem_flatMap.2 ⟨x, List.mem_of_find?_eq_some hx, Context.mem_listing.2 ?_⟩
  exact ⟨hname.symm, List.mem_of_find?_eq_some hm⟩

/-- **A message is hidden, or it is found at its address.** -/
theorem hidden_or_lookup {p : String × Message} (h : p ∈ listing c.contexts) :
    c.Hidden p ∨ c.lookup (addressOf p) = some p.2 := by
  obtain ⟨x, hx, hp⟩ := List.mem_flatMap.1 h
  obtain ⟨hname, hm⟩ := Context.mem_listing.1 hp
  rcases Sequence.mem_repeats_or_find? Context.name [] hx with hrepeat | ⟨-, hfirst⟩
  · exact Or.inl (Or.inl ⟨x, hrepeat, hp⟩)
  · have hcontext : c.context? p.1 = some x := by rw [hname]; exact hfirst
    rcases Sequence.mem_repeats_or_find? Message.key [] hm with hrepeat | ⟨-, hfirst⟩
    · exact Or.inl (Or.inr ⟨x, hcontext, hrepeat⟩)
    · refine Or.inr ?_
      rw [lookup, addressOf, hcontext, Option.bind_some]
      exact hfirst

/-! ## Replacing a target -/

/-- A target is replaced in the first context of the name, and there in the first message
with the key. -/
theorem exists_of_setTarget (h : c.setTarget name source comment? target = .ok c') :
    ∃ xs, Sequence.changeFirst? (·.name == name)
      (·.changeMessage? source comment? fun m => { m with target }) c.contexts = some xs ∧
      c' = { c with contexts := xs } := by
  rw [setTarget] at h
  split at h
  · rename_i hchange
    obtain ⟨xs, hxs, rfl⟩ := Option.map_eq_some_iff.1 hchange
    exact ⟨xs, hxs, (Except.ok.inj h).symm⟩
  · cases h

theorem exists_of_changeMessage? {x y : Context}
    (h : x.changeMessage? source comment? (fun m => { m with target }) = some y) :
    ∃ ms, Sequence.changeFirst? (·.key == Message.Key.of source comment?)
      (some ∘ fun m => { m with target }) x.messages = some ms ∧ y = x.withMessages ms := by
  obtain ⟨ms, hms, rfl⟩ := Option.map_eq_some_iff.1 h
  exact ⟨ms, hms, rfl⟩

theorem name_of_changeMessage? {x y : Context}
    (h : x.changeMessage? source comment? (fun m => { m with target }) = some y) :
    y.name = x.name := by
  obtain ⟨ms, -, rfl⟩ := exists_of_changeMessage? h
  rfl

theorem key_of_retarget {m m' : Message}
    (h : (some ∘ fun m : Message => { m with target }) m = some m') : m'.key = m.key := by
  rw [← Option.some.inj h]
  rfl

/-- A replacement changes neither names nor comments of contexts. -/
theorem heads_of_setTarget (h : c.setTarget name source comment? target = .ok c') :
    c'.contexts.map (fun x => (x.name, x.comment?)) =
      c.contexts.map fun x => (x.name, x.comment?) := by
  obtain ⟨xs, hxs, rfl⟩ := exists_of_setTarget h
  refine Sequence.map_of_changeFirst? (fun x y hy => ?_) hxs
  obtain ⟨ms, -, rfl⟩ := exists_of_changeMessage? hy
  rfl

/-- Contexts of other names stay as they are, and the one of this name has its first message
with the key replaced. -/
theorem context?_of_setTarget (h : c.setTarget name source comment? target = .ok c') :
    (∀ other ≠ name, c'.context? other = c.context? other) ∧
      ∃ x ms, c.context? name = some x ∧ c'.context? name = some (x.withMessages ms) ∧
        Sequence.changeFirst? (·.key == Message.Key.of source comment?)
          (some ∘ fun m => { m with target }) x.messages = some ms := by
  obtain ⟨xs, hxs, rfl⟩ := exists_of_setTarget h
  have hfind := Sequence.find?_of_changeFirst? (fun _ _ => name_of_changeMessage?) hxs
  refine ⟨fun other hother => (hfind other).trans (if_neg hother), ?_⟩
  obtain ⟨x, y, hx, hy⟩ := Sequence.exists_of_changeFirst? hxs
  obtain ⟨ms, hms, rfl⟩ := exists_of_changeMessage? hy
  refine ⟨x, ms, hx, ?_, hms⟩
  exact (hfind name).trans ((if_pos rfl).trans (by rw [hx, Option.bind_some, hy]))

/-- **A replacement is seen at its address,** and at no other. -/
theorem lookup_setTarget (h : c.setTarget name source comment? target = .ok c') (a : Address) :
    c'.lookup a = if a = (name, .of source comment?) then
      (c.lookup a).map fun m => { m with target } else c.lookup a := by
  obtain ⟨hother, x, ms, hx, hx', hms⟩ := context?_of_setTarget h
  obtain ⟨other, key⟩ := a
  simp only [lookup, Prod.mk.injEq]
  by_cases hname : other = name
  · subst hname
    have hfind := Sequence.find?_of_changeFirst? (fun _ _ => key_of_retarget) hms key
    rw [hx, hx', Option.bind_some, Option.bind_some]
    refine hfind.trans ?_
    simp only [true_and]
    rw [Option.map_eq_bind]
  · rw [hother other hname, if_neg fun h => hname h.1]

/-- **A replacement leaves hidden messages as they are.** -/
theorem hidden_setTarget (h : c.setTarget name source comment? target = .ok c')
    (p : String × Message) : c'.Hidden p ↔ c.Hidden p := by
  obtain ⟨hother, x, ms, hx, hx', hms⟩ := context?_of_setTarget h
  have hcontexts : Sequence.repeats Context.name [] c'.contexts =
      Sequence.repeats Context.name [] c.contexts := by
    obtain ⟨xs, hxs, rfl⟩ := exists_of_setTarget h
    exact Sequence.repeats_of_changeFirst? (fun _ _ => name_of_changeMessage?) hxs List.not_mem_nil
  have hmessages : Sequence.repeats Message.key [] ms =
      Sequence.repeats Message.key [] x.messages :=
    Sequence.repeats_of_changeFirst? (fun _ _ => key_of_retarget) hms List.not_mem_nil
  rw [Hidden, Hidden, hcontexts]
  by_cases hname : p.1 = name
  · rw [hname, hx, hx']
    simp only [Option.some.injEq, exists_eq_left', Context.withMessages, hmessages]
  · rw [hother p.1 hname]

/-! ## The first message of its address

A message before which no other has its key, in a context before which no other has its
name, is found and replaced where it stands. -/

section Split

variable {xs : List Context} {x : Context} {ms : List Message} {m : Message}

theorem lookup_split (hname : x.name ∉ xs.map Context.name) (hkey : m.key ∉ ms.map Message.key)
    (ns : List Message) (ys : List Context) :
    ({ c with contexts := xs ++ x.withMessages (ms ++ m :: ns) :: ys } : Catalogue).lookup
      (x.name, m.key) = some m := by
  have hcontext : ({ c with contexts := xs ++ x.withMessages (ms ++ m :: ns) :: ys } :
      Catalogue).context? x.name = some (x.withMessages (ms ++ m :: ns)) :=
    (Sequence.find?_append_of_notMem hname _).trans
      (List.find?_cons_of_pos (by simp [Context.withMessages]))
  rw [lookup, hcontext, Option.bind_some]
  exact (Sequence.find?_append_of_notMem hkey _).trans (List.find?_cons_of_pos (by simp))

theorem setTarget_split (hname : x.name ∉ xs.map Context.name)
    (hkey : Message.Key.of source comment? ∉ ms.map Message.key)
    (hm : m.key = .of source comment?) (t : Target) (ns : List Message) (ys : List Context) :
    ({ c with contexts := xs ++ x.withMessages (ms ++ m :: ns) :: ys } : Catalogue).setTarget
      x.name source comment? t =
      .ok { c with contexts := xs ++ x.withMessages (ms ++ { m with target := t } :: ns) :: ys } := by
  have htarget : (some ∘ fun m : Message => { m with target := t }) m = some { m with target := t } := rfl
  have hms : Sequence.changeFirst? (·.key == Message.Key.of source comment?)
      (some ∘ fun m => { m with target := t }) (ms ++ m :: ns) =
      some (ms ++ { m with target := t } :: ns) := Sequence.changeFirst?_split hkey hm htarget ns
  have hx : (x.withMessages (ms ++ m :: ns)).changeMessage? source comment?
      (fun m => { m with target := t }) = some (x.withMessages (ms ++ { m with target := t } :: ns)) :=
    congrArg (Option.map x.withMessages) hms
  have hx' : (x.withMessages (ms ++ m :: ns)).name = x.name := rfl
  have hxs : Sequence.changeFirst? (·.name == x.name)
      (·.changeMessage? source comment? fun m => { m with target := t })
      (xs ++ x.withMessages (ms ++ m :: ns) :: ys) =
      some (xs ++ x.withMessages (ms ++ { m with target := t } :: ns) :: ys) :=
    Sequence.changeFirst?_split hname hx' hx ys
  rw [setTarget, changeMessage?, hxs]
  rfl

end Split

end Catalogue
end Linguist
