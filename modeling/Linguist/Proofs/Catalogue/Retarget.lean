import Linguist.Proofs.Catalogue.Lookup

/-!
# Targets for addresses

Targets are given for some addresses, and each goes to the one message that a look-up finds
there: the first message with its key in the first context of its name.  All other messages
stay as they are, and so does everything else about the catalogue (`Catalogue.retarget`).

This is what replacing a single target comes to (`setTarget_of_lookup`), and giving targets
twice is giving them once, where the later ones count (`retarget_retarget`).  So any number of
replacements in any order is described by the last target for each address.

As with look-ups, both levels of a catalogue are lists in which the first element with a key
counts, and a change of the first elements is described once, for any such list.
-/

namespace Linguist

/-! ## The first elements of their keys -/

namespace Sequence

variable {α κ : Type} [DecidableEq κ] {key : α → κ} {f g : α → α} {seen : List κ} {as : List α}

/-- Changes the elements whose key occurs neither earlier nor among those seen before. -/
def mapFirsts (key : α → κ) (f : α → α) (seen : List κ) : List α → List α
  | [] => []
  | a :: rest =>
    if key a ∈ seen then a :: mapFirsts key f seen rest
    else f a :: mapFirsts key f (key a :: seen) rest

/-- Nothing is changed if nothing is that a search can find. -/
theorem mapFirsts_eq_self
    (h : ∀ a, key a ∉ seen → as.find? (key · == key a) = some a → f a = a) :
    mapFirsts key f seen as = as := by
  induction as generalizing seen with
  | nil => rfl
  | cons a as ih =>
    rw [mapFirsts]
    split
    · rename_i ha
      rw [ih fun b hb hfind => ?_]
      have hne : key a ≠ key b := fun heq => hb (heq ▸ ha)
      exact h b hb ((find?_cons_ne hne).trans hfind)
    · rename_i ha
      rw [h a ha (List.find?_cons_of_pos (by simp)), ih fun b hb hfind => ?_]
      rw [List.mem_cons, not_or] at hb
      exact h b hb.2 ((find?_cons_ne (Ne.symm hb.1)).trans hfind)

/-- Two changes that keep the key are one. -/
theorem mapFirsts_mapFirsts (hf : ∀ a, key (f a) = key a) :
    mapFirsts key g seen (mapFirsts key f seen as) = mapFirsts key (g ∘ f) seen as := by
  induction as generalizing seen with
  | nil => rfl
  | cons a as ih =>
    rw [mapFirsts, mapFirsts]
    split
    · rename_i ha
      rw [mapFirsts, if_pos ha, ih]
    · rename_i ha
      rw [mapFirsts, hf, if_neg ha, ih]
      rfl

/-- What a change keeps of an element, it keeps of the list. -/
theorem map_mapFirsts {β : Type} {h : α → β} (hf : ∀ a, h (f a) = h a) :
    (mapFirsts key f seen as).map h = as.map h := by
  induction as generalizing seen with
  | nil => rfl
  | cons a as ih =>
    rw [mapFirsts]
    split
    · rw [List.map_cons, List.map_cons, ih]
    · rw [List.map_cons, List.map_cons, ih, hf]

/-- What holds of all elements, and is kept by the change, holds of all elements after it. -/
theorem forall_mapFirsts {P : α → Prop} (hf : ∀ a, P a → P (f a)) (h : ∀ a ∈ as, P a) :
    ∀ b ∈ mapFirsts key f seen as, P b := by
  induction as generalizing seen with
  | nil => exact h
  | cons a as ih =>
    obtain ⟨ha, has⟩ := List.forall_mem_cons.1 h
    rw [mapFirsts]
    split
    · exact List.forall_mem_cons.2 ⟨ha, ih has⟩
    · exact List.forall_mem_cons.2 ⟨hf a ha, ih has⟩

/-- **A change of the element that a search finds** is one of the first elements of their
keys, if it leaves all other keys alone. -/
theorem changeFirst?_of_find? (change : α → Option α) {k : κ} {a : α}
    (hfind : as.find? (key · == k) = some a) (ha : change a = some (g a))
    (hg : ∀ b, key b ≠ k → g b = b) (hk : k ∉ seen) :
    changeFirst? (key · == k) change as = some (mapFirsts key g seen as) := by
  induction as generalizing seen with
  | nil => cases hfind
  | cons b as ih =>
    rw [changeFirst?_cons, mapFirsts]
    by_cases hb : key b = k
    · rw [List.find?_cons_of_pos (by simpa using hb)] at hfind
      obtain rfl := Option.some.inj hfind
      have hrest : mapFirsts key g (key b :: seen) as = as :=
        mapFirsts_eq_self fun c hc _ => hg c fun hck =>
          hc (List.mem_cons.2 (Or.inl (hck.trans hb.symm)))
      rw [if_pos hb, if_neg (hb ▸ hk), ha, hrest, Option.map_some]
    · have hrest : as.find? (key · == k) = some a := (find?_cons_ne hb).symm.trans hfind
      rw [if_neg hb, hg b hb]
      split
      · rw [ih hrest hk, Option.map_some]
      · rw [ih hrest (List.not_mem_cons_of_ne_of_not_mem (Ne.symm hb) hk), Option.map_some]

end Sequence

/-! ## Targets for keys -/

namespace Message

variable {target? : Key → Option Target}

/-- The message with the target that is given for its key, if one is. -/
def retarget (target? : Key → Option Target) (m : Message) : Message :=
  { m with target := (target? m.key).getD m.target }

@[simp] theorem key_retarget (m : Message) : (m.retarget target?).key = m.key := rfl

theorem retarget_eq_self {m : Message} (h : (target? m.key).getD m.target = m.target) :
    m.retarget target? = m := by
  rw [retarget, h]

theorem retarget_retarget (later? : Key → Option Target) (m : Message) :
    (m.retarget target?).retarget later? = m.retarget fun key => (later? key).or (target? key) := by
  have htarget : (later? m.key).getD ((target? m.key).getD m.target) =
      ((later? m.key).or (target? m.key)).getD m.target := Option.getD_or.symm
  exact congrArg (fun target => { m with target }) htarget

end Message

namespace Context

variable {target? : Message.Key → Option Target} {x : Context}

/-- The context with targets for the first messages of their keys. -/
def retarget (target? : Message.Key → Option Target) (x : Context) : Context :=
  x.withMessages (Sequence.mapFirsts Message.key (Message.retarget target?) [] x.messages)

@[simp] theorem name_retarget (x : Context) : (x.retarget target?).name = x.name := rfl

theorem retarget_eq_self (h : ∀ key m, x.messages.find? (·.key == key) = some m →
    (target? key).getD m.target = m.target) : x.retarget target? = x := by
  have hmessages : Sequence.mapFirsts Message.key (Message.retarget target?) [] x.messages =
      x.messages :=
    Sequence.mapFirsts_eq_self fun m _ hm => Message.retarget_eq_self (h m.key m hm)
  rw [retarget, hmessages]
  rfl

theorem retarget_retarget (later? : Message.Key → Option Target) (x : Context) :
    (x.retarget target?).retarget later? = x.retarget fun key => (later? key).or (target? key) := by
  have hmessages : Sequence.mapFirsts Message.key (Message.retarget later?) []
      (Sequence.mapFirsts Message.key (Message.retarget target?) [] x.messages) =
        Sequence.mapFirsts Message.key (Message.retarget later? ∘ Message.retarget target?) []
          x.messages :=
    Sequence.mapFirsts_mapFirsts fun m => m.key_retarget
  have hcomp : Message.retarget later? ∘ Message.retarget target? =
      Message.retarget fun key => (later? key).or (target? key) :=
    funext fun m => m.retarget_retarget later?
  rw [hcomp] at hmessages
  exact congrArg x.withMessages hmessages

end Context

/-! ## Targets for addresses -/

namespace Catalogue

variable {c : Catalogue} {target? : Address → Option Target}

/-- The catalogue with targets for the first messages of their addresses. -/
def retarget (target? : Address → Option Target) (c : Catalogue) : Catalogue :=
  { c with
    contexts := Sequence.mapFirsts Context.name
      (fun x => x.retarget fun key => target? (x.name, key)) [] c.contexts }

/-- **Nothing is changed by targets that are there already.** -/
theorem retarget_eq_self
    (h : ∀ a m, c.lookup a = some m → (target? a).getD m.target = m.target) :
    c.retarget target? = c := by
  have hcontexts : Sequence.mapFirsts Context.name
      (fun x => x.retarget fun key => target? (x.name, key)) [] c.contexts = c.contexts := by
    refine Sequence.mapFirsts_eq_self fun x _ hx => Context.retarget_eq_self fun key m hm => ?_
    have hlookup : c.lookup (x.name, key) = some m :=
      Option.bind_eq_some_iff.2 ⟨x, hx, hm⟩
    exact h (x.name, key) m hlookup
  rw [retarget, hcontexts]

/-- **Of the targets for one address the last counts.** -/
theorem retarget_retarget (later? : Address → Option Target) (c : Catalogue) :
    (c.retarget target?).retarget later? = c.retarget fun a => (later? a).or (target? a) := by
  have hcomp : ((fun x => x.retarget fun key => later? (x.name, key)) ∘
      fun x : Context => x.retarget fun key => target? (x.name, key)) =
      fun x => x.retarget fun key => (later? (x.name, key)).or (target? (x.name, key)) :=
    funext fun x => x.retarget_retarget fun key => later? (x.name, key)
  have hcontexts : Sequence.mapFirsts Context.name
      (fun x => x.retarget fun key => later? (x.name, key)) [] (c.retarget target?).contexts =
        Sequence.mapFirsts Context.name (fun x => x.retarget fun key =>
          (later? (x.name, key)).or (target? (x.name, key))) [] c.contexts :=
    hcomp ▸ Sequence.mapFirsts_mapFirsts fun x : Context => x.name_retarget
  exact congrArg (fun contexts => { c with contexts }) hcontexts

variable {name source : String} {comment? : Option String} {m : Message}

/-- The target for one address. -/
def targetOnlyAt (a : Address) (t : Target) (a' : Address) : Option Target :=
  if a' = a then some t else none

/-- **A target is replaced if a look-up finds its message,** and then it is a target for one
address. -/
theorem setTarget_of_lookup (h : c.lookup (name, .of source comment?) = some m) (t : Target) :
    c.setTarget name source comment? t =
      .ok (c.retarget (targetOnlyAt (name, .of source comment?) t)) := by
  obtain ⟨x, hx, hm⟩ := Option.bind_eq_some_iff.1 h
  have hname : x.name = name := eq_of_beq (List.find?_some hx :)
  have hkey : m.key = .of source comment? := eq_of_beq (List.find?_some hm :)
  -- in the context, the message is the only one that gets another target
  have hmessage : some { m with target := t } = some (m.retarget fun key =>
      targetOnlyAt (name, .of source comment?) t (x.name, key)) := by
    rw [Message.retarget, hkey, hname, targetOnlyAt, if_pos rfl, Option.getD_some]
  have hothers : ∀ m' : Message, m'.key ≠ .of source comment? → (m'.retarget fun key =>
      targetOnlyAt (name, .of source comment?) t (x.name, key)) = m' := by
    intro m' hm'
    refine Message.retarget_eq_self ?_
    rw [targetOnlyAt, if_neg fun heq => hm' (congrArg Prod.snd heq), Option.getD_none]
  have hmessages := Sequence.changeFirst?_of_find?
    (some ∘ fun m : Message => { m with target := t }) hm hmessage hothers List.not_mem_nil
  have hcontext : (x.changeMessage? source comment? fun m => { m with target := t }) =
      some (x.retarget fun key => targetOnlyAt (name, .of source comment?) t (x.name, key)) :=
    congrArg (Option.map x.withMessages) hmessages
  -- and the context is the only one with a change in it
  have helsewhere : ∀ y : Context, y.name ≠ name → (y.retarget fun key =>
      targetOnlyAt (name, .of source comment?) t (y.name, key)) = y := by
    intro y hy
    refine Context.retarget_eq_self fun key m' _ => ?_
    rw [targetOnlyAt, if_neg fun heq => hy (congrArg Prod.fst heq), Option.getD_none]
  have hcontexts := Sequence.changeFirst?_of_find?
    (fun x => x.changeMessage? source comment? fun m => { m with target := t })
    (g := fun x => x.retarget fun key => targetOnlyAt (name, .of source comment?) t (x.name, key))
    hx hcontext helsewhere List.not_mem_nil
  rw [setTarget, changeMessage?, hcontexts]
  rfl

end Catalogue
end Linguist
