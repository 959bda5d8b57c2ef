import Linguist.Catalogue.Rows
import Linguist.Proofs.Catalogue.Lookup
import Linguist.Proofs.Catalogue.Survival

/-!
# When a catalogue survives the import of a table

A row with a wording answers the message at its address, and of several answers to one
address the last counts (`Csv.answer?`).  Nothing else is changed by an import: names and
comments of contexts, hidden messages and messages without an answer stay as they are, and
an answered message has another target and is else the same (`Catalogue.Answered`).

An import replaces wordings and leaves plural marks, so that a catalogue that survives its
file may not survive any more: an answer may not fit the plural mark of its message, and an
answer of several texts may contain U+0000 even if the table does not, because its JSON can
write the character by its number.  These are the only obstacles
(`Catalogue.survives_importRows_iff`).
-/

namespace Linguist

open Markup (IsContent exists_of_bind)

/-! ## The answers of a table -/

namespace Csv

/-- The address that a row names. -/
def Row.address (r : Row) : Catalogue.Address :=
  (r.context, .of r.source r.comment?)

/-- The wording that a row gives to an address. -/
def Row.answer? (r : Row) (a : Catalogue.Address) : Option Wording :=
  match r.readWording with
  | .ok w => if r.address = a ∧ w.isEmpty = false then some w else none
  | .error _ => none

/-- The wording that rows give to an address, the last one of all. -/
def answer? (a : Catalogue.Address) : List Row → Option Wording
  | [] => none
  | r :: rest => (answer? a rest).or (r.answer? a)

theorem Row.answer?_of_isEmpty {r : Row} {w : Wording} (hr : r.readWording = .ok w)
    (hw : w.isEmpty = true) : r.answer? = fun _ => none := by
  funext a
  rw [answer?, hr]
  simp [hw]

theorem Row.answer?_of_readWording {r : Row} {w : Wording} (hr : r.readWording = .ok w)
    (hw : w.isEmpty = false) :
    r.answer? = fun a => if r.address = a then some w else none := by
  funext a
  rw [answer?, hr]
  simp [hw]

end Csv

/-- A message with another target is written if its wording is. -/
theorem Message.Writable.retarget_iff {m : Message} (hm : m.Writable) (target : Target) :
    ({ m with target } : Message).Writable ↔
      target.wording.Fits m.isPlural ∧ ∀ s ∈ target.wording.all, IsContent s := by
  obtain ⟨hsource, holdSource, hcomment, holdComment, hextra, htranslator, -⟩ :=
    (Message.forall_contents_iff IsContent m).1 hm.texts
  rw [Message.writable_iff, Message.forall_contents_iff]
  constructor
  · rintro ⟨⟨_, _, _, _, _, _, hwording⟩, hfits⟩
    exact ⟨hfits, hwording⟩
  · rintro ⟨hfits, hwording⟩
    exact ⟨⟨hsource, holdSource, hcomment, holdComment, hextra, htranslator, hwording⟩, hfits⟩

open Csv (Row answer?)

namespace Catalogue

variable {c c' d : Catalogue} {rows : List Row} {r : Row} {markFinished : Bool}

/-- The second catalogue is the first with answers in it. -/
structure Answered (answer : Address → Option Wording) (c c' : Catalogue) : Prop where
  heads : c'.contexts.map (fun x => (x.name, x.comment?)) =
    c.contexts.map fun x => (x.name, x.comment?)
  hidden : ∀ p, c'.Hidden p ↔ c.Hidden p
  missing : ∀ a, c.lookup a = none → c'.lookup a = none
  found : ∀ a m, c.lookup a = some m → ∃ target : Target,
    c'.lookup a = some { m with target } ∧ target.wording = (answer a).getD m.target.wording

namespace Answered

/-- Nothing is changed by answers that say what is there already. -/
protected theorem refl {answer : Address → Option Wording}
    (h : ∀ a m, c.lookup a = some m → (answer a).getD m.target.wording = m.target.wording) :
    Answered answer c c :=
  ⟨rfl, fun _ => Iff.rfl, fun _ => id, fun a m hm => ⟨m.target, hm, (h a m hm).symm⟩⟩

/-- Later answers count. -/
protected theorem trans {answer later : Address → Option Wording} (h : Answered answer c c')
    (h' : Answered later c' d) : Answered (fun a => (later a).or (answer a)) c d := by
  refine ⟨h'.heads.trans h.heads, fun p => (h'.hidden p).trans (h.hidden p),
    fun a ha => h'.missing a (h.missing a ha), fun a m hm => ?_⟩
  obtain ⟨target, hlookup, hwording⟩ := h.found a m hm
  obtain ⟨target', hlookup', hwording'⟩ := h'.found a _ hlookup
  refine ⟨target', hlookup', hwording'.trans ?_⟩
  cases hlater : later a with
  | none => exact hwording
  | some w => rfl

end Answered

/-! ## Applying rows -/

/-- A replaced target is the answer to one address. -/
theorem answered_setTarget {name source : String} {comment? : Option String} {target : Target}
    (h : c.setTarget name source comment? target = .ok c') :
    Answered (fun a => if (name, .of source comment?) = a then some target.wording else none)
      c c' := by
  have hafter := lookup_setTarget h
  refine ⟨heads_of_setTarget h, hidden_setTarget h, fun a ha => ?_, fun a m ha => ?_⟩
  · rw [hafter, ha, Option.map_none, ite_self]
  · rw [hafter, ha]
    by_cases heq : a = (name, .of source comment?)
    · exact ⟨target, if_pos heq, by rw [if_pos heq.symm, Option.getD_some]⟩
    · exact ⟨m.target, if_neg heq, by rw [if_neg (Ne.symm heq), Option.getD_none]⟩

/-- **A row is an answer or changes nothing.** -/
theorem answered_applyRow {report report' : ImportReport}
    (h : applyRow markFinished r c report = .ok (c', report')) : Answered r.answer? c c' := by
  obtain ⟨w, hw, h⟩ := exists_of_bind h
  cases hempty : w.isEmpty with
  | true =>
    rw [hempty, if_pos rfl] at h
    obtain ⟨rfl, -⟩ := Prod.mk.inj (Except.ok.inj h)
    rw [Row.answer?_of_isEmpty hw hempty]
    exact .refl fun _ _ _ => rfl
  | false =>
    rw [hempty, if_neg Bool.false_ne_true] at h
    obtain ⟨status, -, h⟩ := exists_of_bind h
    have hlookup : c.find? r.context r.source r.comment? = c.lookup r.address := rfl
    rw [hlookup] at h
    rw [Row.answer?_of_readWording hw hempty]
    cases hm : c.lookup r.address with
    | none =>
      -- Nothing is found at the address of the row, so the answer is to no message.
      rw [hm] at h
      obtain ⟨rfl, -⟩ := Prod.mk.inj (Except.ok.inj h)
      refine .refl fun a m ha => ?_
      have hne : r.address ≠ a := fun heq => Option.some_ne_none m (ha.symm.trans (heq ▸ hm))
      rw [if_neg hne, Option.getD_none]
    | some m =>
      rw [hm] at h
      dsimp only at h
      split at h
      · -- The answer is what the message says already.
        rename_i hsame
        obtain ⟨rfl, -⟩ := Prod.mk.inj (Except.ok.inj h)
        refine .refl fun a m' ha => ?_
        split
        · rename_i heq
          obtain rfl := Option.some.inj (hm.symm.trans (heq ▸ ha))
          rw [hsame, Option.getD_some]
        · rfl
      · obtain ⟨c₁, hset, h⟩ := exists_of_bind h
        obtain ⟨rfl, -⟩ := Prod.mk.inj (Except.ok.inj h)
        exact answered_setTarget hset

/-- **An import changes what the table answers.** -/
theorem answered_applyRows {report report' : ImportReport}
    (h : applyRows markFinished rows c report = (c', .ok report')) :
    Answered (fun a => answer? a rows) c c' := by
  induction rows generalizing c report with
  | nil =>
    obtain ⟨rfl, -⟩ := Prod.mk.inj h
    exact .refl fun _ _ _ => rfl
  | cons r rest ih =>
    rw [applyRows] at h
    split at h
    · rename_i c₁ report₁ hrow
      exact (answered_applyRow hrow).trans (ih h)
    · cases (Prod.mk.inj h).2

/-! ## Survival -/

/-- What the rows answer can be written as the wording of its message. -/
def Suits (c : Catalogue) (rows : List Row) : Prop :=
  ∀ context source comment? m w, c.find? context source comment? = some m →
    answer? (context, .of source comment?) rows = some w →
      w.Fits m.isPlural ∧ ∀ s ∈ w.all, IsContent s

/-- **A catalogue survives an import if and only if** every answer suits its message. -/
theorem survives_importRows_iff [Bytes.Registry] {report : ImportReport} (hc : c.Survives)
    (h : c.importRows markFinished rows = (c', .ok report)) : c'.Survives ↔ c.Suits rows := by
  have hanswered := answered_applyRows h
  obtain ⟨hheads, hmessages⟩ := c.survives_iff_messages.1 hc
  have hheads' : ∀ x ∈ c'.contexts, x.Headed := by
    intro x hx
    have hhead : (x.name, x.comment?) ∈ c.contexts.map fun x => (x.name, x.comment?) :=
      hanswered.heads ▸ List.mem_map_of_mem hx
    obtain ⟨y, hy, heq⟩ := List.mem_map.1 hhead
    obtain ⟨hname, hcomment⟩ := Prod.mk.inj heq
    have hyheaded := y.headed_iff.1 (hheads y hy)
    rw [hname, hcomment] at hyheaded
    exact x.headed_iff.2 hyheaded
  rw [survives_iff_messages, and_iff_right hheads']
  constructor
  · intro hwritable context source comment? m w hm hw
    rw [find?_eq_lookup] at hm
    obtain ⟨target, hlookup, hwording⟩ := hanswered.found _ m hm
    have hmessage : m.Writable := hmessages _ (mem_of_lookup hm)
    rw [hw, Option.getD_some] at hwording
    rw [← hwording]
    exact (hmessage.retarget_iff target).1 (hwritable _ (mem_of_lookup hlookup))
  · -- A hidden message is as it was; one that is found has its own wording or an answer.
    intro hsuits p hp
    rcases hidden_or_lookup hp with hhidden | hlookup
    · exact hmessages p ((hanswered.hidden p).1 hhidden).mem
    · cases hm : c.lookup (addressOf p) with
      | none => exact absurd (hanswered.missing _ hm ▸ hlookup).symm (Option.some_ne_none _)
      | some m =>
        have hmessage : m.Writable := hmessages _ (mem_of_lookup hm)
        obtain ⟨target, htarget, hwording⟩ := hanswered.found _ m hm
        have hp2 : { m with target } = p.2 := Option.some.inj (htarget.symm.trans hlookup)
        have haddress : c.find? p.1 p.2.source p.2.comment? = some m := hm
        rw [← hp2]
        refine (hmessage.retarget_iff target).2 ?_
        cases hw : answer? (addressOf p) rows with
        | none =>
          rw [hw, Option.getD_none] at hwording
          rw [hwording]
          exact (hmessage.retarget_iff m.target).1 hmessage
        | some w =>
          rw [hw, Option.getD_some] at hwording
          rw [hwording]
          exact hsuits p.1 p.2.source p.2.comment? m w haddress hw

end Catalogue
end Linguist
