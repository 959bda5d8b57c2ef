import Linguist.Proofs.Audit
import Linguist.Proofs.Catalogue.Import
import Linguist.Proofs.Command.Edit

/-!
# Translating keeps a catalogue clean

Translators bring their work in by tables, or they edit one message after the other.  An audit
that found no error in a catalogue before finds none afterwards (`count_error_translated`).

Neither way touches source texts, places or keys.  What is left is that the status of a target
fits its wording, and the two ways see to it by different rules.  A row without wording is
passed over, and the status that a row names is never left at unfinished if finished wordings
are asked for (`settled_target?`); an edit may clear a message, and takes the status from the
wording (`settled_targetFor`).  That a table cannot be read to its end does no harm, since the
rows that have been applied are settled each for itself.

An edited catalogue is written to a file, and read from a file of markup it may have other
wordings than it was written with.  But these are empty where those were, which is all that
counts here (`clean_reread`).
-/

namespace Linguist

/-! ## Clean catalogues with other targets -/

/-- A message stays clean with a target that is settled. -/
theorem Message.Clean.retarget {m : Message} (h : m.Clean) {target? : Message.Key → Option Target}
    (htarget : ∀ key t, target? key = some t → t.Settled) : (m.retarget target?).Clean := by
  refine ⟨h.source, h.line, ?_⟩
  show ((target? m.key).getD m.target).Settled
  cases ht : target? m.key with
  | none => exact h.target
  | some t => exact htarget m.key t ht

/-- So does a context. -/
theorem Context.Clean.retarget {x : Context} (h : x.Clean) {target? : Message.Key → Option Target}
    (htarget : ∀ key t, target? key = some t → t.Settled) : (x.retarget target?).Clean := by
  constructor
  · have hkeys : (x.retarget target?).messages.map Message.key = x.messages.map Message.key :=
      Sequence.map_mapFirsts fun m => m.key_retarget
    rw [hkeys]
    exact h.keys
  · exact Sequence.forall_mapFirsts (fun m hm => hm.retarget htarget) h.messages

namespace Catalogue

variable {c c' : Catalogue}

/-- **A catalogue stays clean with targets that are settled.** -/
theorem clean_retarget (h : ∀ x ∈ c.contexts, x.Clean) {target? : Address → Option Target}
    (htarget : ∀ a t, target? a = some t → t.Settled) :
    ∀ x ∈ (c.retarget target?).contexts, x.Clean :=
  Sequence.forall_mapFirsts (fun x hx => hx.retarget fun key t => htarget (x.name, key) t) h

/-- **Replacing a target by one that is settled keeps a catalogue clean.** -/
theorem clean_setTarget {name source : String} {comment? : Option String} {m : Message}
    {t : Target} (h : ∀ x ∈ c.contexts, x.Clean) (hm : c.find? name source comment? = some m)
    (ht : t.Settled) (hset : c.setTarget name source comment? t = .ok c') :
    ∀ x ∈ c'.contexts, x.Clean := by
  obtain rfl := Except.ok.inj ((setTarget_of_lookup hm t).symm.trans hset)
  refine clean_retarget h fun a t' ht' => ?_
  rw [targetOnlyAt] at ht'
  split at ht'
  · rwa [← Option.some.inj ht']
  · cases ht'

end Catalogue

/-! ## Tables -/

namespace Csv

variable {r : Row} {t : Target}

/-- **What a row asks for is settled,** if unfinished wordings count as finished. -/
theorem Row.settled_target? (h : r.target? true = some t) : t.Settled := by
  rw [target?] at h
  split at h
  · rename_i w status _ _
    split at h
    · cases h
    · rename_i hempty
      rw [← Option.some.inj h]
      refine ⟨fun hstatus => ?_, fun _ => Bool.eq_false_iff.2 hempty⟩
      cases status <;> cases hstatus
  · cases h

theorem settled_lastTarget? {rows : List Row} {a : Catalogue.Address}
    (h : lastTarget? true rows a = some t) : t.Settled := by
  obtain ⟨r, -, hr⟩ := List.mem_filterMap.1 (List.mem_of_getLast? h)
  exact r.settled_target? hr

end Csv

/-- **An import keeps a catalogue clean,** whether it comes to its end or not. -/
theorem Catalogue.clean_importRows {c : Catalogue} (h : ∀ x ∈ c.contexts, x.Clean)
    (rows : List Csv.Row) : ∀ x ∈ (c.importRows true rows).1.contexts, x.Clean := by
  rw [importRows, retarget_applyRows]
  exact clean_retarget h fun _ _ => Csv.settled_lastTarget?

/-! ## Edits -/

namespace Command
namespace Action

/-- **What an edit sets is settled,** unless it is to be left unfinished. -/
theorem settled_targetFor (w : Wording) : (targetFor false w).Settled := by
  rw [targetFor, Bool.false_or]
  cases hempty : w.isEmpty with
  | true =>
    refine ⟨fun _ => hempty, fun hstatus => ?_⟩
    cases hstatus
  | false =>
    refine ⟨fun hstatus => ?_, fun _ => hempty⟩
    cases hstatus

end Action
end Command

/-! ## Written and read again -/

theorem Wording.isEmpty_reread (isPlural : Bool) (w : Wording) :
    (w.reread isPlural).isEmpty = w.isEmpty := by
  cases w with
  | plain text =>
    cases isPlural with
    | false => rfl
    | true =>
      by_cases hempty : text.isEmpty = true
      · simp [reread, isEmpty, all, hempty]
      · simp [reread, isEmpty, all, hempty]
  | plural forms => cases isPlural <;> cases forms <;> simp [reread, isEmpty, all]
  | lengths variants => rfl

/-- Whether a message is clean does not depend on what its wording is taken for. -/
theorem Message.Clean.reread {m : Message} (h : m.Clean) : m.reread.Clean := by
  have hempty : m.reread.target.isEmpty = m.target.isEmpty :=
    m.target.wording.isEmpty_reread m.isPlural
  refine ⟨h.source, h.line, fun hstatus => ?_, fun hstatus => ?_⟩
  · exact hempty.trans (h.target.unfinished hstatus)
  · exact hempty.trans (h.target.finished hstatus)

/-- **What is read from the file of a clean catalogue is clean.** -/
theorem Catalogue.clean_of_ofFileText [Bytes.Registry] {c d : Catalogue}
    (h : ∀ x ∈ c.contexts, x.Clean) (hread : ofFileText c.fileText = .ok d) : ∀ x ∈ d.contexts, x.Clean := by
  rw [ofFileText_fileText_eq] at hread
  obtain rfl := Except.ok.inj
    ((ofNodes_toNodes_reread (isContent_of_ofNodes hread)).symm.trans hread)
  refine List.forall_mem_map.2 fun x hx => ⟨?_, List.forall_mem_map.2 fun m hm => ?_⟩
  · have hkeys : x.reread.messages.map Message.key = x.messages.map Message.key :=
      congrArg Prod.snd x.outline_reread
    rw [hkeys]
    exact (h x hx).keys
  · exact ((h x hx).messages m hm).reread

/-! ## The whole -/

open Command.Action in
/-- **Translating keeps a catalogue free of errors.**  If an audit finds no error in a
catalogue, it finds none after a table was applied with its unfinished wordings as finished
ones, even if the table could be applied in part only; and it finds none in the catalogue that
a successful edit has written, nor in what is read back from the file if it is one of
markup. -/
theorem count_error_translated [Bytes.Registry] {c : Catalogue}
    (hc : (Audit.run {} c).count .error = 0) :
    (∀ rows, (Audit.run {} (c.importRows true rows).1).count .error = 0) ∧
      ∀ disk input context source comment? values output? bytes,
        disk.entry? input = some (.file bytes) → (formatOf input).read bytes = .ok c →
        ((edit input context source comment? values false output? false).outcome disk).ending =
          .done →
        ∃ m w c', c.find? context source comment? = some m ∧ wordingFor m values = .ok w ∧
          c.setTarget context source comment? (targetFor false w) = .ok c' ∧
          ((edit input context source comment? values false output? false).outcome
              disk).disk.entry? (output?.getD input) =
            some (.file (Bytes.ofText ((formatOf (output?.getD input)).render c'))) ∧
          (Audit.run {} c').count .error = 0 ∧
          ∀ d, Catalogue.ofFileText c'.fileText = .ok d → (Audit.run {} d).count .error = 0 := by
  rw [Audit.count_error_run rfl] at hc
  simp only [Audit.count_error_run (o := {}) rfl]
  refine ⟨fun rows => Catalogue.clean_importRows hc rows, ?_⟩
  intro disk input context source comment? values output? bytes hentry hread hdone
  obtain ⟨s, hgives⟩ := exists_gives_of_done hdone
  obtain ⟨bytes', c₀, m, w, c', hentry', hread', hfind, hwording, hset, hwritten⟩ :=
    exists_of_edit hgives
  obtain rfl := Disk.Entry.file.inj (Option.some.inj (hentry.symm.trans hentry'))
  obtain rfl := Except.ok.inj (hread.symm.trans hread')
  have hclean := Catalogue.clean_setTarget hc hfind (settled_targetFor w) hset
  rw [outcome_of_gives hgives]
  exact ⟨m, w, c', hfind, hwording, hset, hwritten, hclean,
    fun d hd => Catalogue.clean_of_ofFileText hclean hd⟩

/-- A table for `Command.Action.waiting` that comes to no end: the status of its second row is
none at all. -/
def halfTable : List Csv.Row :=
  [{ context := "Q", source := "a", comment := "b", wording := "c", status := "unfinished" },
    { context := "Q", source := "a", comment := "b", wording := "d", status := "?" }]

open Command.Action in
theorem waiting_translated :
    (waiting.importRows true halfTable).1.contexts ≠ waiting.contexts ∧
      (Audit.run {} (waiting.importRows true halfTable).1).count .error = 0 ∧
      ∃ c', waiting.setTarget "Q" "a" (some "b") (targetFor false (.plural ["c"])) = .ok c' ∧
        ((edit "ts/fr.ts" "Q" "a" (some "b") ["c"] false none false).outcome shelf).disk.entry?
            "ts/fr.ts" = some (.file (Bytes.ofText c'.fileText)) ∧
        (Audit.run {} c').count .error = 0 := by
  have hentry : shelf.entry? "ts/fr.ts" = some (.file waitingFile) := by decide +kernel
  have hread : (formatOf "ts/fr.ts").read waitingFile = .ok waiting := by decide +kernel
  obtain ⟨hrows, hedit⟩ := count_error_translated (c := waiting) (by decide +kernel)
  obtain ⟨m, w, c', hfind, hwording, hset, hwritten, hclean, -⟩ :=
    hedit shelf "ts/fr.ts" "Q" "a" (some "b") ["c"] none waitingFile hentry hread
      (by decide +kernel)
  have hm : m = { isPlural := true, source := "a", comment? := some "b" } :=
    Option.some.inj (hfind.symm.trans (by decide +kernel))
  have hw : w = .plural ["c"] := by
    rw [hm] at hwording
    exact Except.ok.inj (hwording.symm.trans (by decide +kernel))
  rw [hw] at hset
  refine ⟨by decide +kernel, hrows halfTable, c', hset, ?_, hclean⟩
  exact hwritten

end Linguist
