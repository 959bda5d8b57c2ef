import Linguist.Proofs.Catalogue.Answers
import Linguist.Proofs.Catalogue.Retarget
import Linguist.Proofs.Catalogue.Untouched

/-!
# What an import leaves behind

A row can be read if its wording can be, and its status as well where there is a wording
(`Csv.Row.readable`).  An import applies the rows before the first that cannot be read, and it
succeeds just when there is none.  In either case every row that was applied asked for a
target at its address or for nothing, and what the catalogue is in the end is decided by the
last target that was asked for at each address: the message that a look-up finds there has it,
and nothing else is changed (`importRows_eq_retarget`).

A row is applied to what the rows before it have left.  It finds the same message there as in
the beginning, because targets play no part in look-ups; so the rows can be taken together,
later ones before earlier ones (`retarget_applyRows`).
-/

namespace Linguist

/-- The status that is stored; unfinished counts as finished on demand. -/
def Status.onDemand (markFinished : Bool) (s : Status) : Status :=
  if s = .unfinished ∧ markFinished then .finished else s

namespace Csv

namespace Row

/-- The status that the cell names; a blank cell names an unfinished one. -/
def status? (r : Row) : Option Status :=
  if Text.isAllBlank r.status then some .unfinished else (Status.ofText? r.status).toOption

/-- Whether the row can be read: its wording, and where there is a wording its status. -/
def readable (r : Row) : Bool :=
  match r.readWording with
  | .ok w => w.isEmpty || r.status?.isSome
  | .error _ => false

/-- The target that a row asks for, if it can be read and has a wording. -/
def target? (markFinished : Bool) (r : Row) : Option Target :=
  match r.readWording, r.status? with
  | .ok w, some status => if w.isEmpty then none else some ⟨status.onDemand markFinished, w⟩
  | _, _ => none

variable {r : Row} {w : Wording} {status : Status} {markFinished : Bool}

theorem readable_of_readWording (h : r.readWording = .ok w) :
    r.readable = (w.isEmpty || r.status?.isSome) := by
  rw [readable, h]

theorem readable_of_error {fault : Fault} (h : r.readWording = .error fault) :
    r.readable = false := by
  rw [readable, h]

theorem target?_of_isEmpty (h : r.readWording = .ok w) (hempty : w.isEmpty = true) :
    r.target? markFinished = none := by
  rw [target?, h]
  cases r.status? with
  | none => rfl
  | some status => exact if_pos hempty

theorem target?_of_status (h : r.readWording = .ok w) (hempty : w.isEmpty = false)
    (hstatus : r.status? = some status) :
    r.target? markFinished = some ⟨status.onDemand markFinished, w⟩ := by
  rw [target?, h, hstatus]
  exact if_neg (Bool.eq_false_iff.1 hempty)

end Row

/-- The last target that rows ask for at an address. -/
def lastTarget? (markFinished : Bool) (rows : List Row) (a : Catalogue.Address) :
    Option Target :=
  ((rows.filter fun r => r.address = a).filterMap (Row.target? markFinished)).getLast?

/-- A row before others counts where they ask for nothing. -/
theorem lastTarget?_cons (markFinished : Bool) (r : Row) (rows : List Row)
    (a : Catalogue.Address) :
    lastTarget? markFinished (r :: rows) a =
      (lastTarget? markFinished rows a).or
        (if r.address = a then r.target? markFinished else none) := by
  rw [lastTarget?, List.filter_cons]
  by_cases ha : r.address = a
  · rw [if_pos (decide_eq_true ha), if_pos ha, List.filterMap_cons]
    cases htarget : r.target? markFinished with
    | none => exact Option.or_none.symm
    | some t =>
      rw [List.getLast?_cons, lastTarget?]
      cases ((rows.filter fun r => r.address = a).filterMap
        (Row.target? markFinished)).getLast? <;> rfl
  · rw [if_neg (by simpa using ha), if_neg ha]
    exact Option.or_none.symm

end Csv

open Csv (Row lastTarget?)
open Markup (ok_bind)

namespace Catalogue

variable {c : Catalogue} {r : Row} {w : Wording} {status : Status} {m : Message}
  (markFinished : Bool) (report : ImportReport)

/-- The number of rows that a report is about. -/
def ImportReport.size (report : ImportReport) : Nat :=
  report.applied + report.unchanged + report.skippedEmpty + report.unknown.length

/-! ## One row -/

theorem importStatus_of_status? (h : r.status? = some status) :
    importStatus markFinished r = .ok (status.onDemand markFinished) := by
  rw [Row.status?] at h
  rw [importStatus]
  split at h
  · rename_i hblank
    rw [if_pos hblank, ← Option.some.inj h]
    rfl
  · rename_i hblank
    rw [if_neg hblank]
    cases hstatus : Status.ofText? r.status with
    | error fault => rw [hstatus] at h; cases h
    | ok s =>
      rw [hstatus] at h
      rw [← Option.some.inj h]
      rfl

theorem importStatus_of_status?_eq_none (h : r.status? = none) :
    ∃ fault, importStatus markFinished r = .error fault := by
  rw [Row.status?] at h
  rw [importStatus]
  split at h
  · cases h
  · rename_i hblank
    rw [if_neg hblank]
    cases hstatus : Status.ofText? r.status with
    | error fault => exact ⟨fault, rfl⟩
    | ok s => rw [hstatus] at h; cases h

/-- A row with a wording that addresses no message is noted. -/
theorem applyRow_of_unknown (hw : r.readWording = .ok w) (hempty : w.isEmpty = false)
    (hstatus : importStatus markFinished r = .ok status)
    (hfind : c.find? r.context r.source r.comment? = none) :
    applyRow markFinished r c report =
      .ok (c, { report with unknown := report.unknown ++ [(r.context, r.source)] }) := by
  rw [applyRow, hw, ok_bind, if_neg (by simp [hempty]), hstatus, ok_bind, hfind]
  rfl

/-- The target of a row at its address. -/
def rowTarget? (markFinished : Bool) (r : Row) (a : Address) : Option Target :=
  if r.address = a then r.target? markFinished else none

/-- A row that asks for nothing, or for what is there, changes nothing. -/
theorem retarget_rowTarget?_eq_self
    (h : ∀ t m, r.target? markFinished = some t → c.lookup r.address = some m → m.target = t) :
    c.retarget (rowTarget? markFinished r) = c := by
  refine retarget_eq_self fun a m hm => ?_
  rw [rowTarget?]
  split
  · rename_i ha
    cases ht : r.target? markFinished with
    | none => rfl
    | some t => exact (h t m ht (ha ▸ hm)).symm
  · rfl

/-- A row with a target replaces the one that is found at its address. -/
theorem setTarget_row {t : Target} (ht : r.target? markFinished = some t)
    (hm : c.lookup r.address = some m) :
    c.setTarget r.context r.source r.comment? t =
      .ok (c.retarget (rowTarget? markFinished r)) := by
  have hlookup : c.lookup (r.context, .of r.source r.comment?) = some m := hm
  have honly : targetOnlyAt r.address t = rowTarget? markFinished r := funext fun a => by
    rw [rowTarget?, targetOnlyAt, ht]
    exact if_congr eq_comm rfl rfl
  exact honly ▸ setTarget_of_lookup hlookup t

/-- **A row that can be read gives its message the target it asks for,** and is counted
once. -/
theorem applyRow_of_readable (h : r.readable = true) (c : Catalogue) :
    ∃ report', applyRow markFinished r c report =
        .ok (c.retarget (rowTarget? markFinished r), report') ∧
      report'.size = report.size + 1 := by
  cases hw : r.readWording with
  | error fault => rw [Row.readable_of_error hw] at h; cases h
  | ok w =>
    cases hempty : w.isEmpty with
    | true =>
      have hnone : r.target? markFinished = none := Row.target?_of_isEmpty hw hempty
      rw [applyRow_of_isEmpty markFinished report hw hempty,
        retarget_rowTarget?_eq_self markFinished fun t m ht _ => by rw [hnone] at ht; cases ht]
      exact ⟨_, rfl, by simp only [ImportReport.size]; omega⟩
    | false =>
      rw [Row.readable_of_readWording hw, hempty, Bool.false_or] at h
      obtain ⟨status, hstatus⟩ := Option.isSome_iff_exists.1 h
      have htarget : r.target? markFinished = some ⟨status.onDemand markFinished, w⟩ :=
        Row.target?_of_status hw hempty hstatus
      have himport := importStatus_of_status? markFinished hstatus
      have hlookup : c.find? r.context r.source r.comment? = c.lookup r.address := rfl
      cases hm : c.lookup r.address with
      | none =>
        rw [applyRow_of_unknown markFinished report hw hempty himport (hlookup.trans hm),
          retarget_rowTarget?_eq_self markFinished fun t m _ hm' => by rw [hm] at hm'; cases hm']
        refine ⟨_, rfl, ?_⟩
        simp only [ImportReport.size, List.length_append, List.length_singleton]
        omega
      | some m =>
        rw [applyRow_of_found markFinished report hw hempty himport (hlookup.trans hm)]
        split
        · rename_i hthere
          rw [retarget_rowTarget?_eq_self markFinished fun t m' ht hm' => by
            rw [← Option.some.inj (hm.symm.trans hm'), ← Option.some.inj (htarget.symm.trans ht)]
            exact hthere]
          exact ⟨_, rfl, by simp only [ImportReport.size]; omega⟩
        · rw [setTarget_row markFinished htarget hm]
          exact ⟨_, rfl, by simp only [ImportReport.size]; omega⟩

/-- **A row that cannot be read ends the import.** -/
theorem applyRow_of_not_readable (h : r.readable = false) (c : Catalogue) :
    ∃ fault, applyRow markFinished r c report = .error fault := by
  cases hw : r.readWording with
  | error fault => exact ⟨fault, by rw [applyRow, hw]; rfl⟩
  | ok w =>
    rw [Row.readable_of_readWording hw, Bool.or_eq_false_iff, Option.isSome_eq_false_iff,
      Option.isNone_iff_eq_none] at h
    obtain ⟨fault, hfault⟩ := importStatus_of_status?_eq_none markFinished h.2
    exact ⟨fault, by rw [applyRow, hw, ok_bind, if_neg (by simp [h.1]), hfault]; rfl⟩

/-! ## All rows -/

/-- **The rows before the first that cannot be read decide,** and of those for one address the
last. -/
theorem retarget_applyRows (rows : List Row) (c : Catalogue) :
    (applyRows markFinished rows c report).1 =
      c.retarget (lastTarget? markFinished (rows.takeWhile Row.readable)) := by
  induction rows generalizing c report with
  | nil => exact (retarget_eq_self fun _ _ _ => rfl).symm
  | cons r rows ih =>
    cases hr : r.readable with
    | true =>
      obtain ⟨report', hrow, -⟩ := applyRow_of_readable markFinished report hr c
      have hlast : (fun a => (lastTarget? markFinished (rows.takeWhile Row.readable) a).or
          (rowTarget? markFinished r a)) =
          lastTarget? markFinished (r :: rows.takeWhile Row.readable) :=
        funext fun a => (Csv.lastTarget?_cons markFinished r _ a).symm
      rw [applyRows_of_applyRow markFinished hrow, ih, retarget_retarget,
        List.takeWhile_cons_of_pos hr, hlast]
    | false =>
      obtain ⟨fault, hrow⟩ := applyRow_of_not_readable markFinished report hr c
      rw [applyRows, hrow, List.takeWhile_cons_of_neg (by simp [hr])]
      exact (retarget_eq_self fun _ _ _ => rfl).symm

/-- **An import succeeds just when all rows can be read,** and then it counts each once. -/
theorem report_applyRows (rows : List Row) (c : Catalogue) :
    ((∃ report', (applyRows markFinished rows c report).2 = .ok report') ↔
        ∀ r ∈ rows, r.readable = true) ∧
      ∀ report', (applyRows markFinished rows c report).2 = .ok report' →
        report'.size = report.size + rows.length := by
  induction rows generalizing c report with
  | nil =>
    refine ⟨iff_of_true ⟨report, rfl⟩ fun _ hr => absurd hr List.not_mem_nil, fun report' h => ?_⟩
    rw [← Except.ok.inj h]
    rfl
  | cons r rows ih =>
    cases hr : r.readable with
    | true =>
      obtain ⟨report₁, hrow, hsize⟩ := applyRow_of_readable markFinished report hr c
      obtain ⟨hok, hcount⟩ := ih report₁ (c.retarget (rowTarget? markFinished r))
      rw [applyRows_of_applyRow markFinished hrow, List.forall_mem_cons, and_iff_right hr]
      refine ⟨hok, fun report' h => ?_⟩
      rw [hcount report' h, hsize, List.length_cons, Nat.add_assoc, Nat.add_comm 1]
    | false =>
      obtain ⟨fault, hrow⟩ := applyRow_of_not_readable markFinished report hr c
      rw [applyRows, hrow]
      refine ⟨iff_of_false (fun h => ?_) fun h => ?_, fun report' h => ?_⟩
      · obtain ⟨report', h⟩ := h
        cases h
      · rw [h r List.mem_cons_self] at hr
        cases hr
      · cases h

/-- **What an import leaves behind.**  Whether it succeeds or not, every message that a
look-up finds has the last target that was asked for at its address by a row before the first
that cannot be read, and nothing else is changed.  It succeeds just when there is no such row,
and then every row is counted once. -/
theorem importRows_eq_retarget (c : Catalogue) (rows : List Row) :
    (c.importRows markFinished rows).1 =
        c.retarget (lastTarget? markFinished (rows.takeWhile Row.readable)) ∧
      ((∃ report, (c.importRows markFinished rows).2 = .ok report) ↔
        ∀ r ∈ rows, r.readable = true) ∧
      ∀ report, (c.importRows markFinished rows).2 = .ok report →
        report.applied + report.unchanged + report.skippedEmpty + report.unknown.length =
          rows.length := by
  obtain ⟨hok, hcount⟩ := report_applyRows markFinished {} rows c
  refine ⟨retarget_applyRows markFinished {} rows c, hok, fun report h => ?_⟩
  exact (hcount report h).trans (Nat.zero_add _)

end Catalogue
end Linguist
