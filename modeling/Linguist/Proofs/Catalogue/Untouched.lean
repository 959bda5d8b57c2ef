import Linguist.Proofs.Catalogue.Elements
import Linguist.Proofs.Catalogue.Lookup
import Linguist.Proofs.Catalogue.Rows
import Linguist.Proofs.Csv.Row

/-!
# A table that comes back untouched

A catalogue goes out as a table, and the table comes back as it was.  Applying it changes
nothing, or, if unfinished rows are to count as finished, exactly what that asks for: every
message that is unfinished and has a wording becomes finished (`Catalogue.returned`).  Each
row addresses the message it was written for, provided that no name and no key repeats, and
the report counts the messages accordingly (`Catalogue.importRows_readRows`).

The rows are applied in the order of their messages.  So at any time the catalogue has three
parts: messages whose rows have been applied, the message whose row comes next, and messages
that are as they were.  No name and no key of the first part is that of the message, which is
all that a look-up and a replacement have to pass over.
-/

namespace Linguist

open Csv (Row)
open Markup (ok_bind)

namespace Message

/-- The message has a wording, but the wording does not count as finished. -/
def IsOpen (m : Message) : Prop :=
  m.target.status = .unfinished ∧ m.target.isEmpty = false

instance (m : Message) : Decidable m.IsOpen :=
  inferInstanceAs (Decidable (_ ∧ _))

/-- The message once its own row has been applied to it. -/
def returned (markFinished : Bool) (m : Message) : Message :=
  if markFinished ∧ m.IsOpen then { m with target := { m.target with status := .finished } } else m

theorem key_returned (markFinished : Bool) (m : Message) :
    (m.returned markFinished).key = m.key := by
  rw [returned]
  split <;> rfl

theorem returned_false : returned false = id := by
  funext m
  rw [returned, if_neg (by simp)]
  rfl

end Message

namespace Catalogue

/-- The contexts once the rows of their messages have been applied to them. -/
def returnedContext (markFinished : Bool) (x : Context) : Context :=
  x.withMessages (x.messages.map (Message.returned markFinished))

/-- The catalogue once its own table has been applied to it. -/
def returned (markFinished : Bool) (c : Catalogue) : Catalogue :=
  { c with contexts := c.contexts.map (returnedContext markFinished) }

theorem returned_false (c : Catalogue) : c.returned false = c := by
  have hcontext : returnedContext false = id := by
    funext x
    rw [returnedContext, Message.returned_false, List.map_id]
    rfl
  rw [returned, hcontext, List.map_id]

namespace ImportReport

/-- The report with one message more that came back. -/
def tally (markFinished : Bool) (report : ImportReport) (m : Message) : ImportReport :=
  if m.target.isEmpty then { report with skippedEmpty := report.skippedEmpty + 1 }
  else if markFinished ∧ m.IsOpen then { report with applied := report.applied + 1 }
  else { report with unchanged := report.unchanged + 1 }

/-- **The report counts the messages of each kind.** -/
theorem foldl_tally (markFinished : Bool) (ms : List Message) (report : ImportReport) :
    ms.foldl (tally markFinished) report =
      { report with
        applied := report.applied + ms.countP (fun m => markFinished ∧ m.IsOpen)
        unchanged := report.unchanged +
          ms.countP (fun m => m.target.isEmpty = false ∧ ¬ (markFinished ∧ m.IsOpen))
        skippedEmpty := report.skippedEmpty + ms.countP (fun m => m.target.isEmpty) } := by
  induction ms generalizing report with
  | nil => rfl
  | cons m ms ih =>
    rw [List.foldl_cons, ih, tally, List.countP_cons, List.countP_cons, List.countP_cons]
    by_cases hempty : m.target.isEmpty = true
    · have hopen : ¬ m.IsOpen := fun h => by simp [h.2] at hempty
      simp [hempty, hopen]
      omega
    · by_cases hopen : markFinished = true ∧ m.IsOpen
      · simp [hempty, hopen]
        omega
      · simp [hempty, hopen]
        omega

end ImportReport

/-! ## One row -/

section Row

variable {c : Catalogue} {r : Row} {w : Wording} {status : Status} {m : Message}
  (markFinished : Bool) (report : ImportReport)

theorem applyRow_of_isEmpty (hw : r.readWording = .ok w) (hempty : w.isEmpty = true) :
    applyRow markFinished r c report =
      .ok (c, { report with skippedEmpty := report.skippedEmpty + 1 }) := by
  rw [applyRow, hw, ok_bind, if_pos hempty]
  rfl

/-- A row with a wording replaces the target of its message, unless the target is that
already. -/
theorem applyRow_of_found (hw : r.readWording = .ok w) (hempty : w.isEmpty = false)
    (hstatus : importStatus markFinished r = .ok status)
    (hfind : c.find? r.context r.source r.comment? = some m) :
    applyRow markFinished r c report =
      if m.target = ⟨status, w⟩ then .ok (c, { report with unchanged := report.unchanged + 1 })
      else (c.setTarget r.context r.source r.comment? ⟨status, w⟩).map
        (·, { report with applied := report.applied + 1 }) := by
  rw [applyRow, hw, ok_bind, if_neg (by simp [hempty]), hstatus, ok_bind, hfind]
  dsimp only
  split
  · rfl
  · cases c.setTarget r.context r.source r.comment? ⟨status, w⟩ <;> rfl

theorem importStatus_ofMessage (context : String) (m : Message) :
    importStatus markFinished (Row.ofMessage context m) =
      .ok (if m.target.status = .unfinished ∧ markFinished then .finished
        else m.target.status) := by
  have hstatus : (Row.ofMessage context m).status = m.target.status.text := rfl
  rw [importStatus, hstatus, m.target.status.isAllBlank_text, m.target.status.ofText?_text]
  rfl

end Row

section

variable {c : Catalogue} {xs : List Context} {x : Context} {ms : List Message}
  {m m' : Message} (markFinished : Bool)

/-- **A row that comes back is applied to its own message.** -/
theorem applyRow_ofMessage (hm : m.Alike m') (hname : x.name ∉ xs.map Context.name)
    (hkey : m.key ∉ ms.map Message.key) (ns : List Message) (ys : List Context)
    (report : ImportReport) :
    applyRow markFinished (Row.ofMessage x.name m')
      { c with contexts := xs ++ x.withMessages (ms ++ m :: ns) :: ys } report =
    .ok ({ c with contexts := xs ++ x.withMessages (ms ++ m.returned markFinished :: ns) :: ys },
      report.tally markFinished m) := by
  have hkey' : Message.Key.of (Row.ofMessage x.name m').source (Row.ofMessage x.name m').comment? =
      m.key := (Row.key_ofMessage x.name m').trans hm.key
  have hfind : ({ c with contexts := xs ++ x.withMessages (ms ++ m :: ns) :: ys } :
      Catalogue).find? x.name (Row.ofMessage x.name m').source (Row.ofMessage x.name m').comment? =
      some m := by
    rw [find?_eq_lookup, hkey']
    exact lookup_split hname hkey ns ys
  have hwording : (Row.ofMessage x.name m').readWording = .ok m.target.wording := by
    rw [Row.readWording_ofMessage, hm.target]
  have hstatus := importStatus_ofMessage markFinished x.name m'
  rw [hm.target] at hstatus
  cases hempty : m.target.isEmpty with
  | true =>
    have hreturned : m.returned markFinished = m :=
      if_neg fun h => Bool.false_ne_true (h.2.2.symm.trans hempty)
    rw [applyRow_of_isEmpty markFinished report hwording hempty, hreturned, ImportReport.tally,
      if_pos hempty]
  | false =>
    have hne : ¬ m.target.isEmpty = true := Bool.eq_false_iff.1 hempty
    rw [applyRow_of_found markFinished report hwording hempty hstatus hfind]
    by_cases hopen : markFinished = true ∧ m.IsOpen
    -- The row asks for another status, so the target is replaced; else it asks for the target
    -- that is there.
    · have hmark : m.target.status = .unfinished ∧ markFinished = true := ⟨hopen.2.1, hopen.1⟩
      have hchanged : m.target ≠ ⟨.finished, m.target.wording⟩ := fun h =>
        Status.noConfusion (hmark.1.symm.trans (congrArg Target.status h))
      have hreturned : m.returned markFinished =
          { m with target := ⟨.finished, m.target.wording⟩ } := if_pos hopen
      have hset := setTarget_split (c := c) hname (hkey' ▸ hkey) hkey'.symm
        ⟨.finished, m.target.wording⟩ ns ys
      rw [if_pos hmark, if_neg hchanged, hreturned, ImportReport.tally, if_neg hne, if_pos hopen]
      exact congrArg _ hset
    · have hkept : ¬ (m.target.status = .unfinished ∧ markFinished = true) := fun h =>
        hopen ⟨h.2, h.1, hempty⟩
      have hsame : m.target = ⟨m.target.status, m.target.wording⟩ := rfl
      have hreturned : m.returned markFinished = m := if_neg hopen
      rw [if_neg hkept, if_pos hsame, hreturned, ImportReport.tally, if_neg hne, if_neg hopen]

/-! ## All rows -/

theorem applyRows_of_applyRow {c c' : Catalogue} {r : Row} {report report' : ImportReport}
    (h : applyRow markFinished r c report = .ok (c', report')) (rest : List Row) :
    applyRows markFinished (r :: rest) c report = applyRows markFinished rest c' report' := by
  rw [applyRows, h]

/-- The rows of the messages of one context. -/
theorem applyRows_messages {ns ns' : List Message} (halike : List.Forall₂ Message.Alike ns ns')
    (hname : x.name ∉ xs.map Context.name) (hkeys : ((ms ++ ns).map Message.key).Nodup)
    (ys : List Context) (report : ImportReport) (rest : List Row) :
    applyRows markFinished (ns'.map (Row.ofMessage x.name) ++ rest)
      { c with contexts := xs ++ x.withMessages (ms ++ ns) :: ys } report =
    applyRows markFinished rest
      { c with contexts := xs ++
        x.withMessages (ms ++ ns.map (Message.returned markFinished)) :: ys }
      (ns.foldl (ImportReport.tally markFinished) report) := by
  -- The messages whose rows have been applied move over to `ms`.
  induction halike generalizing ms report with
  | nil => rfl
  | @cons n n' ns ns' hn _ ih =>
    have hkey : n.key ∉ ms.map Message.key := notMem_of_nodup_append hkeys
    have hkeys' : ((ms ++ [n.returned markFinished] ++ ns).map Message.key).Nodup := by
      simpa [Message.key_returned] using hkeys
    rw [List.map_cons, List.cons_append, applyRows_of_applyRow markFinished
      (applyRow_ofMessage markFinished hn hname hkey ns ys report)]
    have hrest := ih hkeys' (report.tally markFinished n)
    rw [List.append_assoc, List.singleton_append] at hrest
    rw [hrest, List.append_assoc, List.singleton_append]
    rfl

/-- **The rows of all messages.** -/
theorem applyRows_contexts {zs zs' : List Context} (halike : List.Forall₂ Context.Alike zs zs')
    (hnames : ((xs ++ zs).map Context.name).Nodup)
    (hkeys : ∀ z ∈ zs, (z.messages.map Message.key).Nodup) (report : ImportReport) :
    applyRows markFinished ((listing zs').map fun p => Row.ofMessage p.1 p.2)
      { c with contexts := xs ++ zs } report =
    ({ c with contexts := xs ++ zs.map (returnedContext markFinished) },
      .ok (((listing zs).map Prod.snd).foldl (ImportReport.tally markFinished) report)) := by
  induction halike generalizing xs report with
  | nil => rfl
  | @cons z z' zs zs' hz _ ih =>
    obtain ⟨hz', hkeys⟩ := List.forall_mem_cons.1 hkeys
    have hname : z.name ∉ xs.map Context.name := notMem_of_nodup_append hnames
    have hnames' : ((xs ++ [returnedContext markFinished z] ++ zs).map Context.name).Nodup := by
      simpa [returnedContext, Context.withMessages] using hnames
    have hrows : (listing (z' :: zs')).map (fun p => Row.ofMessage p.1 p.2) =
        z'.messages.map (Row.ofMessage z.name) ++
          (listing zs').map fun p => Row.ofMessage p.1 p.2 := by
      rw [listing_cons, List.map_append, Context.listing, List.map_map, hz.name]
      rfl
    have hz' : (([] ++ z.messages).map Message.key).Nodup := hz'
    have hmessages := applyRows_messages (c := c) markFinished hz.messages hname hz' zs report
      ((listing zs').map fun p => Row.ofMessage p.1 p.2)
    have hrest := ih hnames' hkeys (z.messages.foldl (ImportReport.tally markFinished) report)
    have hfold : ((listing (z :: zs)).map Prod.snd).foldl (ImportReport.tally markFinished) report =
        ((listing zs).map Prod.snd).foldl (ImportReport.tally markFinished)
          (z.messages.foldl (ImportReport.tally markFinished) report) := by
      rw [listing_cons, List.map_append, List.foldl_append, Context.listing, List.map_map]
      exact congrArg (List.foldl _ · _) (congrArg (List.foldl _ report) (List.map_id _))
    simp only [List.append_assoc, List.singleton_append] at hrest
    rw [hrows, hfold, List.map_cons]
    exact hmessages.trans hrest

end

/-! ## The table -/

/-- **A table that comes back untouched changes nothing,** and on demand finishes the
messages that have a wording and are unfinished. -/
theorem importRows_readRows {c : Catalogue} (h : Distinct c.contexts) :
    ∃ rows, Csv.readRows (Bytes.ofText (Csv.renderRows c.toRows)) = .ok rows ∧
      c.importRows false rows = (c, .ok {
        unchanged := c.messages.countP fun p => !p.2.target.isEmpty
        skippedEmpty := c.messages.countP fun p => p.2.target.isEmpty }) ∧
      c.importRows true rows = (c.returned true, .ok {
        applied := c.messages.countP fun p => p.2.IsOpen
        unchanged := c.messages.countP fun p => !p.2.target.isEmpty && !p.2.IsOpen
        skippedEmpty := c.messages.countP fun p => p.2.target.isEmpty }) := by
  have halike : List.Forall₂ Context.Alike c.contexts c.resolve.contexts :=
    alike_walk resolvePlace c
  have hnames : (([] ++ c.contexts).map Context.name).Nodup := h.1
  have hrun : ∀ markFinished, c.importRows markFinished c.toRows = (c.returned markFinished,
      .ok ((c.messages.map Prod.snd).foldl (ImportReport.tally markFinished) {})) :=
    fun markFinished => applyRows_contexts (c := c) markFinished halike hnames h.2 {}
  refine ⟨c.toRows, Csv.readRows_renderRows c.toRows, ?_, ?_⟩
  · rw [hrun, returned_false, ImportReport.foldl_tally, List.countP_map, List.countP_map,
      List.countP_map]
    simp [Function.comp_def]
  · rw [hrun, ImportReport.foldl_tally, List.countP_map, List.countP_map, List.countP_map]
    simp [Function.comp_def]

/-- A catalogue with an open message, one without wording, and one that left the code. -/
def halfDone : Catalogue where
  contexts := [
    { name := "Q", messages := [
      { source := "a,\"b\"", comment? := some "", target := ⟨.unfinished, .plain "c\nd"⟩ },
      { isPlural := true, source := "%n", target := ⟨.unfinished, .plural ["", ""]⟩ }] },
    { name := "", messages := [
      { source := "x", comment? := some "y", target := ⟨.vanished, .lengths ["[z"]⟩ }] }]

theorem halfDone_comes_back : Distinct halfDone.contexts ∧
    ∃ rows, Csv.readRows (Bytes.ofText (Csv.renderRows halfDone.toRows)) = .ok rows ∧
      halfDone.importRows false rows = (halfDone, .ok { unchanged := 2, skippedEmpty := 1 }) ∧
      halfDone.importRows true rows =
        (halfDone.returned true, .ok { applied := 1, unchanged := 1, skippedEmpty := 1 }) := by
  have hdistinct : Distinct halfDone.contexts := by decide
  exact ⟨hdistinct, importRows_readRows hdistinct⟩

end Catalogue
end Linguist
