import Linguist.Proofs.Audit
import Linguist.Proofs.Collection
import Linguist.Proofs.Merge.Lifecycle

/-!
# A clean catalogue stays clean

A catalogue in which an audit finds no error is brought up to date from code, and an audit
finds no error afterwards (`count_error_merge_ofFiles`).  There are three parts to it, as
there are to a clean message.

* The status of every merged target fits its wording: one that is taken over from an active
  message fits as it did, one that is revived gets the status that fits, a new one is
  unfinished and empty, and to retired ones nothing applies.
* The places of a merged message are those of a collected one, and so is its source text; a
  retired message has no places.
* No key repeats, since what is left over never has the address of a collected message.

The first and the last hold of any merge.  The second asks that the collected messages have
source texts and exact places, which is what makes the style of the places harmless.
-/

namespace Linguist

theorem Message.Alike.source {m m' : Message} (h : m.Alike m') : m'.source = m.source :=
  congrArg Key.source h.key

namespace Merge

variable {options : Options} {existing extracted : Catalogue}

/-! ## Status and wording -/

/-- A revived message gets the status that fits. -/
theorem settled_revived (t : Target) : (⟨revivedStatus t, t.wording⟩ : Target).Settled := by
  have hempty : (⟨revivedStatus t, t.wording⟩ : Target).isEmpty = t.isEmpty := rfl
  cases h : t.isEmpty with
  | true => exact ⟨fun _ => hempty.trans h, fun hstatus => by simp [revivedStatus, h] at hstatus⟩
  | false => exact ⟨fun hstatus => by simp [revivedStatus, h] at hstatus, fun _ => hempty.trans h⟩

/-- If old targets are settled, then so is every target that is left of them or new. -/
theorem Origin.Leaves.settled {origin : Origin} {t : Target} (h : origin.Leaves t)
    (hold : ∀ m, origin.old? = some m → m.target.Settled) : t.Settled := by
  cases origin with
  | kept old =>
    rw [h.2]
    exact hold old rfl
  | revived old =>
    rw [h.2]
    exact settled_revived old.target
  | added => exact ⟨fun _ => h.2, fun hstatus => by rw [h.1] at hstatus; cases hstatus⟩
  | sameText => exact ⟨fun _ => h.2, fun hstatus => by rw [h.1] at hstatus; cases hstatus⟩

theorem settled_retired (m : Message) : (retired m).target.Settled := by
  rcases retiredStatus_eq m.target.status with hstatus | hstatus
  · exact ⟨fun h => by simp [hstatus] at h, fun h => by simp [hstatus] at h⟩
  · exact ⟨fun h => by simp [hstatus] at h, fun h => by simp [hstatus] at h⟩

/-- **A merge makes no status that does not fit its wording.** -/
theorem settled_merge (h : ∀ p ∈ existing.messages, p.2.target.Settled) :
    ∀ p ∈ (merge options existing extracted).1.messages, p.2.target.Settled := by
  intro p hp
  obtain ⟨ledger, stayed, gone, haccount⟩ := exists_account options existing extracted
  rcases haccount.explained_or_retired hp with ⟨e, he, hexplains⟩ | ⟨q, -, rfl⟩
  · exact hexplains.target.settled fun m hm => h (e.context, m) (haccount.mem_of_old? he hm)
  · exact settled_retired q.2

/-! ## Source texts and places -/

/-- A merged message has no places, or it has source and places of a collected one. -/
theorem exists_collected {q : String × Message}
    (hq : q ∈ listing (mergeContexts options existing extracted).1) :
    q.2.places = [] ∨ ∃ x ∈ extracted.contexts, ∃ m ∈ x.messages,
      q.2.source = m.source ∧ q.2.places = m.places := by
  have hlisting := perm_retirePools options (walked options existing extracted).1
    (walked options existing extracted).2.report (walked options existing extracted).2.pools
  rcases List.mem_append.1 (hlisting.mem_iff.1 hq) with hwalked | hretired
  · obtain ⟨y, hy, -, hm⟩ := exists_of_mem_listing hwalked
    obtain ⟨x, hx, hcurrent⟩ :=
      Sequence.exists_of_forall₂ (current_walked options existing extracted).flip hy
    obtain ⟨m, hm, hsame⟩ := Sequence.exists_of_forall₂ hcurrent.messages.flip hm
    refine Or.inr ⟨x, hx, m, hm, congrArg Message.Key.source hsame.key, ?_⟩
    exact (congrArg Message.places hsame.refresh).symm
  · obtain ⟨p, -, rfl⟩ := List.mem_map.1 hretired
    exact Or.inl rfl

/-- The places of a merge are exact if the collected ones are. -/
theorem exact_mergeContexts (hplaces : extracted.ForallPlaces Place.Exact) :
    ({ existing with contexts := (mergeContexts options existing extracted).1 } :
      Catalogue).ForallPlaces Place.Exact := by
  intro y hy m hm p hp
  rcases exists_collected (mem_listing hy hm) with hnone | ⟨x, hx, m', hm', -, hsame⟩
  · rw [show m.places = [] from hnone] at hp
    cases hp
  · exact hplaces x hx m' hm' p (hsame ▸ hp)

/-! ## The whole -/

/-- **A merge keeps a catalogue clean,** if the collected one is distinct and has source
texts and exact places. -/
theorem clean_merge (hnames : (existing.contexts.map Context.name).Nodup)
    (hexisting : ∀ x ∈ existing.contexts, x.Clean) (hextracted : Distinct extracted.contexts)
    (hsources : ∀ x ∈ extracted.contexts, ∀ m ∈ x.messages, m.source ≠ "")
    (hplaces : extracted.ForallPlaces Place.Exact) :
    ∀ y ∈ (merge options existing extracted).1.contexts, y.Clean := by
  have hdistinct := distinct_merge options (.of_clean hnames hexisting) hextracted
  have hsettled : ∀ p ∈ (merge options existing extracted).1.messages, p.2.target.Settled := by
    refine settled_merge fun p hp => ?_
    obtain ⟨x, hx, -, hm⟩ := exists_of_mem_listing hp
    exact ((hexisting x hx).messages p.2 hm).target
  have hexact : ({ existing with contexts := (mergeContexts options existing extracted).1 } :
      Catalogue).ForallPlaces Place.Exact := exact_mergeContexts hplaces
  have hlines := Catalogue.line?_withPlaces hexact options.places
  intro y hy
  refine ⟨hdistinct.2 y hy, fun m hm => ⟨fun hne => ?_, hlines y hy m hm, ?_⟩⟩
  · have halike := Catalogue.alike_withPlaces
      { existing with contexts := (mergeContexts options existing extracted).1 } options.places
    obtain ⟨y', hy', hyalike⟩ := Sequence.exists_of_forall₂ halike.flip hy
    obtain ⟨m', hm', hmalike⟩ := Sequence.exists_of_forall₂ hyalike.messages.flip hm
    rw [hmalike.source]
    rcases exists_collected (mem_listing hy' hm') with hnone | ⟨x, hx, m'', hm'', hsame, -⟩
    · exact absurd (hmalike.places hnone) hne
    · exact hsame ▸ hsources x hx m'' hm''
  · exact hsettled (y.name, m) (mem_listing hy hm)

/-- **An audit finds no error after an update from code** if it found none before, names did
not repeat, and every call has a source text and a line number of 32 bits. -/
theorem count_error_merge_ofFiles (options : Options) (existing : Catalogue)
    (defaultContext : String) (files : List (String × String))
    (hnames : (existing.contexts.map Context.name).Nodup)
    (hexisting : (Audit.run {} existing).count .error = 0)
    (hlines : ∀ file ∈ files, Code.lineCount file.2.toList < UInt32.size)
    (hsources : ∀ file ∈ files, ∀ call ∈ Code.calls defaultContext file.2, call.source ≠ "") :
    (Audit.run {} (merge options existing
      (Collection.ofFiles defaultContext files)).1).count .error = 0 := by
  rw [Audit.count_error_run rfl] at hexisting ⊢
  exact clean_merge hnames hexisting (Collection.distinct_ofFiles defaultContext files)
    (Collection.source_ofFiles hsources) (Collection.exact_ofFiles hlines)

/-- A catalogue with an approved message, a draft, a message that is waiting, and one that
left the code. -/
def assorted : Catalogue where
  language? := some "fr"
  contexts := [{ name := "Window", messages := [
    { source := "Open", target := ⟨.finished, .plain "Ouvrir"⟩ },
    { source := "Close" },
    { source := "Undo", target := ⟨.vanished, .plain "Annuler"⟩ }] }]

/-- Code that asks for old messages and for new ones, and once more than once. -/
def program : List (String × String) :=
  [("window.cpp", "Window::tr(\"Undo\");\nWindow::tr(\"Open\");\n"),
    ("main.cpp", "tr(\"Quit\"); tr(\"Quit\");")]

theorem assorted_stays_clean :
    (Audit.run {} (merge {} assorted (Collection.ofFiles "Main" program)).1).count .error = 0 :=
  count_error_merge_ofFiles {} assorted "Main" program (by decide) (by decide +kernel)
    (by decide +kernel) (by decide +kernel)

end Merge
end Linguist
