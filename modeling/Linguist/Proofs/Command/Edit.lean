import Linguist.Proofs.Catalogue.Replacement
import Linguist.Proofs.Command.Session
import Linguist.Proofs.Phrasebook

/-!
# What is edited is what is served

A message is edited on the disk, and then a program looks its text up in the same file: it is
shown the value that was set, whatever shape the message has (`lookup_after_edit`).

The value goes a long way.  The catalogue is read, the message is found by its key, a wording
is made of the value that fits the message, and the catalogue is written; it is read again,
wordings are taken for what they look like, and the messages are put into a phrasebook, where
later ones replace earlier ones.  The parts of this way are described elsewhere: reading and
writing of files in `Proofs.Command.Session`, the catalogue that comes back in
`Proofs.Catalogue.Replacement`, and the phrasebook in `Proofs.Phrasebook`.  What is left is
what an edit does when it succeeds (`exists_of_edit`), and that the wording of one value fits
its message and has the value as its first text.
-/

namespace Linguist
namespace Command
namespace Action

open Markup (IsContent)

variable {input context source v : String} {comment? output? : Option String}
  {values : List String} {unfinished : Bool} {s s' : Session} {u : Unit} {m : Message} {w : Wording}

/-! ## One value -/

/-- **A single value makes a wording that fits its message,** and it is the only text. -/
theorem wordingFor_single (h : wordingFor m [v] = .ok w) :
    w.Fits m.isPlural ∧ w.all = [v] := by
  cases hplural : m.isPlural with
  | true =>
    simp only [wordingFor, hplural, Except.ok.injEq] at h
    subst h
    exact ⟨Or.inl rfl, rfl⟩
  | false =>
    simp only [wordingFor, hplural, Except.ok.injEq] at h
    subst h
    exact ⟨rfl, rfl⟩

/-- The first text of a wording with a single text. -/
theorem primary?_of_all (h : w.all = [v]) (hv : v ≠ "") : w.primary? = some v := by
  simp [Wording.primary?, Wording.texts, h, hv]

/-- A wording with a single text is not empty. -/
theorem isEmpty_of_all (h : w.all = [v]) (hv : v ≠ "") : w.isEmpty = false := by
  rw [Wording.isEmpty_eq_isNone_primary?, primary?_of_all h hv]
  rfl

theorem targetFor_of_all (h : w.all = [v]) (hv : v ≠ "") : targetFor false w = ⟨.finished, w⟩ := by
  rw [targetFor, isEmpty_of_all h hv]
  rfl

/-! ## An edit -/

/-- **What an edit does when it succeeds.**  It finds the message in the catalogue, makes a
wording of the values, sets the target, and writes the catalogue. -/
theorem exists_of_edit [Bytes.Registry]
    (h : Gives (edit input context source comment? values unfinished output? false) s u s') :
    ∃ bytes c m w c', s.disk.entry? input = some (.file bytes) ∧
      (formatOf input).read bytes = .ok c ∧ c.find? context source comment? = some m ∧
      wordingFor m values = .ok w ∧
      c.setTarget context source comment? (targetFor unfinished w) = .ok c' ∧
      s'.disk.entry? (output?.getD input) =
        some (.file (Bytes.ofText ((formatOf (output?.getD input)).render c'))) := by
  obtain ⟨c, t, hread, hedit⟩ := gives_bind_iff.1 h
  obtain ⟨⟨bytes, hentry, hcatalogue⟩, rfl⟩ := gives_readCatalogue_iff.1 hread
  split at hedit
  · exact absurd hedit (not_gives_throw _)
  · rename_i m hfind
    obtain ⟨w, t₁, hwording, hrest⟩ := gives_bind_iff.1 hedit
    obtain ⟨hw, rfl⟩ := gives_orFail_iff.1 hwording
    obtain ⟨c', t₂, hset, hfile⟩ := gives_bind_iff.1 hrest
    obtain ⟨hc', rfl⟩ := gives_orFail_iff.1 hset
    obtain ⟨_, t₃, hwrite, hsays⟩ := gives_bind_iff.1 hfile
    obtain ⟨_, t₄, hsay, hsay'⟩ := gives_bind_iff.1 hsays
    have hwritten := entry?_of_writeCatalogue hwrite
    obtain rfl := gives_say_iff.1 hsay
    obtain rfl := gives_say_iff.1 hsay'
    exact ⟨bytes, c, m, w, c', hentry, hcatalogue, hfind, hw, hc', hwritten⟩

/-! ## A look-up -/

/-- A look-up prints what is served from the catalogue that is read. -/
theorem outcome_lookup [Bytes.Registry] {d : Disk} {bytes : List UInt8} {c : Catalogue}
    (hentry : d.entry? input = some (.file bytes)) (hread : (formatOf input).read bytes = .ok c)
    (includeUnfinished : Bool) (count? : Option Int) (values : List String) :
    (lookup includeUnfinished input source context comment? count? values).outcome d =
      { disk := d
        output := served (.ofCatalogue includeUnfinished c) context source comment? count?
          values ++ "\n"
        ending := .done } := by
  have hgives : Gives (lookup includeUnfinished input source context comment? count? values)
      { disk := d } () ⟨d, "" ++ served (.ofCatalogue includeUnfinished c) context source
        comment? count? values ++ "\n", ""⟩ :=
    gives_bind_iff.2 ⟨c, _, gives_readCatalogue_iff.2 ⟨⟨bytes, hentry, hread⟩, rfl⟩,
      gives_say_iff.2 rfl⟩
  rw [outcome_of_gives hgives, String.empty_append]

/-- **What is edited is what is served.**  If one value that is not empty is set in a file,
then a look-up of the same text in the file prints it, whether drafts are served or not. -/
theorem lookup_after_edit [Bytes.Registry] {disk : Disk} {bytes : List UInt8} {c : Catalogue}
    (hformat : formatOf input = .ts) (hentry : disk.entry? input = some (.file bytes))
    (hread : Catalogue.ofFile bytes = .ok c) (hc : Distinct c.contexts)
    (htexts : ∀ s ∈ c.contents, IsContent s) (hv : v ≠ "") (hcontent : IsContent v)
    (hdone : ((edit input context source comment? [v] false none false).outcome disk).ending =
      .done) (includeUnfinished : Bool) :
    (lookup includeUnfinished input source context comment? none []).outcome
        ((edit input context source comment? [v] false none false).outcome disk).disk =
      { disk := ((edit input context source comment? [v] false none false).outcome disk).disk
        output := v ++ "\n"
        ending := .done } := by
  obtain ⟨s, hgives⟩ := exists_gives_of_done hdone
  obtain ⟨bytes', c₀, m, w, c', hentry', hread', hfind, hwording, hset, hwritten⟩ :=
    exists_of_edit hgives
  rw [hformat] at hread'
  rw [Option.getD_none, hformat] at hwritten
  obtain rfl := Disk.Entry.file.inj (Option.some.inj (hentry.symm.trans hentry'))
  obtain rfl := Except.ok.inj (hread.symm.trans hread')
  obtain ⟨hfits, hall⟩ := wordingFor_single hwording
  rw [targetFor_of_all hall hv] at hset
  have hw : ∀ s ∈ w.all, IsContent s := by
    rw [hall]
    exact List.forall_mem_singleton.2 hcontent
  obtain ⟨d, hd, hdistinct, hmem⟩ :=
    Catalogue.exists_read_of_setTarget hset hfind hc htexts hw hfits
  have hservable : Phrasebook.Servable includeUnfinished { m with target := ⟨.finished, w⟩ } :=
    ⟨isEmpty_of_all hall hv, Or.inl rfl⟩
  have hkey : m.key = .of source comment? := by
    obtain ⟨x, -, hx⟩ := Option.bind_eq_some_iff.1 hfind
    have hfirst : x.messages.find? (·.key == .of source comment?) = some m := hx
    simpa using List.find?_some hfirst
  have hserved : served (.ofCatalogue includeUnfinished d) context source comment? none [] = v := by
    have hfound := Phrasebook.entry?_ofCatalogue hdistinct hmem hservable
    have haddress : addressOf (context, { m with target := ⟨.finished, w⟩ }) =
        (context, .of source comment?) := congrArg (context, ·) hkey
    rw [haddress] at hfound
    show (((Phrasebook.ofCatalogue includeUnfinished d).text? context source comment?).getD
      source) = v
    rw [Phrasebook.text?, Phrasebook.wording?, hfound, Option.some_or, Option.bind_some,
      primary?_of_all hall hv, Option.getD_some]
  rw [outcome_of_gives hgives, outcome_lookup hwritten (by rw [hformat]; exact hd), hserved]

/-- A file in ISO-8859-5, as a letter in a remark shows, with a plural message that nobody has
worked on. -/
def waitingFile : List UInt8 :=
  Bytes.ofText "<?xml version=\"1.0\" encoding=\"iso-8859-5\"?><TS><!--" ++ 0xD1 ::
    Bytes.ofText "--><context><name>Q</name><message numerus=\"yes\"><source>a</source>" ++
    Bytes.ofText "<comment>b</comment></message></context></TS>"

/-- What is read from it. -/
def waiting : Catalogue where
  contexts := [{ name := "Q", messages := [
    { isPlural := true, source := "a", comment? := some "b" }] }]

/-- A disk with the file in a folder. -/
def shelf : Disk where
  folders := [["ts"]]
  files := [(["ts", "fr.ts"], waitingFile)]

theorem waiting_is_served :
    (lookup false "ts/fr.ts" "a" "Q" (some "b") none []).outcome
        ((edit "ts/fr.ts" "Q" "a" (some "b") ["<&>"] false none false).outcome shelf).disk =
      { disk := ((edit "ts/fr.ts" "Q" "a" (some "b") ["<&>"] false none false).outcome shelf).disk
        output := "<&>" ++ "\n"
        ending := .done } := by
  have hread : Catalogue.ofFile waitingFile = .ok waiting := by decide +kernel
  have hentry : shelf.entry? "ts/fr.ts" = some (.file waitingFile) := by decide +kernel
  exact lookup_after_edit (by decide +kernel) hentry hread (by decide) (by decide) (by decide)
    (by decide) (by decide +kernel) false

end Action
end Command
end Linguist
