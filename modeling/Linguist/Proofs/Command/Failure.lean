import Linguist.Proofs.Command.Session

/-!
# A run that fails leaves the files alone

A command reads, checks and computes, and if it writes a file, that is the last thing it does
that can fail.  So a run that does not do what it was asked for leaves every file as it was
and makes none, whatever is on the disk and in the settings (`run_leaves_alone`).  Folders
that were made on the way stay.  A request that only asks for something, an *inquiry*,
leaves the whole disk as it is, however it ends.

## How a command is taken apart

Two properties of actions carry the argument, and both are put together along the steps of a
command.

* An action *keeps* a part of the session if the part is the same in every session it
  leaves, whether it succeeds or fails (`Action.Keeps`).  All steps that read keep the disk;
  making folders keeps the files.
* An action is *cautious* if it keeps the files whenever it fails (`Action.Cautious`).  What
  comes first has to keep the files, and then a cautious rest makes the whole cautious
  (`Cautious.bind`); or what comes first is cautious and the rest cannot fail
  (`Cautious.andThen`), as when a command only says what it has written.
-/

namespace Linguist
namespace Command
namespace Action

variable {α β ε ι : Type} {x : Action α} {f : α → Action β} {s s' : Session} {failure : Failure}

/-- An action fails in a session for a cause, and leaves a session. -/
def Fails (x : Action α) (s : Session) (failure : Failure) (s' : Session) : Prop :=
  x.run s = .error failure s'

/-- **The first of two actions fails, or it succeeds and the second one fails.** -/
theorem fails_bind_iff :
    Fails (x >>= f) s failure s' ↔
      Fails x s failure s' ∨ ∃ a t, Gives x s a t ∧ Fails (f a) t failure s' := by
  rw [Fails, EStateM.run_bind, Fails]
  cases hx : x.run s with
  | ok a t =>
    constructor
    · exact fun h => Or.inr ⟨a, t, hx, h⟩
    · rintro (h | ⟨a', t', ha, h⟩)
      · cases h
      · obtain ⟨rfl, rfl⟩ := EStateM.Result.ok.inj (hx.symm.trans ha)
        exact h
  | error e t =>
    constructor
    · intro h
      obtain ⟨rfl, rfl⟩ := EStateM.Result.error.inj h
      exact Or.inl rfl
    · rintro (h | ⟨a', t', ha, -⟩)
      · obtain ⟨rfl, rfl⟩ := EStateM.Result.error.inj h
        rfl
      · cases hx.symm.trans ha

/-! ## Keeping a part of the session -/

section Keeps

variable {π : Type} {part : Session → π}

/-- The part is the same in every session that the action leaves. -/
structure Keeps (part : Session → π) (x : Action α) : Prop where
  gives : ∀ {s a s'}, Gives x s a s' → part s' = part s
  fails : ∀ {s failure s'}, Fails x s failure s' → part s' = part s

/-- Who keeps a part keeps what is in it. -/
theorem Keeps.of_part {ρ : Type} (h : Keeps part x) (g : π → ρ) : Keeps (g ∘ part) x :=
  ⟨fun hgives => congrArg g (h.gives hgives), fun hfails => congrArg g (h.fails hfails)⟩

theorem keeps_pure (a : α) : Keeps part (pure a : Action α) := by
  constructor
  · intro s a' s' h
    rw [(gives_pure_iff.1 h).2]
  · intro s e s' h
    cases h

theorem keeps_throw (e : Failure) : Keeps part (throw e : Action α) := by
  constructor
  · intro s a s' h
    exact absurd h (not_gives_throw e)
  · intro s e' s' h
    obtain ⟨-, rfl⟩ := EStateM.Result.error.inj h
    rfl

theorem keeps_get : Keeps part (get : Action Session) := by
  constructor
  · intro s a s' h
    obtain ⟨-, rfl⟩ := EStateM.Result.ok.inj h
    rfl
  · intro s e s' h
    cases h

/-- A change keeps what it does not change. -/
theorem keeps_modify {change : Session → Session} (h : ∀ s, part (change s) = part s) :
    Keeps part (modify change : Action PUnit) := by
  constructor
  · intro s a s' hgives
    obtain ⟨-, rfl⟩ := EStateM.Result.ok.inj hgives
    exact h s
  · intro s e s' hfails
    cases hfails

theorem Keeps.bind (hx : Keeps part x) (hf : ∀ a, Keeps part (f a)) : Keeps part (x >>= f) := by
  constructor
  · intro s b s' h
    obtain ⟨a, t, ha, hb⟩ := gives_bind_iff.1 h
    rw [(hf a).gives hb, hx.gives ha]
  · intro s e s' h
    rcases fails_bind_iff.1 h with h | ⟨a, t, ha, hb⟩
    · exact hx.fails h
    · rw [(hf a).fails hb, hx.gives ha]

theorem keeps_orFail (e : ε → Failure) (r : Except ε α) : Keeps part (orFail e r) := by
  cases r with
  | ok a => exact keeps_pure a
  | error fault => exact keeps_throw (e fault)

theorem keeps_mapM {g : ι → Action α} (hg : ∀ i, Keeps part (g i)) (is : List ι) :
    Keeps part (is.mapM g) := by
  induction is with
  | nil =>
    rw [List.mapM_nil]
    exact keeps_pure _
  | cons i is ih =>
    rw [List.mapM_cons]
    exact (hg i).bind fun _ => ih.bind fun _ => keeps_pure _

theorem keeps_forM {g : ι → Action PUnit} (hg : ∀ i, Keeps part (g i)) (is : List ι) :
    Keeps part (is.forM g) := by
  induction is with
  | nil => exact keeps_pure _
  | cons i is ih => exact (hg i).bind fun _ => ih

theorem keeps_option_mapM {g : ι → Action α} (hg : ∀ i, Keeps part (g i)) (i? : Option ι) :
    Keeps part (i?.mapM g) := by
  cases i? with
  | none => exact keeps_pure none
  | some i => exact (hg i).bind fun _ => keeps_pure _

end Keeps

/-! ## Steps that keep the disk -/

theorem keeps_say (line : String) : Keeps Session.disk (say line) :=
  keeps_modify fun _ => rfl

theorem keeps_remark (line : String) : Keeps Session.disk (remark line) :=
  keeps_modify fun _ => rfl

theorem keeps_sayLines (lines : List String) : Keeps Session.disk (sayLines lines) :=
  keeps_forM keeps_say lines

theorem keeps_readFile (path : String) : Keeps Session.disk (readFile path) := by
  refine keeps_get.bind fun s => ?_
  split
  · exact keeps_throw _
  · exact keeps_throw _
  · exact keeps_pure _

theorem keeps_readCatalogue [Bytes.Registry] (path : String) :
    Keeps Session.disk (readCatalogue path) :=
  (keeps_readFile path).bind fun _ => keeps_orFail _ _

theorem keeps_findSources (inputs : List String) : Keeps Session.disk (findSources inputs) :=
  keeps_get.bind fun _ => keeps_orFail _ _

theorem keeps_readAll [Bytes.Registry] (inputs : List String) :
    Keeps Session.disk (readAll inputs) :=
  (keeps_findSources inputs).bind fun files =>
    keeps_mapM (fun file => (keeps_readCatalogue file).bind fun _ => keeps_pure _) files

theorem keeps_readSettings (path? : Option String) : Keeps Session.disk (readSettings path?) := by
  refine keeps_get.bind fun s => ?_
  split
  · exact keeps_orFail _ _
  · exact keeps_throw _
  · exact keeps_pure _

theorem keeps_checkLanguage (language? : Option String) :
    Keeps Session.disk (checkLanguage language?) := by
  cases language? with
  | none => exact keeps_pure _
  | some code =>
    rw [checkLanguage]
    split
    · exact keeps_throw _
    · split
      · exact keeps_throw _
      · exact keeps_pure _

theorem keeps_namedFormat (name? : Option String) : Keeps Session.disk (namedFormat name?) :=
  keeps_option_mapM (fun _ => keeps_orFail _ _) name?

theorem keeps_inferred (format? : Option FileFormat) (path : String) :
    Keeps Session.disk (convert.inferred format? path) := by
  rw [convert.inferred]
  split
  · exact keeps_pure _
  · exact keeps_throw _

theorem keeps_readCode (base : Path) (file : String) : Keeps Session.disk (readCode base file) :=
  (keeps_readFile file).bind fun _ => keeps_get.bind fun _ => keeps_pure _

theorem keeps_collect (base : Path) (defaultContext : String) (files : List String) :
    Keeps Session.disk (collect base defaultContext files) :=
  (keeps_mapM (keeps_readCode base) files).bind fun _ => keeps_pure _

theorem keeps_readOrBegin [Bytes.Registry] (path : String) :
    Keeps Session.disk (readOrBegin path) := by
  refine keeps_get.bind fun s => ?_
  split
  · exact keeps_readCatalogue path
  · exact keeps_pure _

/-! ## Inquiries -/

section

variable [Bytes.Registry]

theorem keeps_view [Text.Measure] (input : String) (context? status? : Option String)
    (inFull : Bool) : Keeps Session.disk (view input context? status? inFull) := by
  refine (keeps_readCatalogue input).bind fun c => ?_
  refine (keeps_option_mapM (fun _ => keeps_orFail _ _) status?).bind fun status? => ?_
  refine (keeps_sayLines _).bind fun _ => ?_
  split
  · exact keeps_throw _
  · exact keeps_pure _

theorem keeps_stats (inputs : List String) (asJson : Bool) :
    Keeps Session.disk (stats inputs asJson) := by
  refine (keeps_readAll inputs).bind fun cs => ?_
  split
  · exact keeps_say _
  · exact keeps_say _

theorem keeps_validate (options : Audit.Options) (inputs : List String) (isStrict asJson : Bool) :
    Keeps Session.disk (validate options inputs isStrict asJson) := by
  refine (keeps_readAll inputs).bind fun cs => ?_
  dsimp only
  split
  · refine (keeps_say _).bind fun _ => ?_
    split
    · exact keeps_pure _
    · exact keeps_throw _
  · refine (keeps_sayLines _).bind fun _ => ?_
    split
    · exact keeps_pure _
    · exact keeps_throw _

theorem keeps_lookup (includeUnfinished : Bool) (input source context : String)
    (comment? : Option String) (count? : Option Int) (values : List String) :
    Keeps Session.disk (lookup includeUnfinished input source context comment? count? values) :=
  (keeps_readCatalogue input).bind fun _ => keeps_say _

end

/-! ## Cautious actions -/

/-- The files of a session. -/
def files (s : Session) : List (Address × List UInt8) :=
  s.disk.files

theorem Keeps.files (h : Keeps Session.disk x) : Keeps files x :=
  h.of_part Disk.files

/-- The action fails only while the files are as they were. -/
def Cautious (x : Action α) : Prop :=
  ∀ s failure s', Fails x s failure s' → files s' = files s

/-- The action succeeds in every session. -/
def Certain (x : Action α) : Prop :=
  ∀ s failure s', ¬ Fails x s failure s'

theorem certain_modify (change : Session → Session) :
    Certain (modify change : Action PUnit) := by
  intro s e s' h
  cases h

theorem certain_say (line : String) : Certain (say line) :=
  certain_modify _

theorem Certain.bind (hx : Certain x) (hf : ∀ a, Certain (f a)) : Certain (x >>= f) := by
  intro s e s' h
  rcases fails_bind_iff.1 h with h | ⟨a, t, -, h⟩
  · exact hx s e s' h
  · exact hf a t e s' h

theorem Certain.cautious (h : Certain x) : Cautious x :=
  fun s e s' hfails => absurd hfails (h s e s')

theorem Keeps.cautious (h : Keeps Action.files x) : Cautious x :=
  fun _ _ _ hfails => h.fails hfails

/-- What keeps the files may come before a cautious action. -/
theorem Cautious.bind (hx : Keeps Action.files x) (hf : ∀ a, Cautious (f a)) :
    Cautious (x >>= f) := by
  intro s e s' h
  rcases fails_bind_iff.1 h with h | ⟨a, t, ha, h⟩
  · exact hx.fails h
  · rw [hf a t e s' h, hx.gives ha]

/-- After a cautious action nothing may fail. -/
theorem Cautious.andThen (hx : Cautious x) (hf : ∀ a, Certain (f a)) : Cautious (x >>= f) := by
  intro s e s' h
  rcases fails_bind_iff.1 h with h | ⟨a, t, -, h⟩
  · exact hx s e s' h
  · exact absurd h (hf a t e s')

/-! ## Writing -/

theorem run_makeFolders (path : String) (s : Session) :
    (makeFolders path).run s =
      if (s.disk.makeParent path).2 then .ok () { s with disk := (s.disk.makeParent path).1 }
      else .error .noOutputFolder { s with disk := (s.disk.makeParent path).1 } := by
  cases h : (s.disk.makeParent path).2 <;>
    simp [makeFolders, h, EStateM.run_bind]

/-- Making folders keeps the files. -/
theorem keeps_makeFolders (path : String) : Keeps files (makeFolders path) := by
  constructor
  · intro s u s' h
    rw [Gives, run_makeFolders] at h
    split at h
    · obtain ⟨-, rfl⟩ := EStateM.Result.ok.inj h
      exact Disk.files_makeParent s.disk path
    · cases h
  · intro s e s' h
    rw [Fails, run_makeFolders] at h
    split at h
    · cases h
    · obtain ⟨-, rfl⟩ := EStateM.Result.error.inj h
      exact Disk.files_makeParent s.disk path

/-- Writing a file fails before the file is changed. -/
theorem cautious_writeFile (e : Obstacle → Failure) (path : String) (bytes : List UInt8) :
    Cautious (writeFile e path bytes) :=
  Cautious.bind keeps_get fun _ =>
    Cautious.bind (keeps_orFail _ _) fun _ => (certain_modify _).cautious

theorem cautious_writeCatalogue (path : String) (c : Catalogue) :
    Cautious (writeCatalogue path c) :=
  Cautious.bind (keeps_makeFolders path) fun _ => cautious_writeFile _ _ _

/-! ## Commands that may write -/

theorem cautious_extract (settings : Settings) (sources : List String) (output : String)
    (language? defaultContext? : Option String) (places? : Option Place.Style) :
    Cautious (extract settings sources output language? defaultContext? places?) := by
  refine Cautious.bind (keeps_checkLanguage language?).files fun _ => ?_
  refine Cautious.bind (keeps_makeFolders output) fun _ => ?_
  refine Cautious.bind (keeps_findSources sources).files fun found => ?_
  refine Cautious.bind (keeps_collect _ _ found).files fun extracted => ?_
  exact (cautious_writeCatalogue _ _).andThen fun _ => certain_say _

section

variable [Bytes.Registry]

/-- A comparison that is only printed is an inquiry. -/
theorem keeps_diff (before after : String) (asJson : Bool) :
    Keeps Session.disk (diff before after asJson none) :=
  (keeps_pure _).bind fun _ => (keeps_readCatalogue before).bind fun _ =>
    (keeps_readCatalogue after).bind fun _ => keeps_say _

theorem cautious_diff (before after : String) (asJson : Bool) (output? : Option String) :
    Cautious (diff before after asJson output?) := by
  cases output? with
  | none => exact (keeps_diff before after asJson).files.cautious
  | some output =>
    exact Cautious.bind (keeps_makeFolders output) fun _ =>
      Cautious.bind (keeps_readCatalogue before).files fun _ =>
        Cautious.bind (keeps_readCatalogue after).files fun _ => cautious_writeFile _ _ _

theorem cautious_convert (input output : String)
    (inputFormat? outputFormat? language? : Option String) :
    Cautious (convert input output inputFormat? outputFormat? language?) := by
  refine Cautious.bind (keeps_readFile input).files fun bytes => ?_
  refine Cautious.bind (keeps_makeFolders output) fun _ => ?_
  refine Cautious.bind (keeps_checkLanguage language?).files fun _ => ?_
  refine Cautious.bind (keeps_namedFormat inputFormat?).files fun _ => ?_
  refine Cautious.bind (keeps_namedFormat outputFormat?).files fun _ => ?_
  refine Cautious.bind (keeps_inferred _ input).files fun _ => ?_
  refine Cautious.bind (keeps_inferred _ output).files fun _ => ?_
  refine Cautious.bind (keeps_orFail _ _) fun _ => ?_
  exact (cautious_writeFile _ _ _).andThen fun _ => certain_say _

/-- An edit that is only tried is an inquiry. -/
theorem keeps_edit (input context source : String) (comment? : Option String)
    (values : List String) (unfinished : Bool) (output? : Option String) :
    Keeps Session.disk (edit input context source comment? values unfinished output? true) := by
  refine (keeps_readCatalogue input).bind fun c => ?_
  split
  · exact keeps_throw _
  · exact (keeps_orFail _ _).bind fun _ => (keeps_orFail _ _).bind fun _ => keeps_say _

theorem cautious_edit (input context source : String) (comment? : Option String)
    (values : List String) (unfinished : Bool) (output? : Option String) (dryRun : Bool) :
    Cautious (edit input context source comment? values unfinished output? dryRun) := by
  cases dryRun with
  | true => exact (keeps_edit _ _ _ _ _ _ _).files.cautious
  | false =>
    refine Cautious.bind (keeps_readCatalogue input).files fun c => ?_
    split
    · exact (keeps_throw _).cautious
    · refine Cautious.bind (keeps_orFail _ _) fun _ => ?_
      refine Cautious.bind (keeps_orFail _ _) fun _ => ?_
      refine (cautious_writeCatalogue _ _).andThen fun _ => ?_
      exact (certain_say _).bind fun _ => certain_say _

theorem cautious_normalize (input : String) (output? : Option String) (places : Place.Style)
    (sort : Bool) : Cautious (normalize input output? places sort) :=
  Cautious.bind (keeps_readCatalogue input).files fun _ =>
    (cautious_writeCatalogue _ _).andThen fun _ => certain_say _

theorem cautious_importTable (input table : String) (markFinished : Bool)
    (output? : Option String) : Cautious (importTable input table markFinished output?) := by
  refine Cautious.bind (keeps_readFile table).files fun bytes => ?_
  refine Cautious.bind (keeps_readCatalogue input).files fun c => ?_
  refine Cautious.bind (keeps_orFail _ _) fun rows => ?_
  refine Cautious.bind (keeps_orFail _ _) fun report => ?_
  refine Cautious.bind (keeps_forM (fun _ => keeps_remark _) report.unknown).files fun _ => ?_
  refine (cautious_writeCatalogue _ _).andThen fun _ => ?_
  exact (certain_say _).bind fun _ => certain_say _

theorem cautious_update (settings : Settings) (sources : List String) (catalogue : String)
    (language? : Option String) (dropVanished : Bool) (places? : Option Place.Style)
    (asJson : Bool) :
    Cautious (update settings sources catalogue language? dropVanished places? asJson) := by
  refine Cautious.bind (keeps_checkLanguage language?).files fun _ => ?_
  refine Cautious.bind (keeps_findSources sources).files fun found => ?_
  refine Cautious.bind (keeps_readOrBegin catalogue).files fun c => ?_
  refine Cautious.bind (keeps_collect _ _ found).files fun extracted => ?_
  exact (cautious_writeCatalogue _ _).andThen fun _ => certain_say _

end

/-! ## Outcomes -/

/-- An action that keeps the disk has the disk as its outcome. -/
theorem disk_outcome {x : Action Unit} (h : Keeps Session.disk x) (d : Disk) :
    (x.outcome d).disk = d := by
  rw [outcome]
  split
  · rename_i hrun
    exact h.gives hrun
  · rename_i hrun
    exact h.fails hrun

/-- A cautious action that does not succeed leaves the files as they were. -/
theorem files_outcome {x : Action Unit} (h : Cautious x) {d : Disk}
    (hending : (x.outcome d).ending ≠ .done) : (x.outcome d).disk.files = d.files := by
  rw [outcome] at hending ⊢
  split at hending
  · exact absurd rfl hending
  · rename_i hrun
    exact h _ _ _ hrun

end Action

/-! ## Requests -/

/-- Whether a request only asks for something. -/
def Request.isInquiry : Request → Bool
  | .view .. | .stats .. | .validate .. | .lookup .. | .completions .. => true
  | .diff _ _ _ output? => output?.isNone
  | .edit _ _ _ _ _ _ _ dryRun => dryRun
  | .convert .. | .extract .. | .update .. | .normalize .. | .importTable .. => false

open Linguist.Command.Action

section

variable [Bytes.Registry] [Text.Measure]

theorem Request.cautious_action (settings : Settings) (r : Request) :
    Cautious (r.action settings) := by
  cases r with
  | view => exact (keeps_view _ _ _ _).files.cautious
  | stats => exact (keeps_stats _ _).files.cautious
  | validate => exact (keeps_validate _ _ _ _).files.cautious
  | lookup => exact (keeps_lookup _ _ _ _ _ _ _).files.cautious
  | completions => exact (keeps_pure _).cautious
  | diff => exact cautious_diff _ _ _ _
  | convert => exact cautious_convert _ _ _ _ _
  | edit => exact cautious_edit _ _ _ _ _ _ _ _
  | extract => exact cautious_extract _ _ _ _ _ _
  | update => exact cautious_update _ _ _ _ _ _ _
  | normalize => exact cautious_normalize _ _ _ _
  | importTable => exact cautious_importTable _ _ _ _

theorem Request.keeps_action (settings : Settings) {r : Request} (h : r.isInquiry = true) :
    Keeps Session.disk (r.action settings) := by
  cases r with
  | view => exact keeps_view _ _ _ _
  | stats => exact keeps_stats _ _
  | validate => exact keeps_validate _ _ _ _
  | lookup => exact keeps_lookup _ _ _ _ _ _ _
  | completions => exact keeps_pure _
  | diff before after asJson output? =>
    obtain rfl : output? = none := by simpa [isInquiry] using h
    exact keeps_diff before after asJson
  | edit input context source comment? values unfinished output? dryRun =>
    obtain rfl : dryRun = true := h
    exact keeps_edit input context source comment? values unfinished output?
  | _ => cases h

end

/-- **A run that fails leaves the files alone, and an inquiry leaves the disk alone.**  Where a
run gives back another number than zero, every file is as it was, and no file was made.
Where only something was asked for, the disk is as it was, whether the run failed or not. -/
theorem run_leaves_alone [Bytes.Registry] [Text.Measure] (disk : Disk) (words : List String) :
    ((run disk words).ending.exitCode ≠ 0 → (run disk words).disk.files = disk.files) ∧
      ∀ i, understand words = .ok i → i.request.isInquiry = true →
        (run disk words).disk = disk := by
  cases hwords : understand words with
  | error fault =>
    rw [run, hwords]
    exact ⟨fun _ => rfl, fun i hi => by cases hi⟩
  | ok i =>
    have hrun : run disk words = i.action.outcome disk := by rw [run, hwords]
    rw [hrun]
    constructor
    · intro hcode
      have haction : Cautious i.action :=
        Cautious.bind (keeps_readSettings i.settings?).files fun settings =>
          i.request.cautious_action settings
      refine files_outcome haction fun hdone => hcode ?_
      rw [hdone]
      rfl
    · intro i' hi' hinquiry
      obtain rfl := Except.ok.inj hi'
      exact disk_outcome ((keeps_readSettings i.settings?).bind fun settings =>
        Request.keeps_action settings hinquiry) disk

/-- A disk with a catalogue in ISO-8859-5, and with a table for it whose second row names a form
that there is not.  By then the first row has been applied. -/
def desk : Disk where
  files := [
    (["fr.ts"], Bytes.ofText "<?xml version=\"1.0\" encoding=\"iso-8859-5\"?><TS><!--" ++ 0xD1 ::
      Bytes.ofText "--><context><name>Q</name><message><source>a</source></message></context></TS>"),
    (["fr.csv"], Bytes.ofText "context,source,translation,form\nQ,a,x,\nQ,a,x,dual\n")]

theorem desk_is_left_alone :
    (run desk ["import", "-i", "fr.ts", "--csv", "fr.csv"]).ending.exitCode = 1 ∧
      (run desk ["import", "-i", "fr.ts", "--csv", "fr.csv"]).disk.files = desk.files ∧
      (run desk ["edit", "-i", "fr.ts", "--context", "Q", "--source", "a", "--value", "x",
        "--dry-run"]).disk = desk := by
  have hcode : (run desk ["import", "-i", "fr.ts", "--csv", "fr.csv"]).ending.exitCode = 1 := by
    decide +kernel
  refine ⟨hcode, ?_, ?_⟩
  · refine (run_leaves_alone desk _).1 ?_
    rw [hcode]
    decide
  · exact (run_leaves_alone desk _).2
      ⟨.edit "fr.ts" "Q" "a" none ["x"] false none true, none⟩ rfl rfl

end Command
end Linguist
