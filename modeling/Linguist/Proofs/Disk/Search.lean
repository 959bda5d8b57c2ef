import Mathlib.Data.List.Nodup
import Mathlib.Data.String.Basic
import Linguist.Disk.Search
import Linguist.Proofs.Command.Session
import Linguist.Proofs.Path

/-!
# Which files are listed, and how often

The paths that are found for all inputs are listed in the order of their parts, each path once
(`findFiles_spec`).  A path is what its parts are: repeated slashes and dots between names make no
difference, and two texts of one path are listed as one.  But a file has more than one path.  A dot
at the beginning is a part, and so is every step up, so that `a.cpp` and `./a.cpp` are two paths,
which come to the same names only when they are followed.

So a file is listed once if and only if the paths that were found for it are all the same path
(`listed_once_iff`), for instance if all paths are made of names and start at the same point.  And
what is listed twice is scanned twice under one label, since the label of a file is the way to the
names it has, and no two files share one (`location_injective`).

## Paths in order

Parts are compared by their kind and then by their name, and lists of parts as words are.  This
comparison tells all paths apart, so a list that rises has no path twice.
-/

namespace Linguist

/-! ## The order of paths -/

/-- The kinds of parts, in order. -/
def Part.kind : Part → Nat
  | .here => 0
  | .up => 1
  | .name _ => 2

/-- The name of a part that is one. -/
def Part.text : Part → String
  | .name s => s
  | _ => ""

theorem Part.order_eq : Part.order = compareLex (compareOn Part.kind) (compareOn Part.text) := by
  funext p q
  cases p <;> cases q <;> rfl

instance : Ord Part :=
  ⟨Part.order⟩

instance : Std.TransOrd Part := by
  show Std.TransCmp Part.order
  rw [Part.order_eq]
  infer_instance

instance : Std.LawfulEqOrd Part where
  eq_of_compare {p q} h := by
    change p.order q = .eq at h
    rw [Part.order_eq, compareLex, Ordering.then_eq_eq] at h
    obtain ⟨hkind, htext⟩ := h
    have hkind' : p.kind = q.kind := Std.LawfulEqCmp.eq_of_compare hkind
    have htext' : p.text = q.text := Std.LawfulEqCmp.eq_of_compare htext
    cases p <;> cases q <;> simp_all [Part.kind, Part.text]

namespace Path

theorem orderParts_eq (ps qs : List Part) : order.orderParts ps qs = compare ps qs := by
  induction ps generalizing qs with
  | nil => cases qs <;> rfl
  | cons p ps ih =>
    cases qs with
    | nil => rfl
    | cons q qs =>
      rw [order.orderParts, ih]
      exact List.compareLex_cons_cons.symm

theorem order_eq : order = compareLex (compareOn fun p => !p.isAbsolute) (compareOn parts) := by
  funext p q
  obtain ⟨pAbsolute, ps⟩ := p
  obtain ⟨qAbsolute, qs⟩ := q
  have hparts := orderParts_eq ps qs
  cases pAbsolute <;> cases qAbsolute <;>
    simp only [order, compareLex, compareOn, hparts] <;> rfl

instance : Std.TransCmp order := by
  rw [order_eq]
  infer_instance

instance : Std.LawfulEqCmp order where
  eq_of_compare {p q} h := by
    rw [order_eq, compareLex, Ordering.then_eq_eq] at h
    obtain ⟨habsolute, hparts⟩ := h
    obtain ⟨pAbsolute, ps⟩ := p
    obtain ⟨qAbsolute, qs⟩ := q
    have habsolute' : (!pAbsolute) = !qAbsolute := Std.LawfulEqCmp.eq_of_compare habsolute
    have hparts' : ps = qs := Std.LawfulEqCmp.eq_of_compare hparts
    rw [Bool.not_inj habsolute', hparts']

end Path

namespace Disk

/-! ## Lists of paths -/

/-- The paths are in order, each once. -/
def Rising (paths : List String) : Prop :=
  paths.Pairwise fun p q => (Path.ofText p).order (Path.ofText q) = .lt

theorem Rising.nodup {paths : List String} (h : Rising paths) :
    (paths.map Path.ofText).Nodup := by
  rw [List.Nodup, List.pairwise_map]
  refine h.imp fun {p q} hlt heq => ?_
  rw [heq, @Std.ReflCmp.compare_self _ Path.order] at hlt
  cases hlt

/-- One path more is there, and what was there before. -/
theorem mem_map_insertPath {path : String} {x : Path} {paths : List String} :
    x ∈ (insertPath path paths).map Path.ofText ↔
      x = Path.ofText path ∨ x ∈ paths.map Path.ofText := by
  induction paths with
  | nil => simp [insertPath]
  | cons p rest ih =>
    rw [insertPath]
    split
    · rw [List.map_cons, List.mem_cons]
    · rename_i heq
      have hsame := Std.LawfulEqCmp.eq_of_compare heq
      rw [hsame, List.map_cons, List.mem_cons, ← or_assoc, or_self]
    · rw [List.map_cons, List.mem_cons, ih, List.map_cons, List.mem_cons, or_left_comm]

theorem rising_insertPath {paths : List String} (h : Rising paths) (path : String) :
    Rising (insertPath path paths) := by
  induction paths with
  | nil => exact List.pairwise_singleton _ _
  | cons p rest ih =>
    obtain ⟨hp, hrest⟩ := List.pairwise_cons.1 h
    rw [insertPath]
    split
    · rename_i hlt
      exact List.pairwise_cons.2 ⟨List.forall_mem_cons.2 ⟨hlt, fun q hq =>
        Std.TransCmp.lt_trans hlt (hp q hq)⟩, h⟩
    · exact h
    · rename_i hgt
      refine List.pairwise_cons.2 ⟨fun q hq => ?_, ih hrest⟩
      -- the new path stands behind the first one, and so do all others
      have hmem : Path.ofText q ∈ (insertPath path rest).map Path.ofText :=
        List.mem_map_of_mem hq
      rcases mem_map_insertPath.1 hmem with hq' | hq'
      · rw [hq']
        exact Std.OrientedCmp.gt_iff_lt.1 hgt
      · obtain ⟨r, hr, hqr⟩ := List.mem_map.1 hq'
        rw [← hqr]
        exact hp r hr

theorem rising_foldl_insertPath {seen : List String} (h : Rising seen) (found : List String) :
    Rising (found.foldl (fun seen path => insertPath path seen) seen) := by
  induction found generalizing seen with
  | nil => exact h
  | cons path found ih => exact ih (rising_insertPath h path)

theorem mem_map_foldl_insertPath {seen found : List String} {x : Path} :
    x ∈ (found.foldl (fun seen path => insertPath path seen) seen).map Path.ofText ↔
      x ∈ seen.map Path.ofText ∨ x ∈ found.map Path.ofText := by
  induction found generalizing seen with
  | nil => simp
  | cons path found ih =>
    rw [List.foldl_cons, ih, mem_map_insertPath, List.map_cons, List.mem_cons, or_assoc,
      or_left_comm]

/-! ## Finding files -/

variable {d : Disk} {inputs listed : List String}

/-- A path that is found for one of the inputs. -/
def IsFound (d : Disk) (inputs : List String) (path : String) : Prop :=
  ∃ input ∈ inputs, ∃ found, d.filesOf input = .ok found ∧ path ∈ found

/-- **The listed paths are those that were found,** in order and each once. -/
theorem findFiles_spec (h : d.findFiles inputs = .ok listed) :
    Rising listed ∧ ∀ x, x ∈ listed.map Path.ofText ↔
      ∃ path, d.IsFound inputs path ∧ x = Path.ofText path := by
  suffices hall : ∀ seen : List String, Rising seen →
      inputs.foldlM (fun seen input => (d.filesOf input).map fun found =>
        found.foldl (fun seen path => insertPath path seen) seen) seen = .ok listed →
      Rising listed ∧ ∀ x, x ∈ listed.map Path.ofText ↔
        x ∈ seen.map Path.ofText ∨ ∃ path, d.IsFound inputs path ∧ x = Path.ofText path by
    obtain ⟨hrising, hmem⟩ := hall [] List.Pairwise.nil h
    exact ⟨hrising, fun x => by simpa using hmem x⟩
  clear h
  induction inputs with
  | nil =>
    intro seen hseen h
    obtain rfl := Except.ok.inj h
    exact ⟨hseen, fun x => by simp [IsFound]⟩
  | cons input inputs ih =>
    intro seen hseen h
    cases hfound : d.filesOf input with
    | error fault =>
      rw [List.foldlM_cons, hfound] at h
      cases h
    | ok found =>
      rw [List.foldlM_cons, hfound] at h
      obtain ⟨hrising, hmem⟩ := ih _ (rising_foldl_insertPath hseen found) h
      refine ⟨hrising, fun x => ?_⟩
      rw [hmem, mem_map_foldl_insertPath, or_assoc]
      refine or_congr_right ?_
      constructor
      · rintro (hx | ⟨path, ⟨other, hother, hpath⟩, rfl⟩)
        · obtain ⟨path, hpath, rfl⟩ := List.mem_map.1 hx
          exact ⟨path, ⟨input, List.mem_cons_self, found, hfound, hpath⟩, rfl⟩
        · exact ⟨path, ⟨other, List.mem_cons_of_mem input hother, hpath⟩, rfl⟩
      · rintro ⟨path, ⟨other, hother, found', hfound', hpath⟩, rfl⟩
        rcases List.mem_cons.1 hother with rfl | hother
        · rw [hfound] at hfound'
          obtain rfl := Except.ok.inj hfound'
          exact Or.inl (List.mem_map_of_mem hpath)
        · exact Or.inr ⟨path, ⟨other, hother, found', hfound', hpath⟩, rfl⟩

/-! ## One file, several paths -/

/-- The names from the root that a path has when it is followed without a look at the disk. -/
def namesOf (d : Disk) (path : String) : List String :=
  (Path.ofText path).normal d.directory

/-- The label under which a file is scanned for a catalogue in some folder. -/
def label (d : Disk) (base : Path) (path : String) : String :=
  Path.location d.directory base (Path.ofText path)

/-- A path of nothing but names. -/
def IsPlain (p : Path) : Prop :=
  ∀ part ∈ p.parts, ∃ s, part = .name s

theorem exists_names_of_isPlain {p : Path} (h : IsPlain p) :
    ∃ names : List String, p.parts = names.map .name := by
  obtain ⟨isAbsolute, parts⟩ := p
  induction parts with
  | nil => exact ⟨[], rfl⟩
  | cons part parts ih =>
    obtain ⟨⟨s, hs⟩, hparts⟩ := List.forall_mem_cons.1 h
    obtain ⟨names, hnames⟩ := ih hparts
    exact ⟨s :: names, by rw [List.map_cons, ← hs]; exact congrArg (part :: ·) hnames⟩

/-- Paths of names from one point lead to different names unless they are the same path. -/
theorem eq_of_normal_eq {directory : List String} {p q : Path}
    (hstart : p.isAbsolute = q.isAbsolute) (hp : IsPlain p) (hq : IsPlain q)
    (h : p.normal directory = q.normal directory) : p = q := by
  obtain ⟨names, hnames⟩ := exists_names_of_isPlain hp
  obtain ⟨others, hothers⟩ := exists_names_of_isPlain hq
  obtain ⟨pAbsolute, ps⟩ := p
  obtain ⟨qAbsolute, qs⟩ := q
  dsimp only at hstart hnames hothers
  subst hstart hnames hothers
  rw [Path.normal, Path.normal, Path.follow_names, Path.follow_names] at h
  rw [List.append_cancel_left h]

/-- The way from a base leads to where it was made for. -/
theorem follow_between (base : List String) {target : List String}
    (h : ∀ name ∈ target, Path.IsName name) :
    Path.follow base (Path.ofText (String.intercalate "/" (Path.between base target))).parts =
      target := by
  obtain ⟨common, own, rest, hbase, htarget, hway⟩ := Path.exists_between base target
  have hrest : ∀ name ∈ rest, Path.IsName name := fun name hname =>
    h name (htarget ▸ List.mem_append_right common hname)
  rw [hway, Path.ofText_way own.length hrest, hbase, Path.follow_append, Path.follow_up,
    Path.follow_names, htarget]

/-- **No two files share a label.** -/
theorem location_injective {d : Disk} (hdirectory : ∀ name ∈ d.directory, Path.IsName name)
    (base : Path) {p q : String} : d.label base p = d.label base q ↔ d.namesOf p = d.namesOf q := by
  refine ⟨fun h => ?_, fun h => ?_⟩
  · rw [namesOf, namesOf,
      ← follow_between (base.normal d.directory) (Path.forall_isName_normal hdirectory p),
      ← follow_between (base.normal d.directory) (Path.forall_isName_normal hdirectory q)]
    exact congrArg (fun s => Path.follow _ (Path.ofText s).parts) h
  · rw [namesOf, namesOf] at h
    rw [label, label, Path.location, Path.location, h]

/-- What is told apart alike repeats alike. -/
theorem nodup_map_congr {α β γ : Type} {f : α → β} {g : α → γ} (h : ∀ a b, f a = f b ↔ g a = g b)
    (as : List α) : (as.map f).Nodup ↔ (as.map g).Nodup := by
  rw [List.Nodup, List.Nodup, List.pairwise_map, List.pairwise_map]
  exact List.Pairwise.iff fun a b => not_congr (h a b)

/-- What is read of a list of files, in a session that stays as it is: each under its label. -/
theorem labels_of_gives {base : Path} {files : List String} {codes : List (String × String)}
    {s s' : Command.Session}
    (h : Command.Action.Gives (files.mapM (Command.Action.readCode base)) s codes s') :
    codes.map Prod.fst = files.map (s.disk.label base) ∧ s' = s := by
  induction files generalizing codes s s' with
  | nil =>
    obtain ⟨rfl, rfl⟩ := Command.Action.gives_pure_iff.1 h
    exact ⟨rfl, rfl⟩
  | cons file files ih =>
    rw [List.mapM_cons, Command.Action.gives_bind_iff] at h
    obtain ⟨code, t, hcode, hrest⟩ := h
    obtain ⟨bytes, t₁, hfile, hlabel⟩ := Command.Action.gives_bind_iff.1 hcode
    obtain ⟨-, rfl⟩ := Command.Action.gives_readFile_iff.1 hfile
    obtain ⟨t₂, t₃, hget, hreturn⟩ := Command.Action.gives_bind_iff.1 hlabel
    obtain ⟨rfl, rfl⟩ := EStateM.Result.ok.inj hget
    obtain ⟨rfl, rfl⟩ := Command.Action.gives_pure_iff.1 hreturn
    obtain ⟨others, t₄, hothers, hlast⟩ := Command.Action.gives_bind_iff.1 hrest
    obtain ⟨rfl, rfl⟩ := Command.Action.gives_pure_iff.1 hlast
    obtain ⟨hlabels, rfl⟩ := ih hothers
    exact ⟨congrArg _ hlabels, rfl⟩

/-- **A file is listed as often as paths were found for it.**  The paths of all inputs are listed in
order, each path once.  So no file is listed twice if and only if paths that were found for one
file are one path; this is so if all paths are of names, and all absolute or all relative.  And
a label is scanned twice, for whatever folder, if and only if a file is listed twice. -/
theorem listed_once_iff (hdirectory : ∀ name ∈ d.directory, Path.IsName name)
    (h : d.findFiles inputs = .ok listed) :
    Rising listed ∧
    (∀ x, x ∈ listed.map Path.ofText ↔ ∃ path, d.IsFound inputs path ∧ x = Path.ofText path) ∧
    ((listed.map d.namesOf).Nodup ↔ ∀ p q, d.IsFound inputs p → d.IsFound inputs q →
      d.namesOf p = d.namesOf q → Path.ofText p = Path.ofText q) ∧
    ((∃ isAbsolute, ∀ p, d.IsFound inputs p →
      (Path.ofText p).isAbsolute = isAbsolute ∧ IsPlain (Path.ofText p)) →
        (listed.map d.namesOf).Nodup) ∧
    ∀ base codes output notes s', Command.Action.Gives
      (listed.mapM (Command.Action.readCode base)) ⟨d, output, notes⟩ codes s' →
        ((codes.map Prod.fst).Nodup ↔ (listed.map d.namesOf).Nodup) := by
  obtain ⟨hrising, hmem⟩ := findFiles_spec h
  have honce : (listed.map d.namesOf).Nodup ↔ ∀ p q, d.IsFound inputs p → d.IsFound inputs q →
      d.namesOf p = d.namesOf q → Path.ofText p = Path.ofText q := by
    have hmap : listed.map d.namesOf =
        (listed.map Path.ofText).map (Path.normal d.directory) := by
      rw [List.map_map]
      rfl
    rw [hmap, List.nodup_map_iff_inj_on hrising.nodup]
    constructor
    · intro hinj p q hp hq
      exact hinj _ ((hmem _).2 ⟨p, hp, rfl⟩) _ ((hmem _).2 ⟨q, hq, rfl⟩)
    · intro hinj x hx y hy hxy
      obtain ⟨p, hp, rfl⟩ := (hmem x).1 hx
      obtain ⟨q, hq, rfl⟩ := (hmem y).1 hy
      exact hinj p q hp hq hxy
  refine ⟨hrising, hmem, honce, ?_, fun base codes output notes s' hcodes => ?_⟩
  · rintro ⟨isAbsolute, hplain⟩
    refine honce.2 fun p q hp hq hpq => ?_
    obtain ⟨hpStart, hpPlain⟩ := hplain p hp
    obtain ⟨hqStart, hqPlain⟩ := hplain q hq
    exact eq_of_normal_eq (hpStart.trans hqStart.symm) hpPlain hqPlain hpq
  · rw [(labels_of_gives hcodes).1]
    exact nodup_map_congr (fun p q => location_injective hdirectory base) listed

/-- A folder with two files of code. -/
def drawer : Disk where
  directory := ["work"]
  files := [(["work", "src", "a.cpp"], "tr(\"Open\")".toUTF8.toList),
    (["work", "src", "b.cpp"], "tr(\"Close\")".toUTF8.toList)]
  folders := [["work", "src"]]

/-- A pattern and a path with a slash and a dot too many find three paths to two files, which are
scanned under two labels. -/
theorem listed_once_drawer :
    (∀ name ∈ drawer.directory, Path.IsName name) ∧
    drawer.findFiles ["src/*.cpp", "src/.//a.cpp"] = .ok ["src/a.cpp", "src/b.cpp"] ∧
    ∃ codes s', Command.Action.Gives
      (["src/a.cpp", "src/b.cpp"].mapM (Command.Action.readCode ⟨false, []⟩)) ⟨drawer, "", ""⟩
        codes s' ∧ (codes.map Prod.fst).Nodup := by
  have hdirectory : ∀ name ∈ drawer.directory, Path.IsName name := by decide +kernel
  have h : drawer.findFiles ["src/*.cpp", "src/.//a.cpp"] = .ok ["src/a.cpp", "src/b.cpp"] := by
    decide +kernel
  obtain ⟨-, -, -, -, hlabels⟩ := listed_once_iff hdirectory h
  refine ⟨hdirectory, h, ?_⟩
  cases hrun : (["src/a.cpp", "src/b.cpp"].mapM (Command.Action.readCode ⟨false, []⟩)).run
      ⟨drawer, "", ""⟩ with
  | ok codes s' => exact ⟨codes, s', hrun, (hlabels _ _ _ _ _ hrun).2 (by decide +kernel)⟩
  | error failure s' =>
    have hsucceeds : (match (["src/a.cpp", "src/b.cpp"].mapM
        (Command.Action.readCode ⟨false, []⟩)).run ⟨drawer, "", ""⟩ with
      | .ok _ _ => true
      | .error _ _ => false) = true := by decide +kernel
    rw [hrun] at hsucceeds
    cases hsucceeds

/-- A dot at the beginning makes another path of the same file, and the file is listed twice. -/
theorem listed_twice :
    drawer.findFiles ["src/a.cpp", "./src/a.cpp"] = .ok ["./src/a.cpp", "src/a.cpp"] ∧
    drawer.namesOf "./src/a.cpp" = drawer.namesOf "src/a.cpp" ∧
    ¬ ∀ (d : Disk) (inputs listed : List String), (∀ name ∈ d.directory, Path.IsName name) →
      d.findFiles inputs = .ok listed → (listed.map d.namesOf).Nodup := by
  have hlisted :
      drawer.findFiles ["src/a.cpp", "./src/a.cpp"] = .ok ["./src/a.cpp", "src/a.cpp"] := by
    decide +kernel
  have hsame : drawer.namesOf "./src/a.cpp" = drawer.namesOf "src/a.cpp" := by decide +kernel
  refine ⟨hlisted, hsame, fun hall => ?_⟩
  have hnodup := hall drawer _ _ (by decide +kernel) hlisted
  rw [List.map_cons, List.map_cons, hsame, List.nodup_cons] at hnodup
  exact hnodup.1 List.mem_cons_self

end Disk
end Linguist
