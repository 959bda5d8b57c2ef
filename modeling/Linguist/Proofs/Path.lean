import Linguist.Path

/-!
# From one place to another and back

The location of a path as seen from a base leads back to the path: it goes up first, and
appended to the base it has the normal form of the path, and no shorter relative path has
(`relativeLocation_leads_back`).  Both paths are texts, with any mix of dots, repeated slashes
and slashes at the end, absolute or relative to a directory.

## Texts and parts

The normal form speaks of parts, and appending joins texts.  What connects them is that the parts
of two joined texts are the parts of the one and then of the other (`partsOf_join`), so that
normalizing a joined path is following the second from the normal form of the first
(`normal_join`).  The names of a normal form are names (`IsName`), and texts made of them are
cut into the same names again.

## No shorter way

Each step of a path changes the length of the way that is left by one at most
(`length_between_step`).  A path that leads from the base to its end has nothing left there, so
it has as many steps as the way is long, at least.
-/

namespace Linguist
namespace Path

/-! ## Names -/

/-- A text that stands for a name: there is something in it but no slash, and it is not one of
the two that stand for a step. -/
def IsName (s : String) : Prop :=
  s ≠ "" ∧ s ≠ "." ∧ s ≠ ".." ∧ '/' ∉ s.toList

instance (s : String) : Decidable (IsName s) :=
  inferInstanceAs (Decidable (_ ∧ _))

theorem toList_eq_iff {s : String} {cs : List Char} : s.toList = cs ↔ s = String.ofList cs := by
  constructor
  · rintro rfl
    exact String.ofList_toList.symm
  · rintro rfl
    exact String.toList_ofList

theorem IsName.partOf?_toList {s : String} (h : IsName s) : partOf? s.toList = some (.name s) := by
  obtain ⟨hempty, hhere, hup, -⟩ := h
  have hempty' : s.toList ≠ [] := fun heq => hempty (toList_eq_iff.1 heq)
  have hhere' : s.toList ≠ ['.'] := fun heq => hhere (toList_eq_iff.1 heq)
  have hup' : s.toList ≠ ['.', '.'] := fun heq => hup (toList_eq_iff.1 heq)
  simp [partOf?, hempty', hhere', hup']

/-- A segment has no slash, and so its name is a name. -/
theorem isName_of_partOf? {cs : List Char} {s : String} (hcs : '/' ∉ cs)
    (h : partOf? cs = some (.name s)) : IsName s := by
  unfold partOf? at h
  split at h
  · cases h
  · rename_i hhere
    split at h
    · cases h
    · rename_i hup
      obtain rfl := Part.name.inj (Option.some.inj h)
      simp only [Bool.or_eq_true, List.isEmpty_iff, beq_iff_eq, not_or] at hhere hup
      have htext (t : String) (heq : String.ofList cs = t) : cs = t.toList := by
        rw [← heq, String.toList_ofList]
      refine ⟨fun heq => hhere.1 (htext _ heq), fun heq => hhere.2 (htext _ heq),
        fun heq => hup (htext _ heq), ?_⟩
      rwa [String.toList_ofList]

theorem slash_notMem_of_mem_splitOn {cs segment : List Char} (h : segment ∈ cs.splitOn '/') :
    '/' ∉ segment := by
  induction cs generalizing segment with
  | nil =>
    rw [List.splitOn_nil, List.mem_singleton] at h
    rw [h]
    exact List.not_mem_nil
  | cons c cs ih =>
    rw [List.splitOn_cons_eq_if_modifyHead] at h
    split at h
    · rcases List.mem_cons.1 h with rfl | h
      · exact List.not_mem_nil
      · exact ih h
    · rename_i hc
      cases hsplit : cs.splitOn '/' with
      | nil => exact absurd hsplit (List.splitOn_ne_nil _ _)
      | cons first rest =>
        rw [hsplit, List.modifyHead_cons] at h
        rcases List.mem_cons.1 h with rfl | h
        · rw [List.mem_cons, not_or]
          refine ⟨fun heq => hc (beq_iff_eq.2 heq.symm), ih ?_⟩
          rw [hsplit]
          exact List.mem_cons_self
        · refine ih ?_
          rw [hsplit]
          exact List.mem_cons_of_mem first h

/-! ## Parts of a text -/

/-- The parts of a text, a dot at its beginning left out. -/
def partsOf (cs : List Char) : List Part :=
  (cs.splitOn '/').filterMap partOf?

theorem partsOf_nil : partsOf [] = [] := rfl

theorem partsOf_append_slash (cs ds : List Char) :
    partsOf (cs ++ '/' :: ds) = partsOf cs ++ partsOf ds := by
  rw [partsOf, List.splitOn_append_cons_self, List.filterMap_append]
  rfl

/-- **Joining texts appends their parts.** -/
theorem partsOf_join (path name : String) :
    partsOf (join path name).toList = partsOf path.toList ++ partsOf name.toList := by
  unfold join
  split
  · rename_i hempty
    rw [String.isEmpty_iff.1 hempty]
    rfl
  · split
    · rename_i hlast
      -- the slash that separates them is the last one of the path
      obtain ⟨init, hinit⟩ := List.getLast?_eq_some_iff.1 hlast
      rw [String.toList_append, hinit, List.append_assoc, List.singleton_append,
        partsOf_append_slash, partsOf_append_slash, partsOf_nil, List.append_nil]
    · rw [String.toList_append, String.toList_append, List.append_assoc]
      exact partsOf_append_slash path.toList name.toList

/-- Texts without slashes, put together with slashes, are cut into the same texts. -/
theorem splitOn_intercalate_slash {ss : List String} (h : ∀ s ∈ ss, '/' ∉ s.toList)
    (hne : ss ≠ []) : (String.intercalate "/" ss).toList.splitOn '/' = ss.map String.toList := by
  rw [String.toList_intercalate]
  exact List.splitOn_intercalate '/' (List.forall_mem_map.2 h) (by simpa using hne)

theorem partsOf_intercalate {ss : List String} (h : ∀ s ∈ ss, '/' ∉ s.toList) :
    partsOf (String.intercalate "/" ss).toList = ss.filterMap fun s => partOf? s.toList := by
  by_cases hss : ss = []
  · subst hss
    rfl
  · rw [partsOf, splitOn_intercalate_slash h hss, List.filterMap_map]
    rfl

theorem filterMap_partOf?_names {names : List String} (h : ∀ name ∈ names, IsName name) :
    names.filterMap (fun s => partOf? s.toList) = names.map .name := by
  induction names with
  | nil => rfl
  | cons name names ih =>
    obtain ⟨hname, hnames⟩ := List.forall_mem_cons.1 h
    rw [List.filterMap_cons, hname.partOf?_toList, ih hnames, List.map_cons]

/-! ## Following parts -/

theorem follow_append (names : List String) (ps qs : List Part) :
    follow names (ps ++ qs) = follow (follow names ps) qs :=
  List.foldl_append

theorem follow_cons (names : List String) (p : Part) (ps : List Part) :
    follow names (p :: ps) = follow (follow names [p]) ps :=
  rfl

theorem follow_names (names more : List String) :
    follow names (more.map .name) = names ++ more := by
  induction more generalizing names with
  | nil => exact (List.append_nil names).symm
  | cons s more ih =>
    rw [List.map_cons, follow_cons, ih]
    exact List.append_assoc names [s] more

/-- Steps up take back as many names. -/
theorem follow_up (names more : List String) :
    follow (names ++ more) (List.replicate more.length .up) = names := by
  induction more generalizing names with
  | nil => exact List.append_nil names
  | cons s more ih =>
    rw [List.length_cons, List.replicate_succ', follow_append, List.append_cons, ih]
    exact List.dropLast_concat

/-- Following the parts of a text is following those of the path it denotes. -/
theorem follow_ofText (names : List String) (s : String) :
    follow names (ofText s).parts = follow names (partsOf s.toList) := by
  unfold ofText
  dsimp only
  split
  · rfl
  · dsimp only
    split
    · rfl
    · rfl

theorem isAbsolute_ofText (s : String) :
    (ofText s).isAbsolute = decide (s.toList.head? = some '/') := by
  unfold ofText
  dsimp only
  split
  · rename_i h
    rw [h]
    rfl
  · rename_i h
    exact (decide_eq_false h).symm

theorem normal_ofText (directory : List String) (s : String) :
    (ofText s).normal directory =
      follow (if s.toList.head? = some '/' then [] else directory) (partsOf s.toList) := by
  rw [normal, follow_ofText, isAbsolute_ofText]
  simp only [decide_eq_true_eq]

/-- **Normalizing a joined path** is following the second from the normal form of the first. -/
theorem normal_join {path : String} (hpath : path ≠ "") (directory : List String) (name : String) :
    (ofText (join path name)).normal directory =
      follow ((ofText path).normal directory) (ofText name).parts := by
  have hhead : (join path name).toList.head? = path.toList.head? := by
    obtain ⟨c, cs, hcs⟩ := List.exists_cons_of_ne_nil fun h => hpath (toList_eq_iff.1 h)
    unfold join
    split
    · rename_i hempty
      exact absurd (String.isEmpty_iff.1 hempty) hpath
    · split
      · rw [String.toList_append, hcs]
        rfl
      · rw [String.toList_append, String.toList_append, hcs]
        rfl
  rw [normal_ofText, normal_ofText, follow_ofText, hhead, partsOf_join, follow_append]

/-! ## Normal forms -/

theorem isName_of_mem_partsOf {cs : List Char} {s : String} (h : .name s ∈ partsOf cs) :
    IsName s := by
  obtain ⟨segment, hsegment, hpart⟩ := List.mem_filterMap.1 h
  exact isName_of_partOf? (slash_notMem_of_mem_splitOn hsegment) hpart

/-- Following parts leads from names to names. -/
theorem forall_isName_follow {names : List String} (hnames : ∀ name ∈ names, IsName name)
    {ps : List Part} (hps : ∀ s, .name s ∈ ps → IsName s) :
    ∀ name ∈ follow names ps, IsName name := by
  induction ps generalizing names with
  | nil => exact hnames
  | cons p ps ih =>
    rw [follow_cons]
    refine ih ?_ fun s hs => hps s (List.mem_cons_of_mem p hs)
    cases p with
    | here => exact hnames
    | up => exact fun name hname => hnames name (List.dropLast_subset names hname)
    | name s =>
      show ∀ name ∈ names ++ [s], IsName name
      rw [List.forall_mem_append, List.forall_mem_singleton]
      exact ⟨hnames, hps s List.mem_cons_self⟩

theorem forall_isName_normal {directory : List String}
    (hdirectory : ∀ name ∈ directory, IsName name) (s : String) :
    ∀ name ∈ (ofText s).normal directory, IsName name := by
  rw [normal_ofText]
  refine forall_isName_follow ?_ fun t => isName_of_mem_partsOf
  split
  · exact fun _ h => absurd h List.not_mem_nil
  · exact hdirectory

/-- The text of the path of names from the root. -/
def rooted (names : List String) : String :=
  "/" ++ String.intercalate "/" names

theorem rooted_ne_empty (names : List String) : rooted names ≠ "" := by
  intro h
  have hlist := congrArg String.toList h
  rw [rooted, String.toList_append] at hlist
  cases hlist

/-- The text of a normal form denotes it. -/
theorem normal_rooted {names : List String} (h : ∀ name ∈ names, IsName name)
    (directory : List String) : (ofText (rooted names)).normal directory = names := by
  have htext : (rooted names).toList = [] ++ '/' :: (String.intercalate "/" names).toList := by
    rw [rooted, String.toList_append]
    rfl
  rw [normal_ofText, htext, List.nil_append, List.head?_cons, if_pos rfl, ← List.nil_append (_ :: _),
    partsOf_append_slash, partsOf_nil, List.nil_append,
    partsOf_intercalate fun name hname => (h name hname).2.2.2, filterMap_partOf?_names h,
    follow_names, List.nil_append]

/-! ## The way between two directories -/

/-- The way goes up from what the base has of its own and down to what the target has. -/
theorem exists_between (base target : List String) :
    ∃ common own rest, base = common ++ own ∧ target = common ++ rest ∧
      between base target = List.replicate own.length ".." ++ rest := by
  fun_induction between base target with
  | case1 base b target ih =>
    obtain ⟨common, own, rest, hbase, htarget, hway⟩ := ih
    exact ⟨b :: common, own, rest, by rw [hbase]; rfl, by rw [htarget]; rfl, hway⟩
  | case2 a base b target _ => exact ⟨[], a :: base, b :: target, rfl, rfl, rfl⟩
  | case3 base target _ => exact ⟨[], base, target, rfl, rfl, rfl⟩

@[simp] theorem between_nil (target : List String) : between [] target = target := rfl

@[simp] theorem between_self (names : List String) : between names names = [] := by
  induction names with
  | nil => rfl
  | cons a names ih => rw [between, if_pos rfl, ih]

theorem length_between_of_ne {a b : String} (h : a ≠ b) (base target : List String) :
    (between (a :: base) (b :: target)).length = base.length + target.length + 2 := by
  rw [between, if_neg h, List.length_append, List.length_replicate, List.length_cons]
  omega

/-- One more name at the end of the base makes the way longer or shorter by one. -/
theorem length_between_concat (base target : List String) (s : String) :
    (between base target).length ≤ (between (base ++ [s]) target).length + 1 ∧
      (between (base ++ [s]) target).length ≤ (between base target).length + 1 := by
  induction base generalizing target with
  | nil =>
    cases target with
    | nil => simp [between]
    | cons b target =>
      by_cases h : s = b
      · subst h
        rw [List.nil_append, between, if_pos rfl, between_nil, between_nil, List.length_cons]
        omega
      · rw [List.nil_append, length_between_of_ne h, between_nil, List.length_cons,
          List.length_nil]
        omega
  | cons a base ih =>
    cases target with
    | nil => simp [between]
    | cons b target =>
      rw [List.cons_append]
      by_cases h : a = b
      · subst h
        rw [between, if_pos rfl, between, if_pos rfl]
        exact ih target
      · rw [length_between_of_ne h, length_between_of_ne h, List.length_append,
          List.length_singleton]
        omega

/-- **One step** makes the way that is left shorter by one at most. -/
theorem length_between_step (base target : List String) (p : Part) :
    (between base target).length ≤ (between (follow base [p]) target).length + 1 := by
  cases p with
  | here => exact Nat.le_succ _
  | name s => exact (length_between_concat base target s).1
  | up =>
    show _ ≤ (between base.dropLast target).length + 1
    rcases List.eq_nil_or_concat base with rfl | ⟨init, s, rfl⟩
    · exact Nat.le_succ _
    · rw [List.concat_eq_append, List.dropLast_concat]
      exact (length_between_concat init target s).2

/-- **No way is shorter:** parts that lead from a base to a target are as many as the way
between them is long, at least. -/
theorem length_between_le {base target : List String} {ps : List Part}
    (h : follow base ps = target) : (between base target).length ≤ ps.length := by
  induction ps generalizing base with
  | nil =>
    have hbase : base = target := h
    rw [hbase, between_self]
    exact Nat.le_refl 0
  | cons p ps ih =>
    have hrest : (between (follow base [p]) target).length ≤ ps.length := ih h
    have hstep := length_between_step base target p
    rw [List.length_cons]
    omega

/-! ## The location of a path -/

/-- A text that is put together of steps and names, with slashes in between, denotes a relative
path. -/
theorem ofText_intercalate {ss : List String}
    (h : ∀ s ∈ ss, s ≠ "" ∧ s ≠ "." ∧ '/' ∉ s.toList) :
    ofText (String.intercalate "/" ss) = ⟨false, ss.filterMap fun s => partOf? s.toList⟩ := by
  have hslash : ∀ s ∈ ss, '/' ∉ s.toList := fun s hs => (h s hs).2.2
  cases ss with
  | nil => rfl
  | cons t ts =>
    obtain ⟨hempty, hhere, -⟩ := h t List.mem_cons_self
    have hsegments := splitOn_intercalate_slash hslash (List.cons_ne_nil t ts)
    have hroot : (String.intercalate "/" (t :: ts)).toList.head? ≠ some '/' := by
      intro hhead
      obtain ⟨rest, hrest⟩ := List.head?_eq_some_iff.1 hhead
      rw [hrest, List.splitOn_cons_eq_if_modifyHead, if_pos (by decide), List.map_cons]
        at hsegments
      exact hempty (toList_eq_iff.1 (List.cons.inj hsegments).1.symm)
    have hfirst : ((t :: ts).map String.toList).head? ≠ some ['.'] := fun heq =>
      hhere (toList_eq_iff.1 (Option.some.inj heq))
    have hparts := partsOf_intercalate hslash
    rw [partsOf, hsegments] at hparts
    unfold ofText
    dsimp only
    rw [if_neg hroot, hsegments, if_neg hfirst, hparts]

/-- The text of a way up and then down has these parts. -/
theorem ofText_way (n : Nat) {names : List String} (h : ∀ name ∈ names, IsName name) :
    ofText (String.intercalate "/" (List.replicate n ".." ++ names)) =
      ⟨false, List.replicate n .up ++ names.map .name⟩ := by
  have hup : (List.replicate n "..").filterMap (fun s => partOf? s.toList) =
      List.replicate n .up := List.filterMap_replicate_of_some rfl
  rw [ofText_intercalate, List.filterMap_append, filterMap_partOf?_names h, hup]
  rw [List.forall_mem_append]
  refine ⟨fun s hs => ?_, fun name hname => ⟨(h name hname).1, (h name hname).2.1,
    (h name hname).2.2.2⟩⟩
  rw [(List.mem_replicate.1 hs).2]
  decide

/-- **The location of a path leads back to it,** and no shorter relative path does.  The absolute
form of a path is its normal form, as a text again where something is appended to it. -/
theorem relativeLocation_leads_back {directory : List String}
    (hdirectory : ∀ name ∈ directory, IsName name) {path base : String} (hpath : path ≠ "")
    (hbase : base ≠ "") :
    let absolute := fun s : String => (ofText s).normal directory
    let leadsBack := fun r : String =>
      (ofText r).isAbsolute = false ∧ absolute (join (rooted (absolute base)) r) = absolute path
    ∃ r, relativeLocation directory path base = .ok r ∧
      (∃ (n : Nat) (names : List String),
        (ofText r).parts = List.replicate n .up ++ names.map .name) ∧
      leadsBack r ∧ ∀ r', leadsBack r' → (ofText r).parts.length ≤ (ofText r').parts.length := by
  intro absolute leadsBack
  have hnames := forall_isName_normal hdirectory
  -- what is appended to the text of the base is followed from its normal form
  have hfollow : ∀ r, absolute (join (rooted (absolute base)) r) =
      follow (absolute base) (ofText r).parts := by
    intro r
    show (ofText (join (rooted (absolute base)) r)).normal directory = _
    rw [normal_join (rooted_ne_empty _), normal_rooted (hnames base)]
  obtain ⟨common, own, rest, hown, hrest, hway⟩ := exists_between (absolute base) (absolute path)
  have hrestNames : ∀ name ∈ rest, IsName name := by
    intro name hname
    have hmem : name ∈ absolute path := by
      rw [hrest]
      exact List.mem_append_right common hname
    exact hnames path name hmem
  have hlocation : relativeLocation directory path base =
      .ok (String.intercalate "/" (List.replicate own.length ".." ++ rest)) := by
    rw [← hway]
    unfold relativeLocation
    rw [if_neg]
    · rfl
    · simp [String.isEmpty_iff, hpath, hbase]
  have htext := ofText_way own.length hrestNames
  refine ⟨_, hlocation, ⟨own.length, rest, congrArg Path.parts htext⟩, ⟨?_, ?_⟩, ?_⟩
  · rw [htext]
  · rw [hfollow, htext]
    dsimp only
    rw [follow_append, hown, follow_up, follow_names, ← hrest]
  · rintro r' ⟨-, hback⟩
    rw [hfollow] at hback
    have hlength := length_between_le hback
    rw [hway] at hlength
    rw [htext]
    simpa using hlength

/-- The source is written from the root with detours, the base from a directory. -/
theorem relativeLocation_detours :
    relativeLocation ["work"] "/../work/./src//a/../b.cpp" "src/lang/../../lang/" =
        .ok "../src/b.cpp" ∧
      ∀ r', (ofText r').isAbsolute = false →
        (ofText (join "/work/lang" r')).normal ["work"] = ["work", "src", "b.cpp"] →
          3 ≤ (ofText r').parts.length := by
  have hdirectory : ∀ name ∈ ["work"], IsName name := by decide
  have hpath : "/../work/./src//a/../b.cpp" ≠ "" := by decide
  have hbase : "src/lang/../../lang/" ≠ "" := by decide
  obtain ⟨r, hr, -, -, hshortest⟩ := relativeLocation_leads_back hdirectory hpath hbase
  have hlocation : relativeLocation ["work"] "/../work/./src//a/../b.cpp" "src/lang/../../lang/" =
      .ok "../src/b.cpp" := by rfl
  obtain rfl : r = "../src/b.cpp" := Except.ok.inj (hr.symm.trans hlocation)
  exact ⟨hlocation, fun r' hrelative hback => hshortest r' ⟨hrelative, hback⟩⟩

end Path
end Linguist
