import Linguist.Proofs.Merge.Conservation
import Linguist.Proofs.Merge.Unplaced

/-!
# Merging twice is merging once

What a merge leaves is *settled*: its contexts are current contexts of the collected ones,
in order, each joined with retired messages, and further contexts of retired messages
(`exists_settled`).  Merging the same collected catalogue into settled contexts changes
nothing (`mergeContexts_settled`).  Both hold before the places are rewritten, and a merge
does not look at old places, so that the rewriting does not come between them
(`merge_idempotent`).

## Why nothing changes

The collected messages come in the order of the front, so that each of them takes the
first message of its pool, whatever stands behind it; this message is active and agrees
with it, and is kept as it is.  What remains in the pools are the retired messages, and
filing them puts each back where it was.

The old catalogue may repeat names and keys, but the collected one may not: of two
collected messages with one key the second would find the key spent, and one more old
message would be left over each time.
-/

namespace Linguist
namespace Merge

variable (options : Options)

/-- Contexts that a merge has brought up to date with the collected ones: current contexts,
each with retired messages that belong at its end, and further contexts of retired
messages. -/
structure Settled (collected : List Context) (parts : List (Context × List Message))
    (further : List Context) : Prop where
  current : List.Forall₂ CurrentContext collected (parts.map Prod.fst)
  back : ∀ part ∈ parts, ∀ m ∈ part.2, retire? options m = some m
  rest : Filed options [] further
  names : ((parts.map join).map Context.name ++ further.map Context.name).Nodup

/-- **A merge leaves settled contexts.** -/
theorem exists_settled (existing extracted : Catalogue)
    (hnames : (extracted.contexts.map Context.name).Nodup) :
    ∃ (parts : List (Context × List Message)) (further : List Context),
      (mergeContexts options existing extracted).1 = parts.map join ++ further ∧
        Settled options extracted.contexts parts further := by
  have hnodup := nodup_names_mergeContexts options existing hnames
  obtain ⟨parts, further, hparts, hmerged, hback, hfurther⟩ :=
    (filed_mergeContexts options existing extracted).split
  have hcurrent := current_walked options existing extracted
  rw [← hparts] at hcurrent
  rw [hmerged, List.map_append] at hnodup
  exact ⟨parts, further, hmerged, hcurrent, hback, hfurther, hnodup⟩

/-! ## The walk through settled contexts -/

section Walk

variable (setting : Setting) {name : String} {comment? : Option String}
  {before after : List Pool} {spent : List Message.Key} {r : Report}

/-- The first message of a pool is taken, whatever stands behind it. -/
theorem Pool.take?_head {m : Message} {ms : List Message} (h : m.key ∉ spent) :
    Pool.take? ⟨name, comment?, m :: ms, spent⟩ m.key =
      some (m, ⟨name, comment?, ms, m.key :: spent⟩) := by
  rw [Pool.take?, if_neg (by simpa using h), List.find?_cons_of_pos (by simp)]
  show some (m, (⟨name, comment?, (m :: ms).eraseP (·.key == m.key), m.key :: spent⟩ : Pool)) = _
  rw [List.eraseP_cons_of_pos (by simp)]

/-- Pools of other names are passed over. -/
theorem take?_append {key : Message.Key} {p p' : Pool} {m : Message}
    (hbefore : p.name ∉ before.map Pool.name) (h : p.take? key = some (m, p')) :
    take? p.name key (before ++ p :: after) = some (m, before ++ p' :: after) := by
  induction before with
  | nil => rw [List.nil_append, take?, if_pos rfl, h]; rfl
  | cons q before ih =>
    rw [List.map_cons, List.mem_cons, not_or] at hbefore
    rw [List.cons_append, take?, if_neg (Ne.symm hbefore.1), ih hbefore.2]
    rfl

/-- A current message is kept as it is. -/
theorem mergeMessage_current {c m : Message} {ms : List Message} (hm : Current c m)
    (hbefore : name ∉ before.map Pool.name) (hspent : m.key ∉ spent) :
    mergeMessage setting name ⟨before ++ ⟨name, comment?, m :: ms, spent⟩ :: after, r⟩ c =
      (m, ⟨before ++ ⟨name, comment?, ms, m.key :: spent⟩ :: after,
        { r with kept := r.kept + 1 }⟩) := by
  have htake : take? name c.key (before ++ ⟨name, comment?, m :: ms, spent⟩ :: after) =
      some (m, before ++ ⟨name, comment?, ms, m.key :: spent⟩ :: after) := by
    rw [← hm.key]
    exact take?_append (p := ⟨name, comment?, m :: ms, spent⟩) hbefore (Pool.take?_head hspent)
  rw [mergeMessage_of_some setting name _ c htake, mergeOld, if_pos hm.isActive, hm.refresh]

/-- Current messages at the start of a pool are kept, and what stands behind them is left
over. -/
theorem mergeMessages_current (before after : List Pool) (comment? : Option String)
    (back : List Message) {cs ms : List Message} (h : List.Forall₂ Current cs ms)
    (hbefore : name ∉ before.map Pool.name) (hkeys : (cs.map Message.key).Nodup)
    (hspent : ∀ k ∈ spent, k ∉ cs.map Message.key) :
    ∃ spent', Sequence.thread (mergeMessage setting name)
        ⟨before ++ ⟨name, comment?, ms ++ back, spent⟩ :: after, r⟩ cs =
      (ms, ⟨before ++ ⟨name, comment?, back, spent'⟩ :: after,
        { r with kept := r.kept + cs.length }⟩) := by
  induction h generalizing spent r with
  | nil => exact ⟨spent, rfl⟩
  | @cons c m cs ms hm _ ih =>
    obtain ⟨hkey, hkeys⟩ := List.nodup_cons.1 hkeys
    have hunspent : m.key ∉ spent := fun hmem =>
      hspent _ hmem (hm.key ▸ List.mem_cons_self)
    have hspent' : ∀ k ∈ m.key :: spent, k ∉ cs.map Message.key := by
      refine List.forall_mem_cons.2 ⟨hm.key ▸ hkey, fun k hk hmem => ?_⟩
      exact hspent k hk (List.mem_cons_of_mem _ hmem)
    obtain ⟨spent', hrest⟩ := ih (r := { r with kept := r.kept + 1 }) hkeys hspent'
    refine ⟨spent', ?_⟩
    rw [List.cons_append, Sequence.thread_cons, mergeMessage_current setting hm hbefore hunspent,
      hrest, List.length_cons, Nat.add_assoc, Nat.add_comm 1]

/-- A current context is merged into itself, and what is joined to it is left over. -/
theorem mergeContext_current (before after : List Pool) (r : Report) {c x : Context}
    (back : List Message) (h : CurrentContext c x)
    (hbefore : x.name ∉ before.map Pool.name) (hkeys : (c.messages.map Message.key).Nodup) :
    ∃ p : Pool, p.rest = x.withMessages back ∧
      mergeContext setting ⟨before ++ Pool.ofContext (join (x, back)) :: after, r⟩ c =
        (x, ⟨before ++ p :: after, { r with kept := r.kept + c.messages.length }⟩) := by
  obtain ⟨name, comment?, ms⟩ := x
  obtain ⟨rfl, hcomment, hmessages⟩ := h
  obtain ⟨spent, hthread⟩ := mergeMessages_current (r := r) setting before after comment? back
    hmessages hbefore hkeys fun k (hk : k ∈ []) => absurd hk List.not_mem_nil
  have hfind : (before ++ Pool.ofContext (join (⟨c.name, comment?, ms⟩, back)) :: after).find?
      (·.name == c.name) = some (Pool.ofContext (join (⟨c.name, comment?, ms⟩, back))) := by
    have hnone : before.find? (·.name == c.name) = none := by
      refine List.find?_eq_none.2 fun p hp hname => hbefore ?_
      rw [← eq_of_beq hname]
      exact List.mem_map_of_mem hp
    rw [List.find?_append, hnone, Option.none_or,
      List.find?_cons_of_pos (p := fun q : Pool => q.name == c.name) (beq_self_eq_true c.name)]
  have hcontext : contextComment? (before ++
      Pool.ofContext (join (⟨c.name, comment?, ms⟩, back)) :: after) c = comment? := by
    rw [contextComment?, hfind]
    exact hcomment
  refine ⟨⟨c.name, comment?, back, spent⟩, rfl, ?_⟩
  rw [mergeContext, hcontext]
  show ((⟨c.name, comment?, (Sequence.thread (mergeMessage setting c.name)
    ⟨before ++ ⟨c.name, comment?, ms ++ back, []⟩ :: after, r⟩ c.messages).1⟩ : Context),
      (Sequence.thread (mergeMessage setting c.name)
        ⟨before ++ ⟨c.name, comment?, ms ++ back, []⟩ :: after, r⟩ c.messages).2) = _
  rw [hthread]

/-- The walk through settled contexts gives them back without what is joined to them,
which is left over. -/
theorem mergeContexts_current (before after : List Pool) (r : Report) {cs : List Context}
    {parts : List (Context × List Message)}
    (h : List.Forall₂ CurrentContext cs (parts.map Prod.fst))
    (hkeys : ∀ c ∈ cs, (c.messages.map Message.key).Nodup)
    (hnames : (before.map Pool.name ++ (parts.map join).map Context.name).Nodup) :
    ∃ pools, left pools = parts.map (fun part => part.1.withMessages part.2) ∧
      Sequence.thread (mergeContext setting)
          ⟨before ++ ((parts.map join).map Pool.ofContext ++ after), r⟩ cs =
        (parts.map Prod.fst, ⟨before ++ (pools ++ after),
          { r with kept := r.kept + Sequence.total (·.messages.length) cs }⟩) := by
  induction cs generalizing parts before r with
  | nil =>
    obtain rfl : parts = [] := List.map_eq_nil_iff.1 (List.forall₂_nil_left_iff.1 h)
    exact ⟨[], rfl, rfl⟩
  | cons c cs ih =>
    obtain ⟨x, xs, hhead, hrest, hparts⟩ := List.forall₂_cons_left_iff.1 h
    obtain ⟨⟨x', back⟩, parts, rfl, rfl, rfl⟩ := List.map_eq_cons_iff.1 hparts
    obtain ⟨hc, hcs⟩ := List.forall_mem_cons.1 hkeys
    rw [List.map_cons, List.map_cons, List.nodup_middle, List.nodup_cons, List.mem_append,
      not_or] at hnames
    obtain ⟨⟨hbefore, hothers⟩, hnodup⟩ := hnames
    obtain ⟨p, hp, hmerge⟩ := mergeContext_current setting before
      ((parts.map join).map Pool.ofContext ++ after) r back hhead hbefore hc
    have hname : p.name = x'.name := congrArg Context.name hp
    have hnames' : ((before ++ [p]).map Pool.name ++ (parts.map join).map Context.name).Nodup := by
      rw [List.map_append, List.map_singleton, hname, List.append_assoc, List.singleton_append,
        List.nodup_middle, List.nodup_cons, List.mem_append, not_or]
      exact ⟨⟨hbefore, hothers⟩, hnodup⟩
    obtain ⟨pools, hpools, hthread⟩ := ih (before ++ [p])
      { r with kept := r.kept + c.messages.length } hrest hcs hnames'
    rw [List.append_assoc, List.append_assoc, List.singleton_append,
      List.singleton_append] at hthread
    refine ⟨p :: pools, ?_, ?_⟩
    · rw [left, List.map_cons, hp, List.map_cons]
      exact congrArg _ hpools
    · rw [List.map_cons, List.map_cons, List.cons_append, Sequence.thread_cons, hmerge, hthread,
        Sequence.total_cons, Nat.add_assoc]
      rfl

end Walk

/-! ## Filing what was filed -/

section Filing

variable {options} {name : String} {comment? : Option String} {ms : List Message}

theorem filterMap_retire?_self (h : ∀ m ∈ ms, retire? options m = some m) :
    ms.filterMap (retire? options) = ms := by
  induction ms with
  | nil => rfl
  | cons m ms ih =>
    obtain ⟨hm, hms⟩ := List.forall_mem_cons.1 h
    rw [List.filterMap_cons_some hm, ih hms]

/-- Messages are filed in the context of the name. -/
theorem appendTo_own {before after : List Context} {x : Context}
    (hbefore : x.name ∉ before.map Context.name) :
    appendTo x.name comment? ms (before ++ x :: after) =
      before ++ x.withMessages (x.messages ++ ms) :: after := by
  induction before with
  | nil => rw [List.nil_append, appendTo, if_pos rfl]; rfl
  | cons y before ih =>
    rw [List.map_cons, List.mem_cons, not_or] at hbefore
    rw [List.cons_append, appendTo, if_neg (Ne.symm hbefore.1), ih hbefore.2]
    rfl

/-- Without a context of the name the messages become one. -/
theorem appendTo_new {xs : List Context} (h : name ∉ xs.map Context.name) :
    appendTo name comment? ms xs = xs ++ [⟨name, comment?, ms⟩] := by
  induction xs with
  | nil => rfl
  | cons x xs ih =>
    rw [List.map_cons, List.mem_cons, not_or] at h
    rw [appendTo, if_neg (Ne.symm h.1), ih h.2]
    rfl

/-- What was joined to a context is joined to it again. -/
theorem retirePool_own {before after : List Context} {x : Context} {back : List Message}
    {p : Pool} (r : Report) (hp : p.rest = x.withMessages back)
    (hback : ∀ m ∈ back, retire? options m = some m)
    (hbefore : x.name ∉ before.map Context.name) :
    (retirePool options (before ++ x :: after) r p).1 = before ++ join (x, back) :: after := by
  have hname : p.name = x.name := congrArg Context.name hp
  have hmessages : p.messages = back := congrArg Context.messages hp
  rw [retirePool, hmessages, filterMap_retire?_self hback, hname]
  split
  · rename_i hempty
    rw [List.isEmpty_iff.1 hempty, join, List.append_nil]
    rfl
  · exact appendTo_own hbefore

/-- A further context becomes one again. -/
theorem retirePool_further {xs : List Context} {y : Context} (r : Report)
    (hy : y.messages ≠ [] ∧ ∀ m ∈ y.messages, retire? options m = some m)
    (hxs : y.name ∉ xs.map Context.name) :
    (retirePool options xs r (.ofContext y)).1 = xs ++ [y] := by
  have hmessages : (Pool.ofContext y).messages = y.messages := rfl
  rw [retirePool, hmessages, filterMap_retire?_self hy.2,
    if_neg (mt List.isEmpty_iff.1 hy.1)]
  exact appendTo_new hxs

theorem retirePools_own (before : List Context) {parts : List (Context × List Message)}
    {pools : List Pool} (r : Report)
    (hpools : left pools = parts.map fun part => part.1.withMessages part.2)
    (hback : ∀ part ∈ parts, ∀ m ∈ part.2, retire? options m = some m)
    (hnames : (before.map Context.name ++ (parts.map join).map Context.name).Nodup) :
    (retirePools options pools (before ++ parts.map Prod.fst) r).1 =
      before ++ parts.map join := by
  induction parts generalizing pools before r with
  | nil =>
    obtain rfl : pools = [] := List.map_eq_nil_iff.1 hpools
    rfl
  | cons part parts ih =>
    obtain ⟨x, back⟩ := part
    obtain ⟨p, pools, rfl, hp, hrest⟩ := List.map_eq_cons_iff.1 hpools
    obtain ⟨hhead, htail⟩ := List.forall_mem_cons.1 hback
    have hbefore : x.name ∉ before.map Context.name := by
      rw [List.map_cons, List.map_cons, List.nodup_middle, List.nodup_cons, List.mem_append,
        not_or] at hnames
      exact hnames.1.1
    have hnames' : ((before ++ [join (x, back)]).map Context.name ++
        (parts.map join).map Context.name).Nodup := by
      rw [List.map_append, List.append_assoc]
      exact hnames
    rw [retirePools_cons, List.map_cons, retirePool_own r hp hhead hbefore]
    have hfiled := ih (before ++ [join (x, back)])
      (retirePool options (before ++ x :: parts.map Prod.fst) r p).2 hrest htail hnames'
    rw [List.append_assoc, List.append_assoc] at hfiled
    exact hfiled

theorem retirePools_further {further xs : List Context} (r : Report)
    (h : Filed options [] further)
    (hnames : (xs.map Context.name ++ further.map Context.name).Nodup) :
    (retirePools options (further.map Pool.ofContext) xs r).1 = xs ++ further := by
  induction further generalizing xs r with
  | nil => exact (List.append_nil xs).symm
  | cons y further ih =>
    obtain ⟨hy, hfurther⟩ := List.forall_mem_cons.1 h
    have hxs : y.name ∉ xs.map Context.name := by
      rw [List.map_cons, List.nodup_middle, List.nodup_cons, List.mem_append, not_or] at hnames
      exact hnames.1.1
    have hnames' : ((xs ++ [y]).map Context.name ++ further.map Context.name).Nodup := by
      rw [List.map_append, List.append_assoc]
      exact hnames
    rw [List.map_cons, retirePools_cons, retirePool_further r hy hxs]
    have hfiled := ih (retirePool options xs r (.ofContext y)).2 hfurther hnames'
    rw [List.append_assoc] at hfiled
    exact hfiled

theorem retirePools_append (pools pools' : List Pool) (xs : List Context) (r : Report) :
    retirePools options (pools ++ pools') xs r =
      retirePools options pools' (retirePools options pools xs r).1
        (retirePools options pools xs r).2 :=
  List.foldl_append

end Filing

/-! ## The second merge -/

variable {options} {existing extracted : Catalogue} {parts : List (Context × List Message)}
  {further : List Context}

theorem walked_settled (h : Settled options extracted.contexts parts further)
    (hkeys : ∀ c ∈ extracted.contexts, (c.messages.map Message.key).Nodup)
    (hexisting : existing.contexts = parts.map join ++ further) :
    ∃ pools, left pools = parts.map (fun part => part.1.withMessages part.2) ∧
      walked options existing extracted = (parts.map Prod.fst,
        ⟨pools ++ further.map Pool.ofContext, { kept := extracted.messageCount }⟩) := by
  have hnames : ((parts.map join).map Context.name).Nodup := (List.nodup_append'.1 h.names).1
  obtain ⟨pools, hpools, hthread⟩ := mergeContexts_current (settingOf options existing) []
    (further.map Pool.ofContext) {} h.current hkeys hnames
  refine ⟨pools, hpools, ?_⟩
  rw [walked, hexisting, List.map_append]
  refine hthread.trans ?_
  rw [Nat.zero_add]
  rfl

/-- Retired messages stay. -/
theorem leftCount_of_retired {xs : List Context}
    (h : ∀ x ∈ xs, ∀ m ∈ x.messages, retire? options m = some m) :
    leftCount options (listing xs) = { vanished := (listing xs).length } := by
  have hstays : ∀ p ∈ listing xs, stays options p.2 = true := by
    intro p hp
    obtain ⟨x, hx, _, hm⟩ := exists_of_mem_listing hp
    exact stays_of_retire? options (h x hx p.2 hm)
  have hstaying : staying options (listing xs) = listing xs := List.filter_eq_self.2 hstays
  have hgoing : going options (listing xs) = [] :=
    List.filter_eq_nil_iff.2 fun p hp => by rw [hstays p hp]; decide
  rw [leftCount, hstaying, hgoing]
  rfl

/-- **Settled contexts are merged into themselves,** and every collected message is kept. -/
theorem mergeContexts_settled (h : Settled options extracted.contexts parts further)
    (hkeys : ∀ c ∈ extracted.contexts, (c.messages.map Message.key).Nodup)
    (hexisting : existing.contexts = parts.map join ++ further) :
    ∃ vanished, mergeContexts options existing extracted =
      (existing.contexts, { kept := extracted.messageCount, vanished }) := by
  obtain ⟨pools, hpools, hwalked⟩ := walked_settled h hkeys hexisting
  have hcontexts : (retirePools options (pools ++ further.map Pool.ofContext)
      (parts.map Prod.fst) { kept := extracted.messageCount }).1 = existing.contexts := by
    have hown := retirePools_own [] { kept := extracted.messageCount } hpools h.back
      (List.nodup_append'.1 h.names).1
    rw [List.nil_append, List.nil_append] at hown
    rw [retirePools_append, hown, retirePools_further _ h.rest h.names, hexisting]
  have hleft : left (pools ++ further.map Pool.ofContext) =
      parts.map (fun part => part.1.withMessages part.2) ++ further := by
    rw [left, List.map_append, ← hpools]
    exact congrArg _ (left_ofContext further)
  have hretired : ∀ x ∈ parts.map (fun part => part.1.withMessages part.2) ++ further,
      ∀ m ∈ x.messages, retire? options m = some m := by
    intro x hx
    rcases List.mem_append.1 hx with hx | hx
    · obtain ⟨part, hpart, rfl⟩ := List.mem_map.1 hx
      exact h.back part hpart
    · exact (h.rest x hx).2
  refine ⟨(listing (parts.map (fun part => part.1.withMessages part.2) ++ further)).length,
    Prod.ext ?_ ?_⟩
  · rw [mergeContexts_eq, hwalked]
    exact hcontexts
  · rw [mergeContexts_eq, hwalked, report_retirePools, hleft, leftCount_of_retired hretired,
      Report.plus]
    simp only [Nat.add_zero, Nat.zero_add]

/-- **Merging twice is merging once.**  If the collected catalogue repeats no name and no
key in a context, merging it again in the same way leaves the catalogue as it is, and all
that the second report counts is that every collected message is kept and what had
vanished before. -/
theorem merge_idempotent (options : Options) (existing extracted : Catalogue)
    (hextracted : Distinct extracted.contexts) :
    ∃ vanished, merge options (merge options existing extracted).1 extracted =
      ((merge options existing extracted).1, { kept := extracted.messageCount, vanished }) := by
  obtain ⟨parts, further, hmerged, hsettled⟩ :=
    exists_settled options existing extracted hextracted.1
  generalize hunplaced : { existing with
    contexts := (mergeContexts options existing extracted).1 } = unplaced
  have hfirst : (merge options existing extracted).1 = unplaced.withPlaces options.places := by
    rw [← hunplaced]
    rfl
  have hcontexts : unplaced.contexts = parts.map join ++ further := by
    rw [← hunplaced]
    exact hmerged
  obtain ⟨vanished, hsecond⟩ := mergeContexts_settled hsettled hextracted.2 hcontexts
  refine ⟨vanished, ?_⟩
  -- the second merge sees the merged contexts as they were before their places changed
  rw [hfirst, merge, mergeContexts_withPlaces, hsecond]
  show (Catalogue.withPlaces { unplaced.withPlaces options.places with
    contexts := unplaced.contexts } options.places, _) = _
  rw [Catalogue.withPlaces_with_contexts]

/-- A catalogue that repeats a name and a key, with a message for each fate. -/
def repetitive : Catalogue where
  contexts := [
    { name := "Window", messages := [
      { source := "Open", target := ⟨.vanished, .plain "Ouvrir"⟩ },
      { source := "Open", target := ⟨.finished, .plain "Ouvre"⟩ },
      { source := "Quit", target := ⟨.obsolete, .plain "Quitter"⟩ }] },
    { name := "Window", comment? := some "Main", messages := [
      { source := "Close", target := ⟨.finished, .plain "Fermer"⟩ }] },
    { name := "Menu", messages := [{ source := "File" }] }]

/-- Two collected messages with places. -/
def collectedOnce : Catalogue where
  contexts := [{ name := "Window", comment? := some "Top", messages := [
    { source := "Close", places := [.inFile "window.cpp" 3] },
    { source := "Open", places := [.inFile "window.cpp" 7] }] }]

theorem repetitive_settles :
    ∃ vanished, merge {} (merge {} repetitive collectedOnce).1 collectedOnce =
      ((merge {} repetitive collectedOnce).1,
        { kept := collectedOnce.messageCount, vanished }) :=
  merge_idempotent {} repetitive collectedOnce (by decide)

end Merge
end Linguist
