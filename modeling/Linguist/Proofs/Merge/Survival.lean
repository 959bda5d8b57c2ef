import Linguist.Proofs.Catalogue.Survival
import Linguist.Proofs.Merge.Encounter
import Linguist.Proofs.Merge.Front

/-!
# When a merged catalogue survives its file

A merge of two catalogues that survive their files nearly always survives its own.  Every
text of the merged catalogue is one of theirs, or a suggestion made of them, so that no
text is an obstacle.  But an old message takes the plural mark of the collected one and
keeps its wording, and if the program began or stopped to count things in a text, then the
wording does not fit any more.

That is the only obstacle, and it can be told beforehand (`survives_merge_iff`): the first
collected message at an address meets the message that a lookup in the old catalogue finds
there, and the wording of the one has to fit the plural mark of the other (`Agrees`).
-/

namespace Linguist

open Markup (IsContent)

namespace Sequence

variable {α β σ : Type}

/-- What each step guarantees and keeps, the walk guarantees of all elements and keeps. -/
theorem forall_thread {f : σ → α → β × σ} {I : σ → Prop} {P : β → Prop} {as : List α}
    (h : ∀ s, ∀ a ∈ as, I s → P (f s a).1 ∧ I (f s a).2) {s : σ} (hs : I s) :
    (∀ b ∈ (thread f s as).1, P b) ∧ I (thread f s as).2 := by
  induction as generalizing s with
  | nil => exact ⟨fun _ hb => absurd hb List.not_mem_nil, hs⟩
  | cons a as ih =>
    obtain ⟨hhead, hstate⟩ := h s a List.mem_cons_self hs
    obtain ⟨hrest, hend⟩ := ih (fun s b hb => h s b (List.mem_cons_of_mem a hb)) hstate
    exact ⟨List.forall_mem_cons.2 ⟨hhead, hrest⟩, hend⟩

end Sequence

/-- All texts of a wording on one line can stand in an element if they can. -/
theorem Wording.isContent_text {w : Wording} (h : ∀ s ∈ w.all, IsContent s) :
    IsContent w.text := by
  have hjoined : ∀ forms : List String, (∀ s ∈ forms, IsContent s) →
      IsContent (String.intercalate " | " forms) := by
    intro forms hforms
    rw [IsContent, String.toList_intercalate]
    induction forms with
    | nil => simp
    | cons s forms ih =>
      obtain ⟨hs, hforms⟩ := List.forall_mem_cons.1 hforms
      have hseparator : '\x00' ∉ " | ".toList := by decide
      cases forms with
      | nil => simpa [IsContent] using hs
      | cons t forms =>
        rw [List.map_cons, List.map_cons, List.intercalate_cons_cons, List.mem_append,
          List.mem_append, not_or, not_or]
        exact ⟨⟨hs, hseparator⟩, ih hforms⟩
  cases w with
  | plain text => exact h text List.mem_cons_self
  | plural forms => exact hjoined forms h
  | lengths variants => exact hjoined variants h

namespace Merge

/-! ## One message -/

variable {setting : Setting} {old collected : Message}

/-- **An old message takes over the plural mark,** which its wording has to fit. -/
theorem writable_mergeOld_iff (hold : old.Writable) (hcollected : collected.Writable)
    (r : Report) : (mergeOld old collected r).1.Writable ↔
      old.target.wording.Fits collected.isPlural := by
  obtain ⟨hsource, holdSource, hcomment, holdComment, _, htranslator, hwording⟩ :=
    (Message.forall_contents_iff IsContent old).1 hold.texts
  obtain ⟨_, _, _, _, hextra, _, _⟩ :=
    (Message.forall_contents_iff IsContent collected).1 hcollected.texts
  have htexts : ∀ s ∈ (mergeOld old collected r).1.contents, IsContent s := by
    rw [Message.forall_contents_iff, mergeOld]
    split <;>
      exact ⟨hsource, holdSource, hcomment, holdComment, hextra, htranslator, hwording⟩
  have hfits : (mergeOld old collected r).1.target.wording.Fits
      (mergeOld old collected r).1.isPlural ↔ old.target.wording.Fits collected.isPlural := by
    rw [mergeOld]
    split <;> exact Iff.rfl
  rw [Message.writable_iff, hfits]
  exact and_iff_right htexts

theorem writable_newTarget (formCount : Nat) (isPlural : Bool) :
    (newTarget formCount isPlural).wording.Fits isPlural ∧
      ∀ s ∈ (newTarget formCount isPlural).wording.all, IsContent s := by
  have hempty : IsContent "" := by decide
  cases isPlural with
  | false => exact ⟨rfl, List.forall_mem_singleton.2 hempty⟩
  | true => exact ⟨Or.inl rfl, fun s hs => (List.mem_replicate.1 hs).2 ▸ hempty⟩

/-- A new message reads back as the collected one does, if the suggestions do. -/
theorem writable_mergeNew (hcollected : collected.Writable)
    (hsuggestions : ∀ p ∈ setting.suggestions, ∀ s ∈ p.2.all, IsContent s) (r : Report) :
    (mergeNew setting collected r).1.Writable := by
  obtain ⟨hsource, holdSource, hcomment, holdComment, hextra, htranslator, _⟩ :=
    (Message.forall_contents_iff IsContent collected).1 hcollected.texts
  obtain ⟨hfits, hwording⟩ := writable_newTarget setting.formCount collected.isPlural
  rw [mergeNew]
  split
  · rename_i w hw
    obtain ⟨hlookup, _⟩ := Option.filter_eq_some_iff.1 hw
    obtain ⟨before, after, hsplit, _⟩ := List.lookup_eq_some_iff.1 hlookup
    have hsuggestion : IsContent w.text := Wording.isContent_text <|
      hsuggestions (collected.source, w) (by simp [hsplit])
    have hnote : ∀ s ∈ collected.translatorComment?.or (some w.text), IsContent s := by
      intro s hs
      rcases Option.or_eq_some_iff.1 hs with hs | ⟨_, hs⟩
      · exact htranslator s hs
      · exact Option.some.inj hs ▸ hsuggestion
    refine ⟨(Message.forall_contents_iff IsContent _).2 ?_, hfits⟩
    exact ⟨hsource, holdSource, hcomment, holdComment, hextra, hnote, hwording⟩
  · refine ⟨(Message.forall_contents_iff IsContent _).2 ?_, hfits⟩
    exact ⟨hsource, holdSource, hcomment, holdComment, hextra, htranslator, hwording⟩

/-! ## Pools -/

/-- What is left of the pools reads back. -/
def PoolsWritable (pools : List Pool) : Prop :=
  ∀ p ∈ pools, p.rest.Writable

/-- What is taken from the pools reads back, and what is left does. -/
theorem PoolsWritable.take? {pools pools' : List Pool} {name : String} {key : Message.Key}
    (h : PoolsWritable pools) (htake : take? name key pools = some (old, pools')) :
    old.Writable ∧ PoolsWritable pools' := by
  obtain ⟨before, p, p', after, rfl, _, hpool, rfl⟩ := take?_eq_some htake
  obtain ⟨front, back, hmessages, _, rfl⟩ := Pool.take?_eq_some hpool
  obtain ⟨hbefore, hafter⟩ := List.forall_mem_append.1 h
  obtain ⟨hp, hafter⟩ := List.forall_mem_cons.1 hafter
  have hold : ∀ m ∈ front ++ old :: back, m.Writable := hmessages ▸ hp.messages
  obtain ⟨hfront, hback⟩ := List.forall_mem_append.1 hold
  obtain ⟨hm, hback⟩ := List.forall_mem_cons.1 hback
  refine ⟨hm, List.forall_mem_append.2 ⟨hbefore, List.forall_mem_cons.2 ⟨?_, hafter⟩⟩⟩
  exact ⟨hp.texts, List.forall_mem_append.2 ⟨hfront, hback⟩⟩

variable (setting)

/-- What one collected message does to the pools and to survival. -/
theorem mergeListed_spec {s : State} (hs : PoolsWritable s.pools)
    (hsuggestions : ∀ p ∈ setting.suggestions, ∀ s ∈ p.2.all, IsContent s)
    {p : String × Message} (hp : p.2.Writable) :
    ((mergeListed setting s p).1.2.Writable ↔ ∀ old, peek (addressOf p) s.pools = some old →
        old.target.wording.Fits p.2.isPlural) ∧
      PoolsWritable (mergeListed setting s p).2.pools ∧
      ∀ b, peek b (mergeListed setting s p).2.pools =
        if b = addressOf p then none else peek b s.pools := by
  rw [mergeListed]
  cases htake : take? p.1 p.2.key s.pools with
  | some taken =>
    obtain ⟨old, pools⟩ := taken
    have hpeek : peek (addressOf p) s.pools = some old := congrArg (Option.map Prod.fst) htake
    obtain ⟨hold, hpools⟩ := hs.take? htake
    rw [mergeMessage_of_some setting p.1 s p.2 htake]
    refine ⟨(writable_mergeOld_iff hold hp s.report).trans ?_, hpools,
      peek_of_take? (a := addressOf p) htake⟩
    rw [hpeek]
    exact ⟨fun h m hm => Option.some.inj hm ▸ h, fun h => h old rfl⟩
  | none =>
    have hpeek : peek (addressOf p) s.pools = none := congrArg (Option.map Prod.fst) htake
    rw [mergeMessage_of_none setting p.1 s p.2 htake]
    refine ⟨iff_of_true (writable_mergeNew hp hsuggestions s.report) ?_, hs, fun b => ?_⟩
    · intro m hm
      rw [hpeek] at hm
      cases hm
    · split
      · rename_i hb
        rw [hb]
        exact hpeek
      · rfl

/-- The first collected message at an address meets what the pools show there, and those
behind it meet nothing. -/
theorem writable_thread_iff {s : State} (hs : PoolsWritable s.pools)
    (hsuggestions : ∀ p ∈ setting.suggestions, ∀ s ∈ p.2.all, IsContent s)
    {ps : List (String × Message)} (hps : ∀ p ∈ ps, p.2.Writable) :
    (∀ q ∈ (Sequence.thread (mergeListed setting) s ps).1, q.2.Writable) ↔
      ∀ p, ps.find? (fun q => addressOf q = addressOf p) = some p →
        ∀ old, peek (addressOf p) s.pools = some old → old.target.wording.Fits p.2.isPlural := by
  induction ps generalizing s with
  | nil => simp
  | cons p ps ih =>
    obtain ⟨hp, hps⟩ := List.forall_mem_cons.1 hps
    obtain ⟨hhead, hpools, hpeek⟩ := mergeListed_spec setting hs hsuggestions hp
    rw [Sequence.thread_cons, List.forall_mem_cons, hhead, ih hpools hps]
    constructor
    · rintro ⟨hfirst, hrest⟩ q hq old hold
      by_cases hqp : addressOf p = addressOf q
      · rw [List.find?_cons_of_pos (by simpa using hqp)] at hq
        obtain rfl := Option.some.inj hq
        exact hfirst old hold
      · rw [List.find?_cons_of_neg (by simpa using hqp)] at hq
        refine hrest q hq old ?_
        rw [hpeek, if_neg (Ne.symm hqp)]
        exact hold
    · intro h
      refine ⟨h p (List.find?_cons_of_pos (by simp)), fun q hq old hold => ?_⟩
      rw [hpeek] at hold
      split at hold
      · cases hold
      · rename_i hqp
        refine h q ?_ old hold
        rw [List.find?_cons_of_neg (by simpa using Ne.symm hqp)]
        exact hq

/-! ## Contexts -/

variable {options : Options} {existing extracted : Catalogue}

/-- The comment of a merged context is an old one or a collected one. -/
theorem headed_mergeContext {s : State} (hs : PoolsWritable s.pools) {x : Context}
    (hx : x.Headed) : (mergeContext setting s x).1.Headed := by
  obtain ⟨hname, hcomment⟩ := x.headed_iff.1 hx
  refine (Context.headed_iff _).2 ⟨hname, fun t ht => ?_⟩
  rcases Option.or_eq_some_iff.1 ht with ht | ⟨_, ht⟩
  · obtain ⟨p, hp, ht⟩ := Option.bind_eq_some_iff.1 ht
    exact (p.rest.headed_iff.1 (hs p (List.mem_of_find?_eq_some hp)).texts).2 t ht
  · exact hcomment t ht

/-- The walk along the collected contexts leaves heads that can be written, and pools that
read back. -/
theorem headed_thread {s : State} (hs : PoolsWritable s.pools)
    (hsuggestions : ∀ p ∈ setting.suggestions, ∀ s ∈ p.2.all, IsContent s)
    {xs : List Context} (hxs : ∀ x ∈ xs, x.Writable) :
    (∀ y ∈ (Sequence.thread (mergeContext setting) s xs).1, y.Headed) ∧
      PoolsWritable (Sequence.thread (mergeContext setting) s xs).2.pools := by
  refine Sequence.forall_thread (I := fun s : State => PoolsWritable s.pools)
    (fun s x hx hs => ⟨headed_mergeContext setting hs (hxs x hx).texts, ?_⟩) hs
  have hmessages : ∀ p ∈ x.listing, p.2.Writable := fun p hp =>
    (hxs x hx).messages p.2 (Context.mem_listing.1 hp).2
  have hpools : PoolsWritable (Sequence.thread (mergeListed setting) s x.listing).2.pools :=
    (Sequence.forall_thread (I := fun s : State => PoolsWritable s.pools) (P := fun _ => True)
      (fun s p hp hs => ⟨trivial, (mergeListed_spec setting hs hsuggestions (hmessages p hp)).2.1⟩)
      hs).2
  rw [Context.listing, thread_mergeMessage] at hpools
  exact hpools

theorem headed_appendTo {name : String} {comment? : Option String} (ms : List Message)
    {ys : List Context} (hnew : (Context.mk name comment? []).Headed)
    (hys : ∀ y ∈ ys, y.Headed) : ∀ y ∈ appendTo name comment? ms ys, y.Headed := by
  induction ys with
  | nil => exact List.forall_mem_singleton.2 hnew
  | cons y ys ih =>
    obtain ⟨hy, hys⟩ := List.forall_mem_cons.1 hys
    rw [appendTo]
    split
    · exact List.forall_mem_cons.2 ⟨hy.withMessages _, hys⟩
    · exact List.forall_mem_cons.2 ⟨hy, ih hys⟩

theorem headed_retirePools {pools : List Pool} (hpools : PoolsWritable pools) {ys : List Context}
    (hys : ∀ y ∈ ys, y.Headed) (r : Report) :
    ∀ y ∈ (retirePools options pools ys r).1, y.Headed := by
  induction pools generalizing ys r with
  | nil => exact hys
  | cons p pools ih =>
    obtain ⟨hp, hpools⟩ := List.forall_mem_cons.1 hpools
    rw [retirePools_cons]
    refine ih hpools ?_ _
    rw [retirePool]
    split
    · exact hys
    · exact headed_appendTo _ hp.texts hys

/-- A message that is retired reads back as before. -/
theorem writable_retired {m : Message} (h : m.Writable) : (retired m).Writable :=
  ⟨h.texts, h.fits⟩

theorem writable_retiredListing {pools : List Pool} (h : PoolsWritable pools) :
    ∀ p ∈ retiredListing options (listing (left pools)), p.2.Writable := by
  intro p hp
  obtain ⟨q, hq, rfl⟩ := List.mem_map.1 hp
  obtain ⟨x, hx, _, hm⟩ := exists_of_mem_listing (List.mem_filter.1 hq).1
  obtain ⟨pool, hpool, rfl⟩ := List.mem_map.1 hx
  exact writable_retired ((h pool hpool).messages q.2 hm)

/-! ## The whole -/

/-- The wordings that are suggested can be written, as they are in the old catalogue. -/
theorem isContent_suggestions [Bytes.Registry] (options : Options) (h : existing.Survives) :
    ∀ p ∈ (settingOf options existing).suggestions, ∀ s ∈ p.2.all, IsContent s := by
  intro p hp
  rw [settingOf] at hp
  dsimp only at hp
  split at hp
  · obtain ⟨⟨name, m⟩, hm, hsome⟩ := List.mem_filterMap.1 hp
    have hwritable : m.Writable := (existing.survives_iff_messages.1 h).2 (name, m) hm
    dsimp only at hsome
    split at hsome
    · obtain rfl := Option.some.inj hsome
      obtain ⟨_, _, _, _, _, _, hwording⟩ :=
        (Message.forall_contents_iff IsContent m).1 hwritable.texts
      exact hwording
    · cases hsome
  · cases hp

/-- The first collected message at an address has the plural mark that the wording of the
old message there asks for. -/
def Agrees (existing extracted : Catalogue) : Prop :=
  ∀ p, extracted.messages.find? (fun q => addressOf q = addressOf p) = some p →
    ∀ old, existing.find? p.1 p.2.source p.2.comment? = some old →
      old.target.wording.Fits p.2.isPlural

/-- **A merge of catalogues that survive survives if and only if** every old wording that
is kept fits the plural mark of the collected message. -/
theorem survives_merge_iff [Bytes.Registry] (options : Options) (hexisting : existing.Survives)
    (hextracted : extracted.Survives) :
    (merge options existing extracted).1.Survives ↔ Agrees existing extracted := by
  have hsuggestions := isContent_suggestions options hexisting
  have hstart : PoolsWritable (existing.contexts.map Pool.ofContext) :=
    List.forall_mem_map.2 (existing.survives_iff.1 hexisting)
  obtain ⟨hheads, hpools⟩ := headed_thread (settingOf options existing)
    (s := ⟨existing.contexts.map Pool.ofContext, {}⟩) hstart hsuggestions
    (extracted.survives_iff.1 hextracted)
  have hheaded : ∀ y ∈ (mergeContexts options existing extracted).1, y.Headed :=
    headed_retirePools hpools hheads _
  have hlisting := perm_retirePools options (walked options existing extracted).1
    (walked options existing extracted).2.report (walked options existing extracted).2.pools
  have hwalked := thread_mergeContext (settingOf options existing)
    ⟨existing.contexts.map Pool.ofContext, {}⟩ extracted.contexts
  calc (merge options existing extracted).1.Survives
      ↔ ({ existing with contexts := (mergeContexts options existing extracted).1 } :
          Catalogue).Survives := Catalogue.survives_withPlaces_iff _ options.places
    _ ↔ ∀ p ∈ listing (mergeContexts options existing extracted).1, p.2.Writable := by
        rw [Catalogue.survives_iff_messages]
        exact and_iff_right hheaded
    _ ↔ ∀ p ∈ listing (walked options existing extracted).1, p.2.Writable := by
        rw [mergeContexts_eq]
        refine (forall_congr' fun p => imp_congr_left hlisting.mem_iff).trans ?_
        rw [List.forall_mem_append]
        exact and_iff_left (writable_retiredListing hpools)
    _ ↔ Agrees existing extracted := by
        have hthread := writable_thread_iff (settingOf options existing)
          (s := ⟨existing.contexts.map Pool.ofContext, {}⟩) hstart hsuggestions
          (extracted.survives_iff_messages.1 hextracted).2
        rw [hwalked] at hthread
        refine hthread.trans (forall_congr' fun p => imp_congr Iff.rfl ?_)
        rw [← peek_ofContexts]
        exact Iff.rfl

end Merge
end Linguist
