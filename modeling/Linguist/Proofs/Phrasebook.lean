import Mathlib.Data.Finset.Card
import Linguist.Phrasebook
import Linguist.Proofs.Catalogue.Address
import Linguist.Proofs.Sequence

/-!
# What a phrasebook serves

A phrasebook is filled message by message, and an entry that is there already is replaced.
What it holds in the end can be said without the filling: under each address the wording of
the last message there that may be served (`Phrasebook.entry?_loadAll`).  A message that may
not be served does not serve, and it does not take away what an earlier one left either.

## The two sides

Loading is first brought to its essence: all catalogues are one listing, the messages of it
that may be served are put into the entries one after the other (`entries_loadAll`), and
neither the languages nor the borders between catalogues play a part.  Then a put is
described by what it does to a look-up (`lookup_putEntry`) and to the keys
(`Sequence.map_key_put`), and both are carried along the listing.
-/

namespace Linguist

/-- The first text of a wording is one of its texts, and it is not empty. -/
theorem Wording.mem_of_primary? {w : Wording} {s : String} (h : w.primary? = some s) :
    s ∈ w.all ∧ s ≠ "" := by
  obtain ⟨hs, hne⟩ := List.mem_filter.1 (List.mem_of_head? h)
  refine ⟨hs, ?_⟩
  rintro rfl
  cases hne

namespace Phrasebook

/-! ## Messages that may be served -/

/-- A message may be served: it has a text, and it is finished, or it is a draft and drafts
are wanted. -/
def Servable (includeUnfinished : Bool) (m : Message) : Prop :=
  m.target.isEmpty = false ∧
    (m.target.status = .finished ∨ includeUnfinished = true ∧ m.target.status = .unfinished)

instance (includeUnfinished : Bool) (m : Message) : Decidable (Servable includeUnfinished m) :=
  inferInstanceAs (Decidable (_ ∧ _))

theorem isServable_iff (b : Phrasebook) (m : Message) :
    b.isServable m.target = true ↔ Servable b.includeUnfinished m := by
  rw [isServable, Servable, Bool.and_eq_true, Bool.not_eq_true']
  cases m.target.status <;> simp

/-- A wording that may be served has a first text. -/
theorem Servable.exists_primary? {includeUnfinished : Bool} {m : Message}
    (h : Servable includeUnfinished m) : ∃ s, m.target.wording.primary? = some s := by
  have hsome : m.target.wording.primary?.isNone = false := by
    rw [← Wording.isEmpty_eq_isNone_primary?]
    exact h.1
  cases hprimary : m.target.wording.primary? with
  | some s => exact ⟨s, rfl⟩
  | none =>
    rw [hprimary] at hsome
    cases hsome

/-- The messages of catalogues that may be served, in the order in which they are loaded. -/
def servables (includeUnfinished : Bool) (cs : List Catalogue) : List (String × Message) :=
  (cs.flatMap Catalogue.messages).filter fun p => Servable includeUnfinished p.2

/-- The last message at an address that may be served. -/
def lastServable? (includeUnfinished : Bool) (cs : List Catalogue) (a : Catalogue.Address) :
    Option Message :=
  ((servables includeUnfinished cs).filter fun p => addressOf p = a).getLast?.map Prod.snd

section Served

variable {includeUnfinished : Bool} {cs : List Catalogue} {a : Catalogue.Address} {m : Message}

theorem mem_servables {p : String × Message} :
    p ∈ servables includeUnfinished cs ↔
      p ∈ cs.flatMap Catalogue.messages ∧ Servable includeUnfinished p.2 := by
  rw [servables, List.mem_filter, decide_eq_true_iff]

/-- The last servable message is one of the servable messages, and it is at the address. -/
theorem mem_of_lastServable? (h : lastServable? includeUnfinished cs a = some m) :
    (a.1, m) ∈ servables includeUnfinished cs ∧ m.key = a.2 := by
  obtain ⟨p, hlast, rfl⟩ := Option.map_eq_some_iff.1 h
  obtain ⟨hp, haddress⟩ := List.mem_filter.1 (List.mem_of_getLast? hlast)
  obtain rfl : addressOf p = a := of_decide_eq_true haddress
  exact ⟨hp, rfl⟩

/-- There is a last servable message where there is any. -/
theorem isSome_lastServable? :
    (lastServable? includeUnfinished cs a).isSome = true ↔
      ∃ p ∈ servables includeUnfinished cs, addressOf p = a := by
  rw [lastServable?, Option.isSome_map]
  constructor
  · intro h
    obtain ⟨p, hlast⟩ := Option.isSome_iff_exists.1 h
    obtain ⟨hp, haddress⟩ := List.mem_filter.1 (List.mem_of_getLast? hlast)
    exact ⟨p, hp, of_decide_eq_true haddress⟩
  · rintro ⟨p, hp, haddress⟩
    rw [Option.isSome_iff_ne_none, Ne, List.getLast?_eq_none_iff]
    exact List.ne_nil_of_mem (List.mem_filter.2 ⟨hp, decide_eq_true haddress⟩)

end Served

/-! ## One entry -/

theorem lookup_cons_eq_ite (e : Key × Wording) (es : List (Key × Wording)) (a : Key) :
    (e :: es).lookup a = if a = e.1 then some e.2 else es.lookup a := by
  rw [List.lookup_cons]
  by_cases ha : a = e.1
  · rw [if_pos ha, beq_iff_eq.2 ha]
  · rw [if_neg ha, beq_eq_false_iff_ne.2 ha]

/-- **A put is seen under its key,** and under no other. -/
theorem lookup_putEntry (key : Key) (w : Wording) (es : List (Key × Wording)) (a : Key) :
    (putEntry key w es).lookup a = if a = key then some w else es.lookup a := by
  induction es with
  | nil => exact lookup_cons_eq_ite (key, w) [] a
  | cons e rest ih =>
    rw [putEntry]
    split
    · rename_i he
      subst he
      rw [lookup_cons_eq_ite, lookup_cons_eq_ite]
      by_cases ha : a = e.1
      · rw [if_pos ha, if_pos ha]
      · rw [if_neg ha, if_neg ha, if_neg ha]
    · rename_i he
      rw [lookup_cons_eq_ite, ih, lookup_cons_eq_ite]
      by_cases ha : a = e.1
      · have hne : a ≠ key := fun h => he (ha.symm.trans h)
        rw [if_pos ha, if_pos ha, if_neg hne]
      · rw [if_neg ha, if_neg ha]

theorem putEntry_eq (key : Key) (w : Wording) (es : List (Key × Wording)) :
    putEntry key w es = Sequence.put Prod.fst key (fun _ => (key, w)) (key, w) es := by
  induction es with
  | nil => rfl
  | cons e es ih => rw [putEntry, Sequence.put, ih]

/-! ## Many entries -/

/-- The entries with the wordings of listed messages put in, one after the other. -/
def putAll (es : List (Key × Wording)) (ps : List (String × Message)) : List (Key × Wording) :=
  ps.foldl (fun es p => putEntry (addressOf p) p.2.target.wording es) es

/-- **The last of the listed messages at an address counts,** and where there is none, what
was there before. -/
theorem lookup_putAll (es : List (Key × Wording)) (ps : List (String × Message))
    (a : Catalogue.Address) :
    (putAll es ps).lookup a = ((ps.filter fun p => addressOf p = a).getLast?.map
      fun p => p.2.target.wording).or (es.lookup a) := by
  induction ps generalizing es with
  | nil => rfl
  | cons p ps ih =>
    have hrest : (putAll es (p :: ps)).lookup a =
        (putAll (putEntry (addressOf p) p.2.target.wording es) ps).lookup a := rfl
    rw [hrest, ih, lookup_putEntry]
    by_cases hp : a = addressOf p
    · rw [if_pos hp, List.filter_cons_of_pos (by simp [hp]), List.getLast?_cons]
      cases (ps.filter fun p => addressOf p = a).getLast? <;> rfl
    · rw [if_neg hp, List.filter_cons_of_neg (by simpa using Ne.symm hp)]

/-- No key repeats among the entries, and the keys are the addresses of the messages. -/
theorem keys_putAll (es : List (Key × Wording)) (ps : List (String × Message))
    (hes : (es.map Prod.fst).Nodup) :
    ((putAll es ps).map Prod.fst).Nodup ∧
      ∀ a, a ∈ (putAll es ps).map Prod.fst ↔ a ∈ es.map Prod.fst ∨ a ∈ ps.map addressOf := by
  induction ps generalizing es with
  | nil => exact ⟨hes, fun a => by simp [putAll]⟩
  | cons p ps ih =>
    have hnodup : ((putEntry (addressOf p) p.2.target.wording es).map Prod.fst).Nodup := by
      rw [putEntry_eq]
      exact Sequence.nodup_put (fun _ _ => rfl) rfl hes
    have hkeys : ∀ a, a ∈ (putEntry (addressOf p) p.2.target.wording es).map Prod.fst ↔
        a ∈ es.map Prod.fst ∨ a = addressOf p := by
      intro a
      rw [putEntry_eq]
      refine Sequence.mem_map_key_put ?_ ?_ es a
      · exact fun _ _ => rfl
      · rfl
    obtain ⟨hnodup', hkeys'⟩ := ih _ hnodup
    refine ⟨hnodup', fun a => (hkeys' a).trans ?_⟩
    rw [hkeys, List.map_cons, List.mem_cons, or_assoc]

/-! ## Loading -/

/-- A message of a listing is taken over if it may be. -/
theorem foldl_addMessage (ps : List (String × Message)) (b : Phrasebook) :
    ps.foldl (fun b p => b.addMessage p.1 p.2) b =
      { b with
        entries := putAll b.entries (ps.filter fun p => Servable b.includeUnfinished p.2) } := by
  induction ps generalizing b with
  | nil => rfl
  | cons p ps ih =>
    rw [List.foldl_cons, ih, addMessage]
    by_cases hp : Servable b.includeUnfinished p.2
    · rw [if_pos ((b.isServable_iff p.2).2 hp), List.filter_cons_of_pos (by simpa using hp)]
      rfl
    · rw [if_neg (mt (b.isServable_iff p.2).1 hp), List.filter_cons_of_neg (by simpa using hp)]

/-- The language of a catalogue has no part in what may be served. -/
theorem setLanguage_eq (b : Phrasebook) (language? : Option String) :
    (b.setLanguage language?).includeUnfinished = b.includeUnfinished ∧
      (b.setLanguage language?).entries = b.entries := by
  cases language? <;> exact ⟨rfl, rfl⟩

/-- Loading a catalogue puts in its servable messages and keeps what is wanted. -/
theorem load_eq (b : Phrasebook) (c : Catalogue) :
    (b.load c).includeUnfinished = b.includeUnfinished ∧
      (b.load c).entries =
        putAll b.entries (c.messages.filter fun p => Servable b.includeUnfinished p.2) := by
  obtain ⟨hwanted, hentries⟩ := b.setLanguage_eq c.language?
  have hload : b.load c = c.messages.foldl (fun b p => b.addMessage p.1 p.2)
      (b.setLanguage c.language?) := rfl
  rw [hload, foldl_addMessage, hwanted, hentries]
  exact ⟨rfl, rfl⟩

/-- The phrasebook of catalogues that are loaded one after the other. -/
def loadAll (includeUnfinished : Bool) (cs : List Catalogue) : Phrasebook :=
  cs.foldl load { includeUnfinished }

theorem entries_foldl_load (cs : List Catalogue) (b : Phrasebook) :
    (cs.foldl load b).entries = putAll b.entries (servables b.includeUnfinished cs) := by
  induction cs generalizing b with
  | nil => rfl
  | cons c cs ih =>
    obtain ⟨hwanted, hentries⟩ := b.load_eq c
    have hsplit : servables b.includeUnfinished (c :: cs) =
        (c.messages.filter fun p => Servable b.includeUnfinished p.2) ++
          servables b.includeUnfinished cs := by
      rw [servables, List.flatMap_cons, List.filter_append]
      rfl
    rw [List.foldl_cons, ih, hwanted, hentries, hsplit]
    exact List.foldl_append.symm

/-- **Loading puts in all servable messages,** in their order. -/
theorem entries_loadAll (includeUnfinished : Bool) (cs : List Catalogue) :
    (loadAll includeUnfinished cs).entries = putAll [] (servables includeUnfinished cs) :=
  entries_foldl_load cs { includeUnfinished }

/-- **An entry is the wording of the last servable message at its address.** -/
theorem entry?_loadAll (includeUnfinished : Bool) (cs : List Catalogue) (a : Key) :
    entry? (loadAll includeUnfinished cs) a =
      (lastServable? includeUnfinished cs a).map fun m => m.target.wording := by
  rw [ entry?, entries_loadAll, lookup_putAll, List.lookup_nil, Option.or_none, lastServable?,
    Option.map_map]
  rfl

/-- **A distinct catalogue serves each of its servable messages** under its address. -/
theorem entry?_ofCatalogue {includeUnfinished : Bool} {c : Catalogue} (hc : Distinct c.contexts)
    {p : String × Message} (hp : p ∈ c.messages) (h : Servable includeUnfinished p.2) :
    entry? (ofCatalogue includeUnfinished c) (addressOf p) = some p.2.target.wording := by
  have hsingle : c.messages.filter (fun q => addressOf q = addressOf p) = [p] :=
    hc.filter_eq_singleton hp
  have hservable : [p].filter (fun q => Servable includeUnfinished q.2) = [p] :=
    List.filter_cons_of_pos (by simpa using h)
  have hlast : lastServable? includeUnfinished [c] (addressOf p) = some p.2 := by
    rw [lastServable?, servables, List.flatMap_singleton, List.filter_comm, hsingle, hservable]
    rfl
  have hentry := entry?_loadAll includeUnfinished [c] (addressOf p)
  rw [hlast] at hentry
  exact hentry

/-- There are as many entries as addresses of servable messages. -/
theorem size_loadAll (includeUnfinished : Bool) (cs : List Catalogue) :
    (loadAll includeUnfinished cs).size =
      ((servables includeUnfinished cs).map addressOf).toFinset.card := by
  obtain ⟨hnodup, hkeys⟩ := keys_putAll [] (servables includeUnfinished cs) List.nodup_nil
  have hfinset : ((servables includeUnfinished cs).map addressOf).toFinset =
      ((putAll [] (servables includeUnfinished cs)).map Prod.fst).toFinset := by
    ext a
    rw [List.mem_toFinset, List.mem_toFinset, hkeys]
    simp
  rw [size, entries_loadAll, hfinset, List.toFinset_card_of_nodup hnodup, List.length_map]

/-! ## Looking up -/

section Lookup

variable (includeUnfinished : Bool) (cs : List Catalogue) (context source : String)
  (comment? : Option String)

/-- The message that is served for a text: the last one under its comment, and if there is
none, the last one without a comment. -/
def served? : Option Message :=
  (lastServable? includeUnfinished cs (context, .of source comment?)).or
    (if comment?.getD "" = "" then none
      else lastServable? includeUnfinished cs (context, .of source none))

theorem wording?_loadAll :
    (loadAll includeUnfinished cs).wording? context source comment? =
      (served? includeUnfinished cs context source comment?).map fun m => m.target.wording := by
  rw [wording?, entry?_loadAll, entry?_loadAll, ← Option.map_or, served?]
  split
  · rename_i hnone
    have hkey : Message.Key.of source comment? = .of source none := by
      rw [Message.Key.of, hnone]
      rfl
    rw [hkey, Option.or_self, Option.or_none]
  · rfl

variable {includeUnfinished cs context source comment?}

/-- What is served may be served, and it stands in the context and has the source. -/
theorem mem_of_served? {m : Message}
    (h : served? includeUnfinished cs context source comment? = some m) :
    (context, m) ∈ servables includeUnfinished cs ∧
      (m.key = .of source comment? ∨ m.key = .of source none) := by
  rcases Option.or_eq_some_iff.1 h with hown | ⟨-, hplain⟩
  · obtain ⟨hmem, hkey⟩ := mem_of_lastServable? hown
    exact ⟨hmem, Or.inl hkey⟩
  · split at hplain
    · cases hplain
    · obtain ⟨hmem, hkey⟩ := mem_of_lastServable? hplain
      exact ⟨hmem, Or.inr hkey⟩

/-- Something is served where a message may be, under the comment or under none. -/
theorem isSome_served? :
    (served? includeUnfinished cs context source comment?).isSome ↔
      ∃ p ∈ servables includeUnfinished cs,
        addressOf p = (context, .of source comment?) ∨ addressOf p = (context, .of source none) := by
  constructor
  · intro hsome
    obtain ⟨m, hm⟩ := Option.isSome_iff_exists.1 hsome
    obtain ⟨hmem, hkey⟩ := mem_of_served? hm
    exact ⟨(context, m), hmem, hkey.imp (congrArg (context, ·)) (congrArg (context, ·))⟩
  · rintro ⟨p, hp, haddress⟩
    rw [served?, Option.isSome_or, Bool.or_eq_true]
    by_cases hown : addressOf p = (context, .of source comment?)
    · exact Or.inl (isSome_lastServable?.2 ⟨p, hp, hown⟩)
    · -- under no comment the two addresses are one
      have hplain : addressOf p = (context, .of source none) := haddress.resolve_left hown
      have hcomment : comment?.getD "" ≠ "" := by
        intro hnone
        refine hown (hplain.trans ?_)
        rw [Message.Key.of, Message.Key.of, hnone]
        rfl
      rw [if_neg hcomment]
      exact Or.inr (isSome_lastServable?.2 ⟨p, hp, hplain⟩)

variable (includeUnfinished cs context source comment?)

/-- The text that is served is the first one of the message that is. -/
theorem text?_eq_served? :
    (loadAll includeUnfinished cs).text? context source comment? =
      (served? includeUnfinished cs context source comment?).bind
        fun m => m.target.wording.primary? := by
  rw [text?, wording?_loadAll, Option.bind_map]
  rfl

/-- **A phrasebook serves the first text of the last message that may be served,** after any
loads: under the comment, or else under none, or else nothing.  What it serves is a text
that is not empty, of a message that is finished, or unfinished where drafts are wanted; and
it has one entry for each address of a message that may be served. -/
theorem text?_loadAll :
    (loadAll includeUnfinished cs).text? context source comment? =
        ((lastServable? includeUnfinished cs (context, .of source comment?)).or
          (if comment?.getD "" = "" then none
            else lastServable? includeUnfinished cs (context, .of source none))).bind
          (fun m => m.target.wording.primary?) ∧
      (((loadAll includeUnfinished cs).text? context source comment?).isSome ↔
        ∃ p ∈ servables includeUnfinished cs,
          addressOf p = (context, .of source comment?) ∨
            addressOf p = (context, .of source none)) ∧
      (∀ s ∈ (loadAll includeUnfinished cs).text? context source comment?, s ≠ "" ∧
        ∃ p ∈ cs.flatMap Catalogue.messages, p.1 = context ∧ p.2.source = source ∧
          s ∈ p.2.target.wording.all ∧
          (p.2.target.status = .finished ∨
            includeUnfinished = true ∧ p.2.target.status = .unfinished)) ∧
      (loadAll includeUnfinished cs).size =
        ((servables includeUnfinished cs).map addressOf).toFinset.card := by
  have htext := text?_eq_served? includeUnfinished cs context source comment?
  refine ⟨htext, ?_, ?_, size_loadAll includeUnfinished cs⟩
  · rw [htext, ← isSome_served?]
    cases hserved : served? includeUnfinished cs context source comment? with
    | none => rfl
    | some m =>
      obtain ⟨s, hs⟩ := (mem_servables.1 (mem_of_served? hserved).1).2.exists_primary?
      rw [Option.bind_some, hs]
      rfl
  · intro s hs
    rw [htext] at hs
    obtain ⟨m, hm, hprimary⟩ := Option.bind_eq_some_iff.1 hs
    obtain ⟨hmem, hkey⟩ := mem_of_served? hm
    obtain ⟨hlisted, -, hstatus⟩ := mem_servables.1 hmem
    obtain ⟨hall, hne⟩ := Wording.mem_of_primary? hprimary
    refine ⟨hne, (context, m), hlisted, rfl, ?_, hall, hstatus⟩
    rcases hkey with hkey | hkey <;> exact congrArg Message.Key.source hkey

/-- A draft that is loaded later does not take away a finished wording. -/
example : (loadAll false [
    { contexts := [{ name := "Q", messages := [
      { source := "a", target := ⟨.finished, .lengths ["", "x"]⟩ }] }] },
    { contexts := [{ name := "Q", messages := [
      { source := "a", target := ⟨.unfinished, .plain "y"⟩ }] }] }]).text? "Q" "a" (some "b") =
    some "x" := by
  decide

end Lookup

end Phrasebook
end Linguist
