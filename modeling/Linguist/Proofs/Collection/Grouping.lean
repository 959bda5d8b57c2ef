import Linguist.Proofs.Collection
import Linguist.Proofs.Sequence.Grouping

/-!
# Collecting is grouping

The calls of some files are one list, each call with its file: they are the *uses* of
messages.  Collecting them groups this list twice, by context and inside each context by
key, and nothing else happens (`ofFiles_eq_grouped`).  A context is there because of a use,
and so is a message; they stand in the order in which they are first used, and a message is
the summary of its uses.

The collected catalogue is built one call at a time, with a search for the context and a
search for the message at every call.  Both searches change what they find or add something
blank that is changed in the same way, so both are gatherings in the sense of
`Sequence.gather`: the contexts gather uses, and the messages of a context gather those of
its uses (`foldl_addToMessages`).

## Empty comments

A message takes its comment from the first call for it, and further calls are found by key,
in which an absent and an empty comment are one.  That the comment is the same for all of
them, and not empty, is due to the calls: none has an empty comment
(`Code.comment?_of_mem_calls`).
-/

namespace Linguist

/-! ## Comments of calls -/

namespace Code

variable {defaultContext : String} {call : Call}

theorem comment?_of_callAt? {before : List Token} {notes : List String} {name : String}
    {line : Nat} {after : List Located}
    (h : callAt? defaultContext before notes name line after = some call) :
    call.comment? ≠ some "" := by
  obtain ⟨asking, -, h⟩ := Option.bind_eq_some_iff.1 h
  split at h
  · obtain ⟨⟨context, source, comment?, isPlural⟩, -, h⟩ := Option.bind_eq_some_iff.1 h
    rw [← Option.some.inj h]
    intro hempty
    have hfilter := (Option.filter_eq_some_iff.1 hempty).2
    cases hfilter
  · cases h

/-- Every call is found at a word among the tokens. -/
theorem exists_callAt?_of_mem {before : List Token} {notes : List String} {ts : List Located}
    (h : call ∈ callsFrom defaultContext before notes ts) :
    ∃ before notes name line after,
      callAt? defaultContext before notes name line after = some call := by
  fun_induction callsFrom defaultContext before notes ts with
  | case1 => cases h
  | case2 before notes line rest text ih => exact ih h
  | case3 before notes line rest name found hfound ih =>
    rcases List.mem_cons.1 h with rfl | h
    · exact ⟨before, notes, name, line, rest, hfound⟩
    · exact ih h
  | case4 before notes line rest name hnone ih => exact ih h
  | case5 before notes token line rest hnote hword ih => exact ih h

/-- **No call has an empty comment.** -/
theorem comment?_of_mem_calls {code : String} (h : call ∈ calls defaultContext code) :
    call.comment? ≠ some "" := by
  obtain ⟨_, _, _, _, _, hfound⟩ := exists_callAt?_of_mem h
  exact comment?_of_callAt? hfound

end Code

namespace Collection

/-! ## Uses -/

/-- A call with the file it stands in. -/
structure Use where
  file : String
  call : Code.Call
  deriving DecidableEq, Repr

namespace Use

/-- The context that is asked for. -/
def context (u : Use) : String :=
  u.call.context

/-- The key that is asked for. -/
def key (u : Use) : Message.Key :=
  .of u.call.source u.call.comment?

/-- The address that is asked for. -/
def address (u : Use) : Catalogue.Address :=
  (u.context, u.key)

/-- Where the call stands. -/
def place (u : Use) : Place :=
  placeOf u.file u.call

end Use

/-- The calls of some files, file by file. -/
def uses (defaultContext : String) (files : List (String × String)) : List Use :=
  files.flatMap fun (file, code) => (Code.calls defaultContext code).map (⟨file, ·⟩)

theorem comment?_of_mem_uses {defaultContext : String} {files : List (String × String)} {u : Use}
    (h : u ∈ uses defaultContext files) : u.call.comment? ≠ some "" := by
  obtain ⟨file, -, h⟩ := List.mem_flatMap.1 h
  obtain ⟨call, hcall, rfl⟩ := List.mem_map.1 h
  exact Code.comment?_of_mem_calls hcall

/-! ## Groups of uses -/

/-- A message without uses. -/
def blankMessage (key : Message.Key) : Message where
  source := key.source
  comment? := if key.comment = "" then none else some key.comment

/-- A message as the sum of its uses. -/
def summary (key : Message.Key) (us : List Use) : Message :=
  { blankMessage key with
    places := us.map Use.place
    isPlural := us.any (·.call.isPlural)
    extraComment? := us.findSome? (·.call.note?) }

/-- The uses of a context as its messages. -/
def messagesOf (us : List Use) : List Message :=
  (Sequence.distinct (us.map Use.key)).map fun key =>
    summary key (us.filter fun u => u.key = key)

/-- The uses as contexts. -/
def contextsOf (us : List Use) : List Context :=
  (Sequence.distinct (us.map Use.context)).map fun name =>
    { name, messages := messagesOf (us.filter fun u => u.context = name) }

@[simp] theorem key_blankMessage (key : Message.Key) : (blankMessage key).key = key := by
  obtain ⟨source, comment⟩ := key
  by_cases hcomment : comment = ""
  · simp [blankMessage, Message.key, Message.Key.of, hcomment]
  · simp [blankMessage, Message.key, Message.Key.of, hcomment]

theorem comment?_blankMessage (key : Message.Key) : (blankMessage key).comment? ≠ some "" := by
  rw [blankMessage]
  split
  · exact nofun
  · rename_i hcomment
    exact fun hempty => hcomment (Option.some.inj hempty)

@[simp] theorem key_summary (key : Message.Key) (us : List Use) : (summary key us).key = key :=
  key_blankMessage key

/-! ## Collecting uses -/

/-- A message with one more use. -/
def use (m : Message) (u : Use) : Message :=
  addUse u.file u.call m

/-- The message of a first use is a blank one that is used. -/
theorem messageOf_eq {u : Use} (h : u.call.comment? ≠ some "") :
    messageOf u.file u.call = use (blankMessage u.key) u := by
  have hcomment : u.call.comment? = if u.key.comment = "" then none else some u.key.comment := by
    show u.call.comment? =
      if u.call.comment?.getD "" = "" then none else some (u.call.comment?.getD "")
    cases hcomment : u.call.comment? with
    | none => rfl
    | some comment =>
      have hne : comment ≠ "" := fun hempty => h (by rw [hcomment, hempty])
      exact (if_neg hne).symm
  rw [messageOf, hcomment]
  rfl

/-- What uses make of a message. -/
theorem foldl_use (m : Message) (us : List Use) :
    us.foldl use m =
      { m with
        places := m.places ++ us.map Use.place
        isPlural := m.isPlural || us.any (·.call.isPlural)
        extraComment? := m.extraComment?.or (us.findSome? (·.call.note?)) } := by
  induction us generalizing m with
  | nil => simp
  | cons u us ih =>
    rw [List.foldl_cons, ih]
    simp only [use, addUse, List.map_cons, List.any_cons, List.findSome?_cons, List.append_assoc,
      List.singleton_append, Bool.or_assoc, Option.or_assoc]
    cases u.call.note? <;> rfl

/-- A blank message that is used is the summary of its uses. -/
theorem foldl_use_blankMessage (key : Message.Key) (us : List Use) :
    us.foldl use (blankMessage key) = summary key us := by
  rw [foldl_use]
  simp [summary, blankMessage]

/-- **The messages of a context are its uses, grouped by key.** -/
theorem foldl_addToMessages {us : List Use} (h : ∀ u ∈ us, u.call.comment? ≠ some "") :
    us.foldl (fun ms u => addToMessages u.file u.call ms) [] = messagesOf us := by
  have hgather : us.foldl (fun ms u => addToMessages u.file u.call ms) [] =
      Sequence.gather Message.key Use.key use blankMessage us := by
    refine List.foldl_ext _ _ _ fun ms u hu => ?_
    rw [addToMessages_eq, messageOf_eq (h u hu)]
    rfl
  rw [hgather, Sequence.gather_eq Use.key use (fun _ _ => rfl) key_blankMessage]
  exact List.map_congr_left fun key _ => foldl_use_blankMessage key _

/-- A context with one more use. -/
def addToContext (x : Context) (u : Use) : Context :=
  x.withMessages (addToMessages u.file u.call x.messages)

theorem foldl_addToContext (x : Context) (us : List Use) :
    us.foldl addToContext x =
      x.withMessages (us.foldl (fun ms u => addToMessages u.file u.call ms) x.messages) := by
  induction us generalizing x with
  | nil => rfl
  | cons u us ih => rw [List.foldl_cons, ih]; rfl

/-- The catalogue with one more use. -/
def add (c : Catalogue) (u : Use) : Catalogue :=
  addCall u.file c u.call

theorem contexts_foldl_add (c : Catalogue) (us : List Use) :
    us.foldl add c =
      { c with
        contexts := us.foldl (fun xs u => Sequence.put Context.name u.context (addToContext · u)
          (addToContext { name := u.context } u) xs) c.contexts } := by
  induction us generalizing c with
  | nil => rfl
  | cons u us ih =>
    rw [List.foldl_cons, ih, List.foldl_cons, add, addCall, Catalogue.changeContext_eq]
    rfl

/-- Collecting goes from use to use. -/
theorem ofFiles_eq_foldl (defaultContext : String) (files : List (String × String)) :
    ofFiles defaultContext files = (uses defaultContext files).foldl add .empty := by
  rw [ofFiles, uses, List.foldl_flatMap]
  refine congrArg (files.foldl · Catalogue.empty) (funext fun c => funext fun (file, code) => ?_)
  show (Code.calls defaultContext code).foldl (addCall file) c = _
  rw [List.foldl_map]
  rfl

/-- **Collecting is grouping:** the uses by context, and those of a context by key. -/
theorem ofFiles_eq_grouped (defaultContext : String) (files : List (String × String)) :
    ofFiles defaultContext files = { contexts := contextsOf (uses defaultContext files) } := by
  have hgather : Sequence.gather Context.name Use.context addToContext (fun name => { name })
      (uses defaultContext files) = _ :=
    Sequence.gather_eq Use.context addToContext (fun _ _ => rfl) (fun _ => rfl) _
  rw [ofFiles_eq_foldl, contexts_foldl_add]
  refine congrArg (fun xs => ({ contexts := xs } : Catalogue)) (hgather.trans ?_)
  refine List.map_congr_left fun name _ => ?_
  rw [foldl_addToContext, foldl_addToMessages]
  · rfl
  · exact fun u hu => comment?_of_mem_uses (List.mem_filter.1 hu).1

/-! ## What grouping comes to -/

theorem filter_address (us : List Use) (name : String) (key : Message.Key) :
    (us.filter fun u => u.context = name).filter (fun u => u.key = key) =
      us.filter fun u => u.address = (name, key) := by
  rw [List.filter_filter]
  refine List.filter_congr fun u _ => ?_
  rw [← Bool.decide_and]
  exact decide_eq_decide.2 (by rw [Use.address, Prod.mk.injEq, and_comm])

/-- The listed messages are the addresses that are used, each with the summary of its uses. -/
theorem mem_listing_contextsOf {us : List Use} {p : String × Message} :
    p ∈ listing (contextsOf us) ↔
      addressOf p ∈ us.map Use.address ∧
        p.2 = summary p.2.key (us.filter fun u => u.address = addressOf p) := by
  constructor
  · intro hp
    obtain ⟨x, hx, hname, hm⟩ := exists_of_mem_listing hp
    obtain ⟨name, -, rfl⟩ := List.mem_map.1 hx
    obtain ⟨key, hkey, hsummary⟩ := List.mem_map.1 hm
    have hname : p.1 = name := hname
    have hp2 : p.2.key = key := hsummary ▸ key_summary key _
    obtain ⟨u, hu, rfl⟩ := List.mem_map.1 (Sequence.mem_distinct.1 hkey)
    obtain ⟨hu, hcontext⟩ := List.mem_filter.1 hu
    rw [addressOf, hname, hp2, ← filter_address]
    refine ⟨List.mem_map.2 ⟨u, hu, ?_⟩, hsummary.symm⟩
    rw [Use.address, of_decide_eq_true hcontext]
  · rintro ⟨haddress, hsummary⟩
    obtain ⟨u, hu, hua⟩ := List.mem_map.1 haddress
    obtain ⟨hcontext, hkey⟩ := Prod.mk.inj hua
    have hown : u ∈ us.filter fun v => v.context = p.1 :=
      List.mem_filter.2 ⟨hu, decide_eq_true hcontext⟩
    refine List.mem_flatMap.2
      ⟨{ name := p.1, messages := messagesOf (us.filter fun v => v.context = p.1) }, ?_, ?_⟩
    · exact List.mem_map_of_mem (Sequence.mem_distinct.2 (hcontext ▸ List.mem_map_of_mem hu))
    · refine Context.mem_listing.2 ⟨rfl, List.mem_map.2 ⟨p.2.key, ?_, ?_⟩⟩
      · exact Sequence.mem_distinct.2 (hkey ▸ List.mem_map_of_mem hown)
      · rw [filter_address]
        exact hsummary.symm

/-- **A catalogue groups uses.**  There is a message for every address that is used and for no
other, contexts and messages come in the order of their first uses, and a message is the
summary of the uses of its address. -/
structure Groups (us : List Use) (c : Catalogue) : Prop where
  distinct : Distinct c.contexts
  filled : ∀ x ∈ c.contexts, x.messages ≠ []
  addresses : (c.messages.map addressOf).Perm (Sequence.distinct (us.map Use.address))
  names : c.contexts.map Context.name = Sequence.distinct (us.map Use.context)
  keys : ∀ x ∈ c.contexts, x.messages.map Message.key =
    Sequence.distinct ((us.filter fun u => u.context = x.name).map Use.key)
  messages : ∀ p ∈ c.messages, p.2 = summary p.2.key (us.filter fun u => u.address = addressOf p)
  untouched : ∀ p ∈ c.messages, p.2.target = .untouched ∧ p.2.comment? ≠ some ""
  places : Sequence.total (·.2.places.length) c.messages = us.length
  bare : c = { contexts := c.contexts }

theorem map_name_contextsOf (us : List Use) :
    (contextsOf us).map Context.name = Sequence.distinct (us.map Use.context) := by
  rw [contextsOf, List.map_map]
  exact List.map_id _

theorem map_key_messagesOf (us : List Use) :
    (messagesOf us).map Message.key = Sequence.distinct (us.map Use.key) := by
  rw [messagesOf, List.map_map, (funext fun key => key_summary key _ : Message.key ∘ _ = id)]
  exact List.map_id _

theorem distinct_contextsOf (us : List Use) : Distinct (contextsOf us) := by
  constructor
  · rw [map_name_contextsOf]
    exact Sequence.nodup_distinct _
  · intro x hx
    obtain ⟨name, -, rfl⟩ := List.mem_map.1 hx
    rw [map_key_messagesOf]
    exact Sequence.nodup_distinct _

/-- No context is there without a use. -/
theorem messages_ne_nil_of_mem {us : List Use} {x : Context} (hx : x ∈ contextsOf us) :
    x.messages ≠ [] := by
  obtain ⟨name, hname, rfl⟩ := List.mem_map.1 hx
  obtain ⟨u, hu, rfl⟩ := List.mem_map.1 (Sequence.mem_distinct.1 hname)
  have hown : u ∈ us.filter fun v => v.context = u.context :=
    List.mem_filter.2 ⟨hu, decide_eq_true rfl⟩
  have hkey := Sequence.mem_distinct.2 (List.mem_map_of_mem hown : u.key ∈ _)
  exact List.ne_nil_of_mem (List.mem_map_of_mem hkey)

/-- The addresses that are listed are those that are used, each once. -/
theorem perm_addresses (us : List Use) :
    ((listing (contextsOf us)).map addressOf).Perm (Sequence.distinct (us.map Use.address)) := by
  refine (List.perm_ext_iff_of_nodup (distinct_contextsOf us).nodup_addresses
    (Sequence.nodup_distinct _)).2 fun a => ?_
  rw [Sequence.mem_distinct]
  constructor
  · intro ha
    obtain ⟨p, hp, rfl⟩ := List.mem_map.1 ha
    exact (mem_listing_contextsOf.1 hp).1
  · intro ha
    refine List.mem_map.2 ⟨(a.1, summary a.2 (us.filter fun u => u.address = a)), ?_, ?_⟩
    · exact mem_listing_contextsOf.2
        ⟨by rwa [addressOf, key_summary], by rw [addressOf, key_summary]⟩
    · rw [addressOf, key_summary]

/-- The places of all messages are as many as the uses. -/
theorem total_places (us : List Use) :
    Sequence.total (·.2.places.length) (listing (contextsOf us)) = us.length := by
  have hlength : ∀ p ∈ listing (contextsOf us),
      p.2.places.length = (us.filter fun u => u.address = addressOf p).length := by
    intro p hp
    have hplaces := congrArg Message.places (mem_listing_contextsOf.1 hp).2
    exact (congrArg List.length hplaces).trans (List.length_map _)
  have haddress : ∀ u ∈ us, u.address ∈ (listing (contextsOf us)).map addressOf := fun u hu =>
    (perm_addresses us).mem_iff.2 (Sequence.mem_distinct.2 (List.mem_map_of_mem hu))
  rw [Sequence.total_eq_sum, List.map_congr_left hlength,
    ← Sequence.sum_length_filter (distinct_contextsOf us).nodup_addresses haddress, List.map_map]
  rfl

/-- **Collected messages are groups of calls.** -/
theorem groups_ofFiles (defaultContext : String) (files : List (String × String)) :
    Groups (uses defaultContext files) (ofFiles defaultContext files) := by
  rw [ofFiles_eq_grouped]
  refine {
    distinct := distinct_contextsOf _
    filled := fun x hx => messages_ne_nil_of_mem hx
    addresses := perm_addresses _
    names := map_name_contextsOf _
    keys := fun x hx => ?_
    messages := fun p hp => (mem_listing_contextsOf.1 hp).2
    untouched := fun p hp => ?_
    places := total_places _
    bare := rfl }
  · obtain ⟨name, -, rfl⟩ := List.mem_map.1 hx
    exact map_key_messagesOf _
  · rw [(mem_listing_contextsOf.1 hp).2]
    exact ⟨rfl, comment?_blankMessage _⟩

end Collection
end Linguist
