import Linguist.Proofs.Merge.Ledger
import Linguist.Proofs.Sequence

/-!
# What is left of the old messages

When every collected message has been merged, the pools are emptied one after the other.
A message that stays is filed at the end of the first context of its name, or of a new
context, as vanished and without places; the others go.  So the contexts that are there
already only grow at the end (`Filed`), and what they gain are the messages that stay,
each once (`perm_retirePools`).

A retired message stays as it is when it is retired again (`retire?_retired`), which is
why a second merge finds the ends of the contexts finished.
-/

namespace Linguist
namespace Merge

variable (options : Options)

/-! ## One message -/

/-- Whether a message that is left stays in the catalogue. -/
def stays (m : Message) : Bool :=
  !(options.dropVanished || m.target.isEmpty)

/-- The status of a message that left the code. -/
def retiredStatus (s : Status) : Status :=
  if s = .obsolete then .obsolete else .vanished

/-- A message that left the code: it has no places, and it is vanished, unless it is
obsolete. -/
def retired (m : Message) : Message :=
  { m with places := [], target := ⟨retiredStatus m.target.status, m.target.wording⟩ }

@[simp] theorem retired_key (m : Message) : (retired m).key = m.key := rfl

@[simp] theorem retired_places (m : Message) : (retired m).places = [] := rfl

@[simp] theorem retired_wording (m : Message) :
    (retired m).target.wording = m.target.wording := rfl

@[simp] theorem retired_status (m : Message) :
    (retired m).target.status = retiredStatus m.target.status := rfl

theorem retiredStatus_eq (s : Status) :
    retiredStatus s = .vanished ∨ retiredStatus s = .obsolete := by
  cases s <;> decide

@[simp] theorem retiredStatus_idem (s : Status) :
    retiredStatus (retiredStatus s) = retiredStatus s := by
  cases s <;> rfl

@[simp] theorem retired_idem (m : Message) : retired (retired m) = retired m := by
  simp [retired]

@[simp] theorem stays_retired (m : Message) : stays options (retired m) = stays options m := rfl

theorem stays_iff {m : Message} :
    stays options m = true ↔ options.dropVanished = false ∧ m.target.isEmpty = false := by
  simp [stays]

/-- A message that is left is retired if it stays. -/
theorem retire?_eq (m : Message) :
    retire? options m = if stays options m then some (retired m) else none := by
  by_cases h : (options.dropVanished || m.target.isEmpty) = true
  · rw [retire?, if_pos h, stays, h]
    rfl
  · rw [retire?, if_neg h, stays, Bool.eq_false_iff.2 h]
    rfl

/-- **Retiring a retired message changes nothing.** -/
theorem retire?_retired {m : Message} (h : stays options m = true) :
    retire? options (retired m) = some (retired m) := by
  rw [retire?_eq, stays_retired, if_pos h, retired_idem]

theorem stays_of_retire? {m : Message} (h : retire? options m = some m) :
    stays options m = true := by
  rw [retire?_eq] at h
  split at h
  · assumption
  · cases h

theorem filterMap_retire? (ms : List Message) :
    ms.filterMap (retire? options) = (ms.filter (stays options)).map retired := by
  rw [funext (retire?_eq options), ← List.filterMap_eq_map, List.filterMap_filter]
  rfl

theorem retire?_of_mem {ms : List Message} {m : Message}
    (h : m ∈ ms.filterMap (retire? options)) : retire? options m = some m := by
  rw [filterMap_retire?] at h
  obtain ⟨m', hm', rfl⟩ := List.mem_map.1 h
  exact retire?_retired options (List.mem_filter.1 hm').2

/-! ## Contexts that grow -/

/-- The second context is the first with retired messages at its end. -/
def Grows (x y : Context) : Prop :=
  ∃ back, y = x.withMessages (x.messages ++ back) ∧ ∀ m ∈ back, retire? options m = some m

/-- The second contexts are the first, grown, and behind them contexts of retired
messages. -/
def Filed : List Context → List Context → Prop
  | [], ys => ∀ y ∈ ys, y.messages ≠ [] ∧ ∀ m ∈ y.messages, retire? options m = some m
  | x :: xs, y :: ys => Grows options x y ∧ Filed xs ys
  | _ :: _, [] => False

variable {options}

theorem Grows.refl (x : Context) : Grows options x x := by
  refine ⟨[], ?_, fun _ hm => absurd hm List.not_mem_nil⟩
  rw [List.append_nil]
  rfl

theorem Grows.withMessages {x y : Context} {ms : List Message} (h : Grows options x y)
    (hms : ∀ m ∈ ms, retire? options m = some m) :
    Grows options x (y.withMessages (y.messages ++ ms)) := by
  obtain ⟨back, rfl, hback⟩ := h
  refine ⟨back ++ ms, ?_, fun m hm => (List.mem_append.1 hm).elim (hback m) (hms m)⟩
  rw [← List.append_assoc]
  rfl

theorem Filed.refl (xs : List Context) : Filed options xs xs := by
  induction xs with
  | nil => exact fun _ hy => absurd hy List.not_mem_nil
  | cons x xs ih => exact ⟨.refl x, ih⟩

/-- A context with further messages at its end. -/
def join (part : Context × List Message) : Context :=
  part.1.withMessages (part.1.messages ++ part.2)

/-- Filed contexts are the first ones, each joined with what it has gained, and behind them
contexts of retired messages. -/
theorem Filed.split {xs ys : List Context} (h : Filed options xs ys) :
    ∃ (parts : List (Context × List Message)) (more : List Context),
      parts.map Prod.fst = xs ∧ ys = parts.map join ++ more ∧
      (∀ part ∈ parts, ∀ m ∈ part.2, retire? options m = some m) ∧ Filed options [] more := by
  induction xs generalizing ys with
  | nil => exact ⟨[], ys, rfl, rfl, fun _ hpart => absurd hpart List.not_mem_nil, h⟩
  | cons x xs ih =>
    cases ys with
    | nil => exact h.elim
    | cons y ys =>
      obtain ⟨⟨back, rfl, hback⟩, hrest⟩ := h
      obtain ⟨parts, more, rfl, rfl, hparts, hmore⟩ := ih hrest
      exact ⟨(x, back) :: parts, more, rfl, rfl, List.forall_mem_cons.2 ⟨hback, hparts⟩, hmore⟩

variable {name : String} {comment? : Option String} {ms : List Message}

/-- Filing messages keeps what is filed. -/
theorem Filed.appendTo {xs ys : List Context} (h : Filed options xs ys) (hne : ms ≠ [])
    (hms : ∀ m ∈ ms, retire? options m = some m) :
    Filed options xs (appendTo name comment? ms ys) := by
  induction xs generalizing ys with
  | nil =>
    induction ys with
    | nil =>
      intro y hy
      rw [List.mem_singleton.1 hy]
      exact ⟨hne, hms⟩
    | cons y ys ih =>
      obtain ⟨hy, hys⟩ := List.forall_mem_cons.1 h
      rw [Merge.appendTo]
      split
      · refine List.forall_mem_cons.2 ⟨⟨?_, fun m hm => ?_⟩, hys⟩
        · exact List.append_ne_nil_of_left_ne_nil hy.1 ms
        · exact (List.mem_append.1 hm).elim (hy.2 m) (hms m)
      · exact List.forall_mem_cons.2 ⟨hy, ih hys⟩
  | cons x xs ih =>
    cases ys with
    | nil => exact h.elim
    | cons y ys =>
      rw [Merge.appendTo]
      split
      · exact ⟨h.1.withMessages hms, h.2⟩
      · exact ⟨h.1, ih h.2⟩

/-- The listing gains what is filed. -/
theorem perm_appendTo (name : String) (comment? : Option String) (ms : List Message)
    (ys : List Context) :
    (listing (appendTo name comment? ms ys)).Perm (listing ys ++ ms.map (name, ·)) := by
  induction ys with
  | nil =>
    rw [appendTo, listing_cons, listing_nil, List.append_nil, List.nil_append]
    exact .refl _
  | cons y ys ih =>
    rw [appendTo]
    split
    · rename_i hname
      have hlisting : (y.withMessages (y.messages ++ ms)).listing =
          y.listing ++ ms.map (name, ·) := by
        rw [Context.listing, Context.listing, ← hname]
        exact List.map_append
      rw [listing_cons, listing_cons, hlisting, List.append_assoc, List.append_assoc]
      exact List.perm_append_comm.append_left _
    · rw [listing_cons, listing_cons, List.append_assoc]
      exact ih.append_left _

theorem appendTo_eq (name : String) (comment? : Option String) (ms : List Message)
    (ys : List Context) :
    appendTo name comment? ms ys = Sequence.put Context.name name
      (fun y => y.withMessages (y.messages ++ ms)) ⟨name, comment?, ms⟩ ys := by
  induction ys with
  | nil => rfl
  | cons y ys ih => rw [appendTo, Sequence.put, ih]

/-- A name is added only if it is new. -/
theorem nodup_names_appendTo {ys : List Context} (h : (ys.map Context.name).Nodup) :
    ((appendTo name comment? ms ys).map Context.name).Nodup := by
  rw [appendTo_eq]
  exact Sequence.nodup_put (fun _ => id) rfl h

/-! ## All pools -/

variable (options)

/-- The old messages of a listing that stay. -/
def staying (ps : List (String × Message)) : List (String × Message) :=
  ps.filter fun p => stays options p.2

/-- The old messages of a listing that go. -/
def going (ps : List (String × Message)) : List (String × Message) :=
  ps.filter fun p => !stays options p.2

theorem perm_staying_going (ps : List (String × Message)) :
    (staying options ps ++ going options ps).Perm ps :=
  List.filter_append_perm (fun p : String × Message => stays options p.2) ps

theorem staying_append (ps qs : List (String × Message)) :
    staying options (ps ++ qs) = staying options ps ++ staying options qs :=
  List.filter_append ..

theorem going_append (ps qs : List (String × Message)) :
    going options (ps ++ qs) = going options ps ++ going options qs :=
  List.filter_append ..

/-- The counters of what is left. -/
def leftCount (ps : List (String × Message)) : Report where
  vanished := (staying options ps).length
  pruned := (going options ps).length

theorem leftCount_append (ps qs : List (String × Message)) :
    leftCount options (ps ++ qs) = (leftCount options ps).plus (leftCount options qs) := by
  simp [leftCount, staying_append, going_append, Report.plus]

/-- The messages that stay, retired. -/
def retiredListing (ps : List (String × Message)) : List (String × Message) :=
  (staying options ps).map fun p => (p.1, retired p.2)

theorem retiredListing_append (ps qs : List (String × Message)) :
    retiredListing options (ps ++ qs) = retiredListing options ps ++ retiredListing options qs := by
  rw [retiredListing, staying_append, List.map_append]
  rfl

variable (xs : List Context) (r : Report) (p : Pool)

/-- What a pool retires is what its listing says. -/
theorem map_retire?_pool :
    (p.messages.filterMap (retire? options)).map (p.name, ·) =
      retiredListing options p.rest.listing := by
  rw [filterMap_retire?, retiredListing, staying, Context.listing, List.filter_map,
    List.map_map, List.map_map]
  rfl

theorem length_retire?_pool :
    (p.messages.filterMap (retire? options)).length = (staying options p.rest.listing).length := by
  rw [← List.length_map (p.name, ·), map_retire?_pool, retiredListing, List.length_map]

theorem filed_retirePool {ys : List Context} (h : Filed options xs ys) :
    Filed options xs (retirePool options ys r p).1 := by
  rw [retirePool]
  split
  · exact h
  · rename_i hleft
    exact h.appendTo (mt List.isEmpty_iff.2 hleft) fun m => retire?_of_mem options

theorem perm_retirePool :
    (listing (retirePool options xs r p).1).Perm
      (listing xs ++ retiredListing options p.rest.listing) := by
  rw [← map_retire?_pool, retirePool]
  split
  · rename_i hleft
    rw [List.isEmpty_iff.1 hleft, List.map_nil, List.append_nil]
  · exact perm_appendTo _ _ _ _

theorem nodup_names_retirePool (h : (xs.map Context.name).Nodup) :
    ((retirePool options xs r p).1.map Context.name).Nodup := by
  rw [retirePool]
  split
  · exact h
  · exact nodup_names_appendTo h

theorem report_retirePool :
    (retirePool options xs r p).2 = r.plus (leftCount options p.rest.listing) := by
  have hlength : p.messages.length = (p.messages.filterMap (retire? options)).length +
      (going options p.rest.listing).length := by
    rw [length_retire?_pool, ← List.length_append,
      (perm_staying_going options p.rest.listing).length_eq, Context.length_listing]
    rfl
  rw [retirePool, Report.plus, leftCount, ← length_retire?_pool]
  simp only [Report.mk.injEq, Nat.add_zero, true_and]
  omega

/-- Empties the pools. -/
def retirePools (pools : List Pool) (xs : List Context) (r : Report) : List Context × Report :=
  pools.foldl (fun (xs, r) p => retirePool options xs r p) (xs, r)

/-- The merge walks along the collected contexts and then empties the pools. -/
theorem mergeContexts_eq (existing extracted : Catalogue) :
    mergeContexts options existing extracted =
      retirePools options (walked options existing extracted).2.pools
        (walked options existing extracted).1 (walked options existing extracted).2.report := rfl

theorem retirePools_cons (pools : List Pool) :
    retirePools options (p :: pools) xs r =
      retirePools options pools (retirePool options xs r p).1 (retirePool options xs r p).2 := rfl

/-- **The contexts that are there only grow.** -/
theorem filed_retirePools {ys : List Context} (h : Filed options xs ys) (pools : List Pool) :
    Filed options xs (retirePools options pools ys r).1 := by
  induction pools generalizing ys r with
  | nil => exact h
  | cons p pools ih => exact ih _ (filed_retirePool options xs r p h)

/-- **The contexts gain what stays,** each message once. -/
theorem perm_retirePools (pools : List Pool) :
    (listing (retirePools options pools xs r).1).Perm
      (listing xs ++ retiredListing options (listing (left pools))) := by
  induction pools generalizing xs r with
  | nil =>
    rw [left, List.map_nil, listing_nil]
    exact .of_eq (List.append_nil _).symm
  | cons p pools ih =>
    have hsplit : listing (left (p :: pools)) = p.rest.listing ++ listing (left pools) := rfl
    rw [retirePools_cons, hsplit, retiredListing_append, ← List.append_assoc]
    exact (ih _ _).trans ((perm_retirePool options xs r p).append_right _)

/-- The merged contexts are those of the walk, grown. -/
theorem filed_mergeContexts (existing extracted : Catalogue) :
    Filed options (walked options existing extracted).1
      (mergeContexts options existing extracted).1 :=
  filed_retirePools options _ _ (.refl _) _

theorem nodup_names_retirePools (h : (xs.map Context.name).Nodup) (pools : List Pool) :
    ((retirePools options pools xs r).1.map Context.name).Nodup := by
  induction pools generalizing xs r with
  | nil => exact h
  | cons p pools ih => exact ih _ _ (nodup_names_retirePool options xs r p h)

/-- Every message that is left is counted as staying or as going. -/
theorem report_retirePools (pools : List Pool) :
    (retirePools options pools xs r).2 = r.plus (leftCount options (listing (left pools))) := by
  induction pools generalizing xs r with
  | nil => rfl
  | cons p pools ih =>
    rw [retirePools_cons, ih, report_retirePool, Report.plus_assoc, ← leftCount_append]
    rfl

end Merge
end Linguist
