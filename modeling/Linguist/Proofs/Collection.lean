import Linguist.Collection
import Linguist.Proofs.Catalogue.Address
import Linguist.Proofs.Catalogue.Places
import Linguist.Proofs.Code.Lines

/-!
# What is collected from code

Collecting calls never makes two contexts of one name or two messages of one key in a
context (`distinct_ofFiles`).  Whatever else is to be shown of the collected messages can be
shown of the message that a call makes and of a message that a call is added to
(`forall_ofFiles`).

Two things are shown in this way.  A collected message has a source text if the calls have
one, and its places are *exact*: each has its file and a line, counted from one
(`exact_ofFiles`).  For this no file may have so many lines that their numbers do not fit
into 32 bits.

## Exact places

Exact places need nothing before them to be understood.  So resolving leaves them as they
are, abbreviating makes every line a relative one, and no style of places makes a line zero
of them (`line?_withPlaces`).
-/

namespace Linguist

/-! ## Exact places -/

/-- A place with its file and a line of the file. -/
def Place.Exact (p : Place) : Prop :=
  ∃ file line, p = .inFile file line ∧ line ≠ 0

namespace Catalogue

theorem exact_resolvePlace (t : Trail) {p : Place} (h : p.Exact) : (resolvePlace t p).1.Exact := by
  obtain ⟨file, line, rfl, hline⟩ := h
  refine ⟨file, line, ?_, hline⟩
  show (⟨some file, some (.absolute (clampLine line.toNat))⟩ : Place) = .inFile file line
  rw [clampLine_toNat]
  rfl

theorem line?_abbreviatePlace (t : Trail) {p : Place} (h : p.Exact) :
    (abbreviatePlace t p).1.line? ≠ some (.absolute 0) := by
  obtain ⟨file, line, rfl, -⟩ := h
  exact fun hzero => nomatch hzero

/-- **No style makes a line zero of exact places.** -/
theorem line?_withPlaces {c : Catalogue} (h : c.ForallPlaces Place.Exact) (style : Place.Style) :
    (c.withPlaces style).ForallPlaces fun p => p.line? ≠ some (.absolute 0) := by
  have hresolve : c.resolve.ForallPlaces Place.Exact := h.walk fun t p => exact_resolvePlace t
  cases style with
  | relative => exact hresolve.walk fun t p => line?_abbreviatePlace t
  | absolute =>
    intro x hx m hm p hp
    obtain ⟨file, line, rfl, hline⟩ := hresolve x hx m hm p hp
    exact fun hzero => hline (LineNumber.absolute.inj (Option.some.inj hzero))
  | none =>
    intro x hx m hm p hp
    obtain ⟨x', -, rfl⟩ := List.mem_map.1 hx
    obtain ⟨m', -, rfl⟩ := List.mem_map.1 hm
    cases hp

/-- Changing a context is putting it among the others. -/
theorem changeContext_eq (name : String) (f : Context → Context) (xs : List Context) :
    changeContext name f xs = Sequence.put Context.name name f (f { name }) xs := by
  induction xs with
  | nil => rfl
  | cons x xs ih => simp only [changeContext, Sequence.put, ih, beq_iff_eq]

end Catalogue

/-! ## Collecting -/

namespace Collection

variable {file defaultContext : String} {files : List (String × String)} {call : Code.Call}
  {c : Catalogue} {P : Message → Prop}

theorem addToMessages_eq (file : String) (call : Code.Call) (ms : List Message) :
    addToMessages file call ms = Sequence.put Message.key (.of call.source call.comment?)
      (addUse file call) (messageOf file call) ms := by
  rw [addToMessages, Sequence.put_eq_getD]
  split
  · rename_i hchange
    exact (Option.getD_eq_iff.2 (Or.inl hchange)).symm
  · rename_i hnone
    exact (Option.getD_eq_iff.2 (Or.inr ⟨hnone, rfl⟩)).symm

/-- A distinct catalogue whose messages all have a property. -/
structure Keeps (P : Message → Prop) (c : Catalogue) : Prop where
  distinct : Distinct c.contexts
  messages : ∀ x ∈ c.contexts, ∀ m ∈ x.messages, P m

/-- **One call more.** -/
theorem Keeps.addCall (h : Keeps P c) (hnew : P (messageOf file call))
    (huse : ∀ m, m.key = .of call.source call.comment? → P m → P (addUse file call m)) :
    Keeps P (addCall file c call) := by
  have hcontext : ∀ x : Context,
      (x.messages.map Message.key).Nodup ∧ (∀ m ∈ x.messages, P m) →
      ((addToMessages file call x.messages).map Message.key).Nodup ∧
        ∀ m ∈ addToMessages file call x.messages, P m := by
    rintro x ⟨hkeys, hmessages⟩
    rw [addToMessages_eq]
    exact ⟨Sequence.nodup_put (fun _ => id) rfl hkeys, Sequence.forall_put huse hnew hmessages⟩
  have hcontexts : ∀ x ∈ (Collection.addCall file c call).contexts,
      (x.messages.map Message.key).Nodup ∧ ∀ m ∈ x.messages, P m := by
    rw [Collection.addCall, Catalogue.changeContext_eq]
    refine Sequence.forall_put (fun x _ => hcontext x) (hcontext { name := call.context } ?_) ?_
    · exact ⟨List.nodup_nil, fun _ hm => absurd hm List.not_mem_nil⟩
    · exact fun x hx => ⟨h.distinct.2 x hx, h.messages x hx⟩
  have hnames : ((Collection.addCall file c call).contexts.map Context.name).Nodup := by
    rw [Collection.addCall, Catalogue.changeContext_eq]
    exact Sequence.nodup_put (fun _ => id) rfl h.distinct.1
  exact ⟨⟨hnames, fun x hx => (hcontexts x hx).1⟩, fun x hx => (hcontexts x hx).2⟩

/-- **Any number of files.** -/
theorem keeps_ofFiles
    (hnew : ∀ file ∈ files, ∀ call ∈ Code.calls defaultContext file.2, P (messageOf file.1 call))
    (huse : ∀ file ∈ files, ∀ call ∈ Code.calls defaultContext file.2, ∀ m,
      m.key = .of call.source call.comment? → P m → P (addUse file.1 call m)) :
    Keeps P (ofFiles defaultContext files) := by
  have hempty : Keeps P .empty :=
    ⟨⟨List.nodup_nil, fun _ hx => absurd hx List.not_mem_nil⟩,
      fun _ hx => absurd hx List.not_mem_nil⟩
  refine List.foldlRecOn files _ hempty fun c hc file hfile => ?_
  refine List.foldlRecOn (Code.calls defaultContext file.2) _ hc fun c hc call hcall => ?_
  exact hc.addCall (hnew file hfile call hcall) (huse file hfile call hcall)

/-- **What is collected is distinct.** -/
theorem distinct_ofFiles (defaultContext : String) (files : List (String × String)) :
    Distinct (ofFiles defaultContext files).contexts :=
  (keeps_ofFiles (P := fun _ => True) (fun _ _ _ _ => trivial)
    fun _ _ _ _ _ _ _ => trivial).distinct

/-- **What holds of every message at its first call, and is kept by further calls,** holds of
all collected messages. -/
theorem forall_ofFiles
    (hnew : ∀ file ∈ files, ∀ call ∈ Code.calls defaultContext file.2, P (messageOf file.1 call))
    (huse : ∀ file ∈ files, ∀ call ∈ Code.calls defaultContext file.2, ∀ m,
      m.key = .of call.source call.comment? → P m → P (addUse file.1 call m)) :
    ∀ x ∈ (ofFiles defaultContext files).contexts, ∀ m ∈ x.messages, P m :=
  (keeps_ofFiles hnew huse).messages

/-- Collected messages have source texts if the calls have. -/
theorem source_ofFiles
    (h : ∀ file ∈ files, ∀ call ∈ Code.calls defaultContext file.2, call.source ≠ "") :
    ∀ x ∈ (ofFiles defaultContext files).contexts, ∀ m ∈ x.messages, m.source ≠ "" :=
  forall_ofFiles h fun _ _ _ _ _ _ hm => hm

/-- The place of a call is exact. -/
theorem exact_placeOf {code : String} (hlines : Code.lineCount code.toList < UInt32.size)
    (hcall : call ∈ Code.calls defaultContext code) : (placeOf file call).Exact := by
  obtain ⟨hpos, hle⟩ := Code.line_of_mem_calls hcall
  refine ⟨file, UInt32.ofNat call.line, rfl, fun hzero => ?_⟩
  have hline : call.line = 0 := by
    rw [← UInt32.toNat_ofNat_of_lt' (Nat.lt_of_le_of_lt hle hlines), hzero]
    rfl
  omega

/-- **The places of collected messages are exact,** if no file has too many lines. -/
theorem exact_ofFiles (h : ∀ file ∈ files, Code.lineCount file.2.toList < UInt32.size) :
    (ofFiles defaultContext files).ForallPlaces Place.Exact := by
  refine forall_ofFiles (P := fun m => ∀ p ∈ m.places, p.Exact) ?_ ?_
  · intro file hfile call hcall
    exact List.forall_mem_singleton.2 (exact_placeOf (h file hfile) hcall)
  · intro file hfile call hcall m _ hm
    refine List.forall_mem_append.2 ⟨hm, List.forall_mem_singleton.2 ?_⟩
    exact exact_placeOf (h file hfile) hcall

end Collection
end Linguist
