import Mathlib.Data.List.TakeWhile
import Linguist.Proofs.Json.Layout
import Linguist.Proofs.Sequence

/-!
# Numbers and records read back

What the records of a catalogue are made of is read back from its form as a value: whole
numbers, members that are left out, and lists.

A record is written as an object that has a member for each field with a value.  Its fields
with what is written for them are its *slots* (`record`), and reading gives for each field
just what its slot holds, as long as no two fields have the same name (`fields?_record`).
The rest is done field by field, and for each way in which a field is left out there is the
way of reading that fills it in again: `nullable_map` for what may be absent,
`optional_bool` for a mark that is only there when it is set, `optional_items_of_isEmpty` for a
list that is only there when it has items.
-/

namespace Linguist
namespace Json

/-! ## Numbers -/

theorem isFraction_of_digits {cs : List Char} (h : ∀ c ∈ cs, c.isDigit = true) :
    isFraction (cs.dropWhile Char.isDigit) = true := by
  have hnil : cs.dropWhile Char.isDigit = [] := List.dropWhile_eq_nil_iff.2 h
  rw [hnil]
  rfl

/-- Digits are a number unless there is a zero before others, and so they are after a minus
sign. -/
theorem isNumber_of_digits {c : Char} {cs : List Char} (hc : c ≠ '0')
    (h : ∀ d ∈ c :: cs, d.isDigit = true) :
    isNumber (c :: cs) = true ∧ isNumber ('-' :: c :: cs) = true := by
  obtain ⟨hdigit, hcs⟩ := List.forall_mem_cons.1 h
  have hminus : c ≠ '-' := (Text.ne_sign_of_isDigit hdigit).2
  have hfraction := isFraction_of_digits hcs
  constructor
  · simp [isNumber, hminus, hdigit, hfraction]
  · simp [isNumber, hdigit, hfraction]

theorem isNumber_decimal (n : Nat) : isNumber (Text.decimal n) = true := by
  rcases Text.decimal_eq_zero_or n with ⟨-, hzero⟩ | ⟨c, cs, hcs, hc⟩
  · rw [hzero]
    decide
  · rw [hcs]
    exact (isNumber_of_digits hc fun d hd => Text.isDigit_of_mem_decimal (hcs ▸ hd)).1

theorem isNumber_decimalInt (i : Int) : isNumber (Text.decimalInt i) = true := by
  cases i with
  | ofNat n => exact isNumber_decimal n
  | negSucc n =>
    rcases Text.decimal_eq_zero_or (n + 1) with ⟨hzero, -⟩ | ⟨c, cs, hcs, hc⟩
    · omega
    · rw [Text.decimalInt, hcs]
      exact (isNumber_of_digits hc fun d hd => Text.isDigit_of_mem_decimal (hcs ▸ hd)).2

theorem sound_ofNat (n : Nat) : (ofNat n).Sound :=
  .number (by rw [String.toList_ofList]; exact isNumber_decimal n)

theorem sound_ofInt (i : Int) : (ofInt i).Sound :=
  .number (by rw [String.toList_ofList]; exact isNumber_decimalInt i)

/-- **A whole number reads back,** with its sign. -/
theorem integer?_ofInt (i : Int) : (ofInt i).integer? = some i := by
  rw [ofInt, integer?, String.toList_ofList]
  cases i with
  | ofNat n =>
    have hread := Text.readNat?_decimal n
    obtain ⟨c, cs, hcs, hc⟩ := Text.decimal_eq_cons n
    rw [Text.decimalInt]
    rw [hcs] at hread ⊢
    split
    · rename_i digits h
      exact absurd (List.cons.inj h).1 (Text.ne_sign_of_isDigit hc).2
    · rw [hread]
      rfl
  | negSucc n =>
    rw [Text.decimalInt]
    simp only [Text.readNat?_decimal]
    rfl

theorem int64?_ofInt (i : Int64) : (ofInt i.toInt).int64? = some i := by
  rw [int64?, integer?_ofInt, Option.bind_some, if_pos (Text.fitsInt64_toInt i), Int64.ofInt_toInt]

theorem uint32?_ofNat (n : UInt32) : (ofNat n.toNat).uint32? = some n := by
  have hinteger : (ofNat n.toNat).integer? = some (n.toNat : Int) := integer?_ofInt n.toNat
  have hbounds : (0 : Int) ≤ n.toNat ∧ (n.toNat : Int).toNat < UInt32.size :=
    ⟨Int.natCast_nonneg _, n.toNat_lt_size⟩
  rw [uint32?, hinteger, Option.bind_some, if_pos hbounds, Int.toNat_natCast, UInt32.ofNat_toNat]

/-! ## Records -/

/-- The members for slots, the names of fields with what is written for them: one for each
slot that holds something. -/
def members (slots : List (String × Option Json)) : List (String × Json) :=
  slots.filterMap fun slot => slot.2.map (slot.1, ·)

/-- A record, given by its slots. -/
def record (slots : List (String × Option Json)) : Json :=
  .object (members slots)

theorem sound_record {slots : List (String × Option Json)}
    (h : ∀ slot ∈ slots, ∀ j ∈ slot.2, j.Sound) : (record slots).Sound := by
  refine .object fun m hm => ?_
  obtain ⟨⟨name, value?⟩, hslot, hvalue⟩ := List.mem_filterMap.1 hm
  obtain ⟨j, hj, rfl⟩ := Option.map_eq_some_iff.1 hvalue
  exact h _ hslot j hj

/-- **The fields of a record are read as they were written.** -/
theorem fields?_record {slots : List (String × Option Json)}
    (h : (slots.map Prod.fst).Nodup) :
    (record slots).fields? (slots.map Prod.fst) = some (slots.map Prod.snd) := by
  refine Sequence.mapM_map_eq_pure fun slot hslot => ?_
  have hmembers : (members slots).filter (·.1 == slot.1) =
      members (slots.filter fun s => s.1 = slot.1) := by
    rw [members, members, List.filter_filterMap, List.filterMap_filter]
    refine List.filterMap_congr fun s _ => ?_
    by_cases hname : s.1 = slot.1
    · cases s.2 <;> simp [hname]
    · cases s.2 <;> simp [hname]
  rw [member?, hmembers, Sequence.filter_eq_singleton h hslot]
  cases hvalue : slot.2 with
  | none => simp [members, hvalue]
  | some value => simp [members, hvalue]

section Members

variable {α : Type} (name : String) (slots : List (String × Option Json))

theorem members_nil : members [] = [] := rfl

theorem members_some (j : Json) : members ((name, some j) :: slots) = (name, j) :: members slots :=
  rfl

theorem members_map (write : α → Json) (a? : Option α) :
    members ((name, a?.map write) :: slots) = memberOf name write a? ++ members slots := by
  cases a? <;> rfl

theorem members_if (b : Bool) (j : Json) :
    members ((name, if b then some j else none) :: slots) =
      (if b then [(name, j)] else []) ++ members slots := by
  cases b <;> rfl

theorem members_unless (b : Bool) (j : Json) :
    members ((name, if b then none else some j) :: slots) =
      (if b then [] else [(name, j)]) ++ members slots := by
  cases b <;> rfl

end Members

/-! ## Fields -/

section Fields

variable {α : Type} {read : Json → Option α} {write : α → Json}

/-- What may be absent is read as it was written, unless it was written as null. -/
theorem nullable_map (hread : ∀ a, read (write a) = some a) (hnull : ∀ a, write a ≠ .null)
    (a? : Option α) : nullable read (a?.map write) = some a? := by
  cases a? with
  | none => rfl
  | some a =>
    rw [Option.map_some, nullable]
    · rw [hread, Option.map_some]
    · exact hnull a

theorem nullable_text (s? : Option String) :
    nullable text? (s?.map Json.string) = some s? := by
  refine nullable_map ?_ ?_ s?
  · exact fun _ => rfl
  · exact fun _ => nofun

theorem optional_bool (b : Bool) :
    optional false bool? (if b then some (.bool true) else none) = some b := by
  cases b <;> rfl

theorem mapM_items (hread : ∀ a, read (write a) = some a) (as : List α) :
    (as.map write).mapM read = some as := by
  have hitems : (as.map write).mapM read = some (as.map id) :=
    Sequence.mapM_map_eq_pure fun a _ => hread a
  rw [hitems, List.map_id]

theorem optional_items (hread : ∀ a, read (write a) = some a) (as : List α) :
    optional [] (fun v => v.items?.bind (·.mapM read)) (some (.array (as.map write))) = some as :=
  mapM_items hread as

theorem optional_items_of_isEmpty (hread : ∀ a, read (write a) = some a) (as : List α) :
    optional [] (fun v => v.items?.bind (·.mapM read))
      (if as.isEmpty then none else some (.array (as.map write))) = some as := by
  cases as with
  | nil => rfl
  | cons a as => exact optional_items hread (a :: as)

theorem sound_items (hwrite : ∀ a, (write a).Sound) (as : List α) :
    (array (as.map write)).Sound :=
  .array (List.forall_mem_map.2 fun a _ => hwrite a)

end Fields

end Json
end Linguist
