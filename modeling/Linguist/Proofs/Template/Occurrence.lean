import Mathlib.Data.String.Basic
import Linguist.Proofs.Template

/-!
# Where markers stand

The markers of a text are found piece by piece, from left to right, and each is recorded with the
offsets of its first byte and of the byte behind it.  This file says which markers are found
without going through the text: a marker stands wherever the text has a percent sign, perhaps an
`L`, and digits of a number that is not zero, one or two and two if there are two
(`AreMarkerDigits`).  All of these are found, and nothing else (`mem_occurrences_iff`).

## Nothing is skipped

Behind a percent sign that begins no marker the search goes on with the next character, and
behind a marker it goes on with what follows the marker.  That it passes over no marker in the
second case is because the percent sign of a marker is its only one, and so no other
marker begins inside (`exists_of_append_percent`).

## Offsets

Offsets count bytes of UTF-8.  Every marker is a part of the list of characters, so that its
offsets are between characters whatever stands around it, and what is between them is its text.
-/

namespace Linguist
namespace Template

/-! ## The grammar of markers -/

/-- The number that decimal digits denote. -/
def decimalValue (digits : List Char) : Nat :=
  digits.foldl (fun n c => 10 * n + (c.toNat - '0'.toNat)) 0

/-- Digits that make a marker in front of a text: one or two, as many as there are up to two, of a
number from 1 to 99. -/
structure AreMarkerDigits (digits after : List Char) : Prop where
  isDigit : ∀ c ∈ digits, c.isDigit = true
  greedy : digits.length = 2 ∨ digits.length = 1 ∧ ∀ c ∈ after.head?, c.isDigit = false
  one_le : 1 ≤ decimalValue digits
  le : decimalValue digits ≤ 99

theorem toNat_of_isDigit {c : Char} (h : c.isDigit = true) :
    Text.digit? 10 c = some (c.toNat - '0'.toNat) ∧ c.toNat - '0'.toNat < 10 := by
  have hbounds : '0' ≤ c ∧ c ≤ '9' := by
    simpa [Char.isDigit, Char.le_def] using h
  have hvalue : c.toNat - '0'.toNat < 10 := by
    have hnine : c.toNat ≤ '9'.toNat := hbounds.2
    have hnumbers : '9'.toNat = 57 ∧ '0'.toNat = 48 := by decide
    omega
  refine ⟨?_, hvalue⟩
  rw [Text.digit?]
  simp only [hbounds, and_self, if_true, hvalue]

/-- Reading decimal digits never fails, and gives their number. -/
theorem readDigits_of_isDigit {digits : List Char} (h : ∀ c ∈ digits, c.isDigit = true)
    (start : Nat) : Text.readDigits 10 start digits =
      some (digits.foldl (fun n c => 10 * n + (c.toNat - '0'.toNat)) start) := by
  induction digits generalizing start with
  | nil => rfl
  | cons c digits ih =>
    obtain ⟨hc, hdigits⟩ := List.forall_mem_cons.1 h
    rw [Text.readDigits, (toNat_of_isDigit hc).1, Option.bind_some, ih hdigits, List.foldl_cons,
      Nat.mul_comm start]

theorem Marker.number_of_isDigit {m : Marker} (h : ∀ c ∈ m.digits, c.isDigit = true) :
    m.number = decimalValue m.digits := by
  rw [number, readDigits_of_isDigit h, Option.getD_some, decimalValue]

/-- Two digits have a number of at most two digits. -/
theorem decimalValue_le {digits : List Char} (h : ∀ c ∈ digits, c.isDigit = true)
    (hlength : digits.length ≤ 2) : decimalValue digits ≤ 99 := by
  match digits with
  | [] => exact Nat.zero_le _
  | [c] =>
    have hc := (toNat_of_isDigit (h c List.mem_cons_self)).2
    simp only [decimalValue, List.foldl_cons, List.foldl_nil]
    omega
  | [c, d] =>
    have hc := (toNat_of_isDigit (h c List.mem_cons_self)).2
    have hd := (toNat_of_isDigit (h d (List.mem_cons_of_mem c List.mem_cons_self))).2
    simp only [decimalValue, List.foldl_cons, List.foldl_nil]
    omega
  | _ :: _ :: _ :: _ => simp at hlength

theorem AreMarkerDigits.ne_nil {digits after : List Char} (h : AreMarkerDigits digits after) :
    digits ≠ [] := by
  rintro rfl
  exact absurd h.one_le (by decide)

/-! ## Reading a marker -/

/-- As many digits as there are, up to two. -/
theorem takeWhile_isDigit_eq_iff {digits after : List Char} (hdigits : digits ≠ []) :
    ((digits ++ after).take 2).takeWhile Char.isDigit = digits ↔
      (∀ c ∈ digits, c.isDigit = true) ∧
        (digits.length = 2 ∨ digits.length = 1 ∧ ∀ c ∈ after.head?, c.isDigit = false) := by
  match digits with
  | [] => exact absurd rfl hdigits
  | [c] =>
    cases after with
    | nil => cases hc : c.isDigit <;> simp [hc]
    | cons d after =>
      cases hc : c.isDigit <;> cases hd : d.isDigit <;> simp [hc, hd]
  | [c, d] => cases hc : c.isDigit <;> cases hd : d.isDigit <;> simp [hc, hd]
  | c :: d :: e :: digits =>
    refine iff_of_false (fun h => ?_) (by simp)
    have hlength := congrArg List.length h
    have hle := (List.takeWhile_prefix Char.isDigit
      (l := (c :: d :: e :: digits ++ after).take 2)).length_le
    rw [hlength, List.length_take] at hle
    simp only [List.length_cons] at hle
    omega

theorem readNumber?_eq_some_iff {localized : Bool} {cs after : List Char} {m : Marker} :
    readNumber? localized cs = some (m, after) ↔
      m.localized = localized ∧ cs = m.digits ++ after ∧ AreMarkerDigits m.digits after := by
  constructor
  · intro h
    obtain ⟨hlocalized, -, hcs⟩ := eq_of_readNumber? h
    rw [readNumber?] at h
    split at h
    · cases h
    · rename_i hnumber
      obtain ⟨hm, -⟩ := Prod.mk.inj (Option.some.inj h)
      have hdigits : (cs.take 2).takeWhile Char.isDigit = m.digits := congrArg Marker.digits hm
      have hne : m.digits ≠ [] := by
        intro hnil
        rw [hdigits, hnil] at hnumber
        exact hnumber rfl
      rw [hcs] at hdigits
      obtain ⟨hall, hgreedy⟩ := (takeWhile_isDigit_eq_iff hne).1 hdigits
      have hvalue := Marker.number_of_isDigit hall
      rw [hm, hvalue] at hnumber
      exact ⟨hlocalized, hcs, hall, hgreedy, Nat.one_le_iff_ne_zero.2 hnumber,
        decimalValue_le hall (by omega)⟩
  · rintro ⟨rfl, rfl, h⟩
    have hdigits := (takeWhile_isDigit_eq_iff h.ne_nil).2 ⟨h.isDigit, h.greedy⟩
    have hnumber : m.number ≠ 0 := by
      rw [Marker.number_of_isDigit h.isDigit]
      exact Nat.one_le_iff_ne_zero.1 h.one_le
    rw [readNumber?]
    simp only [hdigits]
    rw [if_neg hnumber, List.drop_left]

/-- **A marker is read exactly where the grammar has one.** -/
theorem readMarker?_eq_some_iff {cs after : List Char} {m : Marker} :
    readMarker? cs = some (m, after) ↔
      '%' :: cs = m.text ++ after ∧ AreMarkerDigits m.digits after := by
  rw [readMarker?.eq_def]
  split
  · rename_i rest
    rw [readNumber?_eq_some_iff]
    cases hlocalized : m.localized with
    | true => simp [Marker.text, hlocalized]
    | false =>
      refine iff_of_false (fun h => by cases h.1) fun h => ?_
      -- without the letter the digits would begin with it
      obtain ⟨d, ds, hds⟩ := List.exists_cons_of_ne_nil h.2.ne_nil
      have htext : 'L' = d := by
        have heq := h.1
        rw [Marker.text, hlocalized, hds] at heq
        exact (List.cons.inj (List.cons.inj heq).2).1
      exact absurd (h.2.isDigit d (hds ▸ List.mem_cons_self)) (by rw [← htext]; decide)
  · rename_i hhead
    rw [readNumber?_eq_some_iff]
    cases hlocalized : m.localized with
    | true =>
      refine iff_of_false (fun h => by cases h.1) fun h => ?_
      have heq := h.1
      rw [Marker.text, hlocalized] at heq
      exact hhead _ (List.cons.inj heq).2
    | false => simp [Marker.text, hlocalized]

/-! ## The markers of a text -/

theorem byteLength_append (cs ds : List Char) :
    byteLength (cs ++ ds) = byteLength cs + byteLength ds :=
  Sequence.total_append _ _ _

theorem Marker.byteLength_text_pos (m : Marker) : 0 < byteLength m.text := by
  rw [Marker.text, List.cons_append, byteLength, Sequence.total_cons]
  exact Nat.add_pos_left (Char.utf8Size_pos _) _

/-- What stands in front of a percent sign, behind text that has none, reaches up to that text. -/
theorem exists_of_append_percent {text more before rest : List Char} (htext : '%' ∉ text)
    (h : text ++ more = before ++ '%' :: rest) :
    ∃ before', before = text ++ before' ∧ more = before' ++ '%' :: rest := by
  rcases List.append_eq_append_iff.1 h with ⟨before', hbefore, hmore⟩ | ⟨tail, htail, hrest⟩
  · exact ⟨before', hbefore, hmore⟩
  · cases tail with
    | nil => exact ⟨[], by simpa using htail.symm, by simpa using hrest.symm⟩
    | cons c tail =>
      have hc : '%' = c := (List.cons.inj hrest).1
      refine absurd ?_ htext
      rw [htail, hc]
      exact List.mem_append_right before List.mem_cons_self

/-- A marker stands somewhere in a text that begins at an offset. -/
def Occurrence.StandsIn (o : Occurrence) (start : Nat) (cs : List Char) : Prop :=
  ∃ (before : List Char) (m : Marker) (after : List Char), cs = before ++ (m.text ++ after) ∧
    AreMarkerDigits m.digits after ∧
    o = ⟨start + byteLength before, start + byteLength before + byteLength m.text, m.number,
      m.localized⟩

namespace Occurrence

variable {o : Occurrence} {start : Nat}

theorem not_standsIn_nil : ¬ o.StandsIn start [] := by
  rintro ⟨before, m, after, h, -⟩
  rw [Marker.text, eq_comm, List.append_eq_nil_iff] at h
  cases h.2

/-- In front of a character that begins no marker nothing is added. -/
theorem standsIn_cons_iff {c : Char} {rest : List Char}
    (h : ∀ (m : Marker) (after : List Char), c :: rest = m.text ++ after →
      ¬ AreMarkerDigits m.digits after) :
    o.StandsIn start (c :: rest) ↔ o.StandsIn (start + c.utf8Size) rest := by
  have hoffset (before : List Char) :
      start + byteLength (c :: before) = start + c.utf8Size + byteLength before := by
    rw [byteLength, Sequence.total_cons, Nat.add_assoc]
    rfl
  constructor
  · rintro ⟨before, m, after, hcs, hm, rfl⟩
    cases before with
    | nil => exact absurd hm (h m after hcs)
    | cons d before =>
      obtain ⟨rfl, hrest⟩ := List.cons.inj hcs
      exact ⟨before, m, after, hrest, hm, by rw [hoffset]⟩
  · rintro ⟨before, m, after, rfl, hm, rfl⟩
    exact ⟨c :: before, m, after, rfl, hm, by rw [hoffset]⟩

/-- A text that begins with a marker has this one, and those of what is behind it. -/
theorem standsIn_marker_iff {m : Marker} {more : List Char} (hm : AreMarkerDigits m.digits more) :
    o.StandsIn start (m.text ++ more) ↔
      o = ⟨start, start + byteLength m.text, m.number, m.localized⟩ ∨
        o.StandsIn (start + byteLength m.text) more := by
  constructor
  · rintro ⟨before, n, after, hcs, hn, rfl⟩
    cases before with
    | nil =>
      -- only one marker is read at the percent sign
      have hread := readMarker?_eq_some_iff.2 ⟨rfl, hm⟩
      have hsame := readMarker?_eq_some_iff.2 ⟨hcs, hn⟩
      rw [hread] at hsame
      obtain ⟨rfl, rfl⟩ := Prod.mk.inj (Option.some.inj hsame)
      exact Or.inl rfl
    | cons c before =>
      obtain ⟨text, htext, hpercent, -⟩ := eq_of_readMarker? (readMarker?_eq_some_iff.2 ⟨rfl, hm⟩)
      rw [htext] at hcs ⊢
      obtain ⟨rfl, hbefore⟩ := List.cons.inj hcs
      obtain ⟨before', rfl, hafter⟩ := exists_of_append_percent hpercent hbefore
      refine Or.inr ⟨before', n, after, hafter, hn, ?_⟩
      rw [← List.cons_append, byteLength_append]
      simp only [Nat.add_assoc]
  · rintro (rfl | ⟨before, n, after, rfl, hn, rfl⟩)
    · exact ⟨[], m, more, rfl, hm, rfl⟩
    · refine ⟨m.text ++ before, n, after, (List.append_assoc _ _ _).symm, hn, ?_⟩
      rw [byteLength_append, Nat.add_assoc start]

end Occurrence

/-- **The markers that are found from an offset on** are those that stand there. -/
theorem mem_occurrencesFrom_iff (start : Nat) (cs : List Char) (o : Occurrence) :
    o ∈ occurrencesFrom start (pieces cs) ↔ o.StandsIn start cs := by
  fun_induction pieces cs generalizing start with
  | case1 => exact iff_of_false List.not_mem_nil Occurrence.not_standsIn_nil
  | case2 rest m more hmarker _ ih =>
    obtain ⟨hrest, hdigits⟩ := readMarker?_eq_some_iff.1 hmarker
    rw [occurrencesFrom, List.mem_cons, ih, hrest, Occurrence.standsIn_marker_iff hdigits]
  | case3 rest hmarker ih =>
    rw [occurrencesFrom, ih, Occurrence.standsIn_cons_iff]
    intro m after hcs hm
    rw [readMarker?_eq_some_iff.2 ⟨hcs, hm⟩] at hmarker
    cases hmarker
  | case4 c rest hc ih =>
    rw [occurrencesFrom, ih, Occurrence.standsIn_cons_iff]
    intro m after hcs _
    exact hc (List.cons.inj hcs).1

/-- Markers are found in order, each behind the one before. -/
theorem pairwise_occurrencesFrom (start : Nat) (ps : List Piece) :
    (∀ o ∈ occurrencesFrom start ps, start ≤ o.start) ∧
      (occurrencesFrom start ps).Pairwise fun a b => a.stop ≤ b.start := by
  induction ps generalizing start with
  | nil => exact ⟨fun _ h => absurd h List.not_mem_nil, List.Pairwise.nil⟩
  | cons p ps ih =>
    cases p with
    | char c =>
      obtain ⟨hstart, hpairwise⟩ := ih (start + c.utf8Size)
      exact ⟨fun o ho => (Nat.le_add_right _ _).trans (hstart o ho), hpairwise⟩
    | marker m =>
      obtain ⟨hstart, hpairwise⟩ := ih (start + byteLength m.text)
      refine ⟨List.forall_mem_cons.2 ⟨Nat.le_refl _, fun o ho => ?_⟩,
        List.pairwise_cons.2 ⟨hstart, hpairwise⟩⟩
      exact (Nat.le_add_right _ _).trans (hstart o ho)

/-- **A marker is found where the grammar has one,** and its offsets say where this is. -/
theorem mem_occurrences_iff {s : String} {o : Occurrence} :
    o ∈ occurrences s ↔ ∃ before digits after,
      s.toList = before ++ (Marker.mk o.localized digits).text ++ after ∧
      AreMarkerDigits digits after ∧ o.number = decimalValue digits ∧
      o.start = byteLength before ∧
      o.stop = byteLength before + byteLength (Marker.mk o.localized digits).text := by
  rw [occurrences, mem_occurrencesFrom_iff]
  constructor
  · rintro ⟨before, m, after, hcs, hm, rfl⟩
    refine ⟨before, m.digits, after, ?_, hm, Marker.number_of_isDigit hm.isDigit,
      Nat.zero_add _, ?_⟩
    · rw [hcs, List.append_assoc]
    · rw [Nat.zero_add]
  · rintro ⟨before, digits, after, hcs, hdigits, hnumber, hstart, hstop⟩
    refine ⟨before, ⟨o.localized, digits⟩, after, ?_, hdigits, ?_⟩
    · rw [hcs, List.append_assoc]
    · rw [Nat.zero_add, Marker.number_of_isDigit hdigits.isDigit, ← hnumber, ← hstart, hstart,
        ← hstop, ← hstart]

/-! ## Offsets -/

theorem byteLength_eq_utf8Len (cs : List Char) : byteLength cs = String.utf8Len cs := by
  induction cs with
  | nil => rfl
  | cons c cs ih =>
    rw [byteLength, Sequence.total_cons, String.utf8Len_cons, Nat.add_comm, ← ih]
    rfl

theorem rawEndPos_ofList (cs : List Char) : (String.ofList cs).rawEndPos = ⟨byteLength cs⟩ := by
  rw [String.rawEndPos, String.utf8ByteSize_ofList, byteLength_eq_utf8Len]

/-- The length of a beginning of a text is an offset between characters. -/
theorem isValid_byteLength (cs ds : List Char) :
    String.Pos.Raw.IsValid (String.ofList (cs ++ ds)) ⟨byteLength cs⟩ := by
  rw [String.Pos.Raw.isValid_iff_exists_append]
  exact ⟨String.ofList cs, String.ofList ds, String.ofList_append, (rawEndPos_ofList cs).symm⟩

/-- What is between the offsets of a part of a text is this part. -/
theorem extract_byteLength (before text after : List Char) :
    String.Pos.Raw.extract (String.ofList (before ++ text ++ after)) ⟨byteLength before⟩
      ⟨byteLength before + byteLength text⟩ = String.ofList text := by
  rw [byteLength_eq_utf8Len, byteLength_eq_utf8Len]
  exact String.extract_of_valid before text after

/-- **The markers of a text are those of the grammar.**  A marker is found where the text has a
percent sign, perhaps an `L`, and one or two digits, two if there are two, of a number from 1
to 99; all of them are found, in order, and none reaches into the next.  The offsets of a marker
are between characters, and the text between them is the marker. -/
theorem occurrences_exact (s : String) :
    (∀ o, o ∈ occurrences s ↔ ∃ before digits after,
      s.toList = before ++ (Marker.mk o.localized digits).text ++ after ∧
      AreMarkerDigits digits after ∧ o.number = decimalValue digits ∧
      o.start = byteLength before ∧
      o.stop = byteLength before + byteLength (Marker.mk o.localized digits).text) ∧
    (occurrences s).Pairwise (fun a b => a.stop ≤ b.start) ∧
    ∀ o ∈ occurrences s, o.start < o.stop ∧ String.Pos.Raw.IsValid s ⟨o.start⟩ ∧
      String.Pos.Raw.IsValid s ⟨o.stop⟩ ∧ ∃ digits, o.number = decimalValue digits ∧
        String.Pos.Raw.extract s ⟨o.start⟩ ⟨o.stop⟩ =
          String.ofList (Marker.mk o.localized digits).text := by
  refine ⟨fun o => mem_occurrences_iff, (pairwise_occurrencesFrom 0 _).2, fun o ho => ?_⟩
  obtain ⟨before, digits, after, hcs, -, hnumber, hstart, hstop⟩ := mem_occurrences_iff.1 ho
  have hs : s = String.ofList (before ++ (Marker.mk o.localized digits).text ++ after) := by
    rw [← hcs, String.ofList_toList]
  refine ⟨?_, ?_, ?_, digits, hnumber, ?_⟩
  · have hpos := (Marker.mk o.localized digits).byteLength_text_pos
    omega
  · rw [hs, hstart, List.append_assoc]
    exact isValid_byteLength before _
  · rw [hs, hstop, ← byteLength_append]
    exact isValid_byteLength _ after
  · rw [hstart, hstop]
    conv_lhs => rw [hs]
    exact extract_byteLength before _ after

/-- A marker behind a letter of two bytes, after a percent sign that begins none and before a
number that is none. -/
theorem occurrences_crowded :
    (⟨5, 9, 23, true⟩ : Occurrence) ∈ occurrences "%%1é%L23%0%999" ∧
      String.Pos.Raw.IsValid "%%1é%L23%0%999" ⟨5⟩ ∧
      String.Pos.Raw.IsValid "%%1é%L23%0%999" ⟨9⟩ ∧
      ∃ digits, 23 = decimalValue digits ∧
        String.Pos.Raw.extract "%%1é%L23%0%999" ⟨5⟩ ⟨9⟩ =
          String.ofList (Marker.mk true digits).text := by
  have hmem : (⟨5, 9, 23, true⟩ : Occurrence) ∈ occurrences "%%1é%L23%0%999" := by
    decide +kernel
  obtain ⟨-, -, hspan⟩ := occurrences_exact "%%1é%L23%0%999"
  exact ⟨hmem, (hspan _ hmem).2⟩

end Template
end Linguist
