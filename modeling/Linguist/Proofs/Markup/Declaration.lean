import Linguist.Markup.Declaration
import Linguist.Proofs.Bytes.Charset

/-!
# Reading a file in the character set it was written in

A text that is written with a byte order mark, in plain UTF-8, or with a declaration of the
character set that it is written in, is read back as it was (`decodeFile_encode`).  And bytes
that are no UTF-8 and promise nothing else are refused.

The mark decides without a look at the text behind it, and the declaration is never asked.
Without a mark the declaration has to be found before it is known how to read it.  That works
because it is made of characters of the lower half, which have the same bytes in every set that
may be declared: a reader of UTF-8 sees them wherever they stand, whatever it makes of the
bytes between them (`decodeLenient_declaration`).

Of the version number in the declaration nothing is asked but that it has no closing bracket,
at which the declaration would be taken to end.  It may even assign a character set of its own:
the last assignment counts.
-/

namespace Linguist
namespace Markup

open Bytes (Charset Encoding Registry)
open Bytes.Utf8 (encode decodeLenient decodeFrom)

/-! ## The declaration -/

/-- How the declaration begins. -/
def opening : List Char :=
  "<?xml version=\"".toList

/-- How the declaration goes on behind its version number. -/
def closing (label : List Char) : List Char :=
  "\" encoding=\"".toList ++ (label ++ "\"?>".toList)

/-- The declaration of a version and a character set, in the first line of a file. -/
def declarationOf (version label : List Char) : List Char :=
  opening ++ (version ++ closing label)

/-! ## Where the declaration ends -/

theorem declarationBytes_cons {b : UInt8} {rest : List UInt8} (h : rest.head? ≠ some 0x3E) :
    declarationBytes (b :: rest) = (declarationBytes rest).map (b :: ·) := by
  rw [declarationBytes]
  rintro tail rfl rfl
  exact h rfl

/-- The declaration ends at the first closing mark. -/
theorem declarationBytes_append {front : List UInt8} (h : 0x3E ∉ front) (rest : List UInt8) :
    declarationBytes (front ++ 0x3F :: 0x3E :: rest) = some (front ++ [0x3F, 0x3E]) := by
  induction front with
  | nil => rfl
  | cons b front ih =>
    have hfront : 0x3E ∉ front := fun hmem => h (List.mem_cons_of_mem _ hmem)
    have hhead : (front ++ 0x3F :: 0x3E :: rest).head? ≠ some 0x3E := by
      cases front with
      | nil => nofun
      | cons b' front => exact fun hb => hfront (Option.some.inj hb ▸ List.mem_cons_self)
    rw [List.cons_append, declarationBytes_cons hhead, ih hfront]
    rfl

/-- The declaration is at the beginning of the file. -/
theorem isPrefix_of_declarationBytes {bytes head : List UInt8}
    (h : declarationBytes bytes = some head) : head <+: bytes := by
  induction bytes using declarationBytes.induct generalizing head with
  | case1 => cases h
  | case2 rest =>
    obtain rfl := Option.some.inj h
    exact ⟨rest, rfl⟩
  | case3 b rest hnot ih =>
    rw [declarationBytes] at h
    · obtain ⟨head, hrest, rfl⟩ := Option.map_eq_some_iff.1 h
      exact List.prefix_cons_inj b |>.2 (ih hrest)
    · exact hnot

/-! ## What the declaration assigns -/

theorem eq_append_of_dropBeginning? {beginning cs rest : List Char}
    (h : dropBeginning? beginning cs = some rest) : cs = beginning ++ rest := by
  rw [dropBeginning?] at h
  split at h
  · rename_i hprefix
    obtain ⟨rest', rfl⟩ := List.isPrefixOf_iff_prefix.1 hprefix
    rw [← Option.some.inj h, List.drop_left]
  · cases h

/-- A label assigned at the beginning is read, whatever comes behind its quote. -/
theorem labelHere?_append {label : List Char} (hchars : ∀ c ∈ label, isLabelChar c = true)
    (hne : label ≠ []) (rest : List Char) :
    labelHere? ("encoding=\"".toList ++ (label ++ '"' :: rest)) = some label := by
  have hread : labelHere? ("encoding=\"".toList ++ (label ++ '"' :: rest)) =
      (readQuote? ((label ++ '"' :: rest).dropWhile isLabelChar)).bind fun _ =>
        if ((label ++ '"' :: rest).takeWhile isLabelChar).isEmpty then none
        else some ((label ++ '"' :: rest).takeWhile isLabelChar) := rfl
  have hquote : isLabelChar '"' = false := rfl
  rw [hread, List.dropWhile_append_of_pos hchars, List.takeWhile_append_of_pos hchars,
    List.dropWhile_cons, List.takeWhile_cons, hquote]
  simp [readQuote?, hne]

/-- Where something is assigned there is a sign of equality. -/
theorem mem_of_labelHere? {cs label : List Char} (h : labelHere? cs = some label) : '=' ∈ cs := by
  simp only [labelHere?, bind, Option.bind_eq_some_iff] at h
  obtain ⟨rest, hrest, rest', hrest', -⟩ := h
  have hmem : '=' ∈ rest.dropWhile Text.isBlank := by
    rw [eq_append_of_dropBeginning? hrest']
    exact List.mem_cons_self
  rw [eq_append_of_dropBeginning? hrest]
  exact List.mem_append_right _ ((List.dropWhile_suffix _).subset hmem)

theorem labels_of_not_mem {cs : List Char} (h : '=' ∉ cs) : labels cs = [] := by
  induction cs with
  | nil => rfl
  | cons c cs ih =>
    have hhere : labelHere? (c :: cs) = none :=
      Option.eq_none_iff_forall_ne_some.2 fun label hlabel => h (mem_of_labelHere? hlabel)
    rw [labels, hhere, ih fun hmem => h (List.mem_cons_of_mem _ hmem)]
    rfl

/-- Nothing is assigned at characters with which the word does not begin. -/
theorem labels_append_of_not_mem {front : List Char} (h : 'e' ∉ front) (cs : List Char) :
    labels (front ++ cs) = labels cs := by
  induction front with
  | nil => rfl
  | cons c front ih =>
    rw [List.mem_cons, not_or] at h
    have hbegin : dropBeginning? "encoding".toList (c :: (front ++ cs)) = none :=
      Option.eq_none_iff_forall_ne_some.2 fun rest hrest =>
        h.1 (List.cons.inj (eq_append_of_dropBeginning? hrest)).1.symm
    have hhere : labelHere? (c :: (front ++ cs)) = none := by
      rw [labelHere?, hbegin]
      rfl
    rw [List.cons_append, labels, hhere, ih h.2]
    rfl

/-- What is assigned behind some text is assigned last. -/
theorem labels_suffix (front cs : List Char) : labels cs <:+ labels (front ++ cs) := by
  induction front with
  | nil => exact List.suffix_rfl
  | cons c front ih => exact ih.trans (List.suffix_append _ _)

/-! ## Labels -/

section

variable {charset : Charset} {label : List Char}

/-- The label of a set is a label of no other. -/
theorem ofLabel?_of_mem_labels (h : String.ofList (label.map Char.toLower) ∈ charset.labels) :
    Charset.ofLabel? label = some charset := by
  have hunique : ∀ set : Charset, ∀ small ∈ set.labels,
      (Charset.all.find? fun other => other.labels.contains small) = some set := by
    intro set
    cases set <;> decide +kernel
  exact hunique charset _ h

/-- The registry is not asked for the labels of the sets that are known without it. -/
theorem encodingOfLabel?_of_mem_labels [Registry]
    (h : String.ofList (label.map Char.toLower) ∈ charset.labels) :
    Encoding.ofLabel? label = some charset.encoding := by
  rw [Encoding.ofLabel?, ofLabel?_of_mem_labels h]
  rfl

theorem isLabelChar_of_toLower {c : Char} (h : isLabelChar c.toLower = true) :
    isLabelChar c = true := by
  unfold Char.toLower at h
  split at h
  · rename_i hbounds
    have hupper : c.isUpper = true := decide_eq_true hbounds
    have halphanum : c.isAlphanum = true := by
      show ((c.isUpper || c.isLower) || c.isDigit) = true
      rw [hupper, Bool.true_or, Bool.true_or]
    simp only [isLabelChar, halphanum, Bool.true_or]
  · exact h

theorem toNat_lt_of_isLabelChar {c : Char} (h : isLabelChar c = true) : c.toNat < 0x80 := by
  have hbound : ∀ {last : UInt32}, c.val ≤ last → last < 0x80 → c.toNat < 0x80 :=
    fun hle hlast => Nat.lt_of_le_of_lt (UInt32.le_iff_toNat_le.1 hle)
      (UInt32.lt_iff_toNat_lt.1 hlast)
  have hcases : ((((((c.isUpper || c.isLower) || c.isDigit) || c == '.') || c == '_') ||
      c == ':') || c == '-') = true := h
  simp only [Bool.or_eq_true, beq_iff_eq] at hcases
  rcases hcases with (((((hupper | hlower) | hdigit) | rfl) | rfl) | rfl) | rfl
  · exact hbound (of_decide_eq_true hupper).2 (by decide)
  · exact hbound (of_decide_eq_true ((Bool.and_eq_true _ _).mp hlower).2) (by decide)
  · exact hbound (of_decide_eq_true ((Bool.and_eq_true _ _).mp hdigit).2) (by decide)
  all_goals decide

/-- Labels are made of the characters that the reader of the declaration expects. -/
theorem isLabelChar_of_mem_labels
    (h : String.ofList (label.map Char.toLower) ∈ charset.labels) :
    (∀ c ∈ label, isLabelChar c = true) ∧ label ≠ [] := by
  have hlabels : ∀ set : Charset, ∀ small ∈ set.labels,
      small.toList.all isLabelChar = true ∧ small.toList ≠ [] := by
    intro set
    cases set <;> decide +kernel
  obtain ⟨hall, hne⟩ := hlabels charset _ h
  rw [String.toList_ofList] at hall hne
  rw [List.all_map, List.all_eq_true] at hall
  refine ⟨fun c hc => isLabelChar_of_toLower (hall c hc), ?_⟩
  rintro rfl
  exact hne rfl

end

/-! ## Finding the declaration in bytes -/

section

variable {version label cs : List Char} {front : List UInt8}

/-- **A reader of UTF-8 sees the declaration** in bytes of whatever set. -/
theorem decodeLenient_declaration (front : List UInt8) (label : List Char) :
    decodeLenient (encode opening ++ (front ++ encode (closing label))) =
      opening ++ (decodeLenient front ++ closing label) := by
  rw [Bytes.Utf8.decodeLenient_encode_append]
  exact congrArg (opening ++ ·) (Bytes.Utf8.decodeLenient_append_encode (by decide) front _)

theorem not_mem_decodeLenient (h : 0x3E ∉ front) : '>' ∉ decodeLenient front := by
  intro hmem
  obtain ⟨x, hx, hchar⟩ := List.mem_map.1 hmem
  cases x with
  | none => cases hchar
  | some c =>
    obtain rfl : c = '>' := hchar
    exact h (Bytes.Utf8.utf8EncodeChar_subset_of_mem hx List.mem_cons_self)

theorem not_mem_encode (h : '>' ∉ cs) : 0x3E ∉ encode cs :=
  fun hmem => h (Charset.mem_of_mem_encode? rfl (Charset.encode?_utf8 cs) hmem (by decide))

theorem takeWhile_ne_append {c : Char} (h : c ∉ cs) (rest : List Char) :
    (cs ++ c :: rest).takeWhile (· != c) = cs := by
  have hne : ∀ x ∈ cs, (x != c) = true := by
    rintro x hx
    rw [bne_iff_ne]
    rintro rfl
    exact h hx
  rw [List.takeWhile_append_of_pos hne, List.takeWhile_cons, bne_self_eq_false]
  exact List.append_nil cs

/-- The declaration ends where its closing mark does. -/
theorem declarationBytes_declaration_append (hfront : 0x3E ∉ front) (hlabel : '>' ∉ label)
    (rest : List UInt8) :
    declarationBytes (encode opening ++ (front ++ encode (closing label)) ++ rest) =
      some (encode opening ++ (front ++ encode (closing label))) := by
  have hclosing : encode (closing label) =
      encode ("\" encoding=\"".toList ++ label ++ ['"']) ++ [0x3F, 0x3E] := by
    show _ = _ ++ encode "?>".toList
    rw [← Bytes.Utf8.encode_append, List.append_assoc]
    rfl
  have hbody : '>' ∉ "\" encoding=\"".toList ++ label ++ ['"'] :=
    List.not_mem_append (List.not_mem_append (by decide) hlabel) (by decide)
  have hall : 0x3E ∉ encode opening ++
      (front ++ encode ("\" encoding=\"".toList ++ label ++ ['"'])) :=
    List.not_mem_append (not_mem_encode (by decide))
      (List.not_mem_append hfront (not_mem_encode hbody))
  have hread := declarationBytes_append hall rest
  rw [hclosing]
  simpa only [List.append_assoc, List.cons_append, List.nil_append] using hread

/-- The assignment of a character set, up to the bracket that ends the declaration. -/
def assignment (label : List Char) : List Char :=
  "encoding=\"".toList ++ (label ++ "\"?".toList)

theorem closing_eq (label : List Char) :
    closing label = "\" ".toList ++ (assignment label ++ '>' :: []) :=
  congrArg ("\" encoding=\"".toList ++ ·) (List.append_assoc label "\"?".toList ['>']).symm

/-- A label that is assigned at the end of the declaration is the last one. -/
theorem getLast?_labels_append (hchars : ∀ c ∈ label, isLabelChar c = true) (hne : label ≠ [])
    (cs : List Char) : (labels (cs ++ assignment label)).getLast? = some label := by
  have heq : '=' ∉ label ++ "\"?".toList :=
    List.not_mem_append (fun hmem => absurd (hchars _ hmem) (by decide)) (by decide)
  have htail : labels ("ncoding=\"".toList ++ (label ++ "\"?".toList)) = [] := by
    rw [labels_append_of_not_mem (by decide), labels_of_not_mem heq]
  have hlabels : labels (assignment label) = [label] := by
    show (labelHere? ("encoding=\"".toList ++ (label ++ '"' :: ['?']))).toList ++
      labels ("ncoding=\"".toList ++ (label ++ "\"?".toList)) = [label]
    rw [labelHere?_append hchars hne, htail]
    rfl
  obtain ⟨before, hbefore⟩ := labels_suffix cs (assignment label)
  rw [← hbefore, hlabels, List.getLast?_concat]

/-- **The label that is declared is read** from bytes of whatever set. -/
theorem declaredLabel?_append (hfront : 0x3E ∉ front) (hchars : ∀ c ∈ label, isLabelChar c = true)
    (hne : label ≠ []) (rest : List UInt8) :
    declaredLabel? (encode opening ++ (front ++ encode (closing label)) ++ rest) = some label := by
  have hlabel : '>' ∉ label := fun hmem => absurd (hchars _ hmem) (by decide)
  have htext : decodeLenient front ++ closing label =
      decodeLenient front ++ "\" ".toList ++ assignment label ++ '>' :: [] := by
    rw [closing_eq, List.append_assoc (decodeLenient front ++ "\" ".toList),
      List.append_assoc (decodeLenient front)]
  have hassignment : '>' ∉ assignment label :=
    List.not_mem_append (by decide) (List.not_mem_append hlabel (by decide))
  have hbefore : '>' ∉ " version=\"".toList ++ (decodeLenient front ++ "\" ".toList) :=
    List.not_mem_append (by decide)
      (List.not_mem_append (not_mem_decodeLenient hfront) (by decide))
  rw [declaredLabel?, declarationBytes_declaration_append hfront hlabel]
  show (dropBeginning? "<?xml".toList
      (decodeLenient (encode opening ++ (front ++ encode (closing label)))) >>=
    fun rest => (labels (rest.takeWhile (· != '>'))).getLast?) = some label
  rw [decodeLenient_declaration, htext]
  show (labels ((" version=\"".toList ++ (decodeLenient front ++ "\" ".toList) ++
    assignment label ++ '>' :: []).takeWhile (· != '>'))).getLast? = some label
  rw [takeWhile_ne_append (List.not_mem_append hbefore hassignment),
    getLast?_labels_append hchars hne]

/-- A file that does not begin like a declaration declares nothing. -/
theorem declaredLabel?_eq_none {bytes : List UInt8}
    (h : ¬encode "<?xml".toList <+: bytes) : declaredLabel? bytes = none := by
  rw [Option.eq_none_iff_forall_ne_some]
  intro label hlabel
  simp only [declaredLabel?, bind, Option.bind_eq_some_iff] at hlabel
  obtain ⟨head, hhead, rest, hrest, -⟩ := hlabel
  obtain ⟨tail, rfl⟩ := Bytes.Utf8.exists_of_decodeLenient_append (by decide)
    (eq_append_of_dropBeginning? hrest)
  exact h ((List.prefix_append _ _).trans (isPrefix_of_declarationBytes hhead))

end

/-! ## Byte order marks -/

/-- A text in UTF-8 does not begin with a mark, unless its first character is one. -/
theorem ofMark?_encode {cs : List Char} (h : cs.head? ≠ some '\ufeff') :
    Charset.ofMark? (encode cs) = none := by
  have hread : decodeFrom none (encode cs) = cs.map some := Bytes.Utf8.decode_encode cs
  have hstray : ∀ xs, none :: xs ≠ cs.map some := by
    cases cs <;> simp
  unfold Charset.ofMark?
  split
  · rename_i rest hbytes
    rw [hbytes] at hread
    have hmark : some '\ufeff' :: decodeFrom none rest = cs.map some :=
      (Bytes.Utf8.decodeFrom_encode_append ['\ufeff'] rest).symm.trans hread
    cases cs with
    | nil => cases hmark
    | cons c cs => exact absurd (List.cons.inj hmark).1.symm h
  · rename_i rest hbytes
    rw [hbytes] at hread
    exact absurd hread (hstray _)
  · rename_i rest hbytes
    rw [hbytes] at hread
    exact absurd hread (hstray _)
  · rfl

/-! ## Files -/

section

variable {charset : Charset} {encoding : Encoding} {cs version label rest : List Char}
  {bytes : List UInt8}

theorem decodeAs_of_decode? (h : encoding.decode? bytes = some cs) :
    decodeAs encoding bytes = .ok cs := by
  rw [decodeAs, h]

theorem decodeAs_of_encode? (h : charset.encode? cs = some bytes) :
    decodeAs charset.encoding bytes = .ok cs :=
  decodeAs_of_decode? (Charset.decode?_eq_some_iff.2 h)

/-- A file without mark and declaration is read as UTF-8. -/
theorem decodeFile_of_undeclared [Registry] (hmark : Charset.ofMark? bytes = none)
    (h : ¬encode "<?xml".toList <+: bytes) :
    decodeFile bytes = decodeAs Charset.utf8.encoding bytes := by
  rw [decodeFile, hmark, declaredEncoding, declaredLabel?_eq_none h]
  rfl

/-- Texts begin alike if their bytes do. -/
theorem isPrefix_of_encode {ds : List Char} (h : encode ds <+: encode cs) : ds <+: cs := by
  obtain ⟨rest, hrest⟩ := h
  refine ⟨decodeLenient rest, ?_⟩
  rw [← Bytes.Utf8.decodeLenient_encode_append, hrest, Bytes.Utf8.decodeLenient_encode]

theorem forall_lt_of_all (h : cs.all (·.toNat < 0x80) = true) : ∀ c ∈ cs, c.toNat < 0x80 := by
  simpa using h

theorem toNat_lt_of_mem_closing (hchars : ∀ c ∈ label, isLabelChar c = true) :
    ∀ c ∈ closing label, c.toNat < 0x80 := by
  intro c hc
  rcases List.mem_append.1 hc with hc | hc
  · exact forall_lt_of_all (by decide) c hc
  rcases List.mem_append.1 hc with hc | hc
  · exact toNat_lt_of_isLabelChar (hchars c hc)
  · exact forall_lt_of_all (by decide) c hc

/-- **A file is read in the set that it declares,** if it is written in this set. -/
theorem decodeFile_declared [Registry] (hset : charset.isAsciiBased = true)
    (hlabel : String.ofList (label.map Char.toLower) ∈ charset.labels) (hversion : '>' ∉ version)
    (hbytes : charset.encode? (declarationOf version label ++ rest) = some bytes) :
    decodeFile bytes = .ok (declarationOf version label ++ rest) := by
  obtain ⟨hchars, hne⟩ := isLabelChar_of_mem_labels hlabel
  have hopening : charset.encode? opening = some (encode opening) :=
    Charset.encode?_of_lt hset (forall_lt_of_all (by decide))
  have hclosing : charset.encode? (closing label) = some (encode (closing label)) :=
    Charset.encode?_of_lt hset (toNat_lt_of_mem_closing hchars)
  have hread := decodeAs_of_encode? hbytes
  obtain ⟨head, tail, hhead, -, rfl⟩ := Charset.exists_of_encode?_append hbytes
  obtain ⟨begin, others, hbegin, hothers, rfl⟩ := Charset.exists_of_encode?_append hhead
  obtain ⟨front, last, hfront, hlast, rfl⟩ := Charset.exists_of_encode?_append hothers
  obtain rfl := Option.some.inj (hopening.symm.trans hbegin)
  obtain rfl := Option.some.inj (hclosing.symm.trans hlast)
  have hbracket : 0x3E ∉ front := fun hmem =>
    hversion (Charset.mem_of_mem_encode? hset hfront hmem (by decide))
  have hmark : Charset.ofMark? (encode opening ++ (front ++ encode (closing label)) ++ tail) =
      none := rfl
  have hdeclared : declaredEncoding (encode opening ++ (front ++ encode (closing label)) ++ tail) =
      .ok charset.encoding := by
    rw [declaredEncoding, declaredLabel?_append hbracket hchars hne]
    simp only [encodingOfLabel?_of_mem_labels hlabel]
  rw [decodeFile, hmark]
  show (declaredEncoding _).bind _ = _
  rw [hdeclared]
  exact hread

end

/-- **Decoding inverts encoding.**  A text is read back from its bytes in UTF-8 or UTF-16 behind
the mark of the encoding, whatever the text declares; from its bytes in UTF-8 if it has no mark
and no declaration; and from its bytes in any set that has all its characters, whose label it
declares, in whatever case, and in which the lower half stands for itself.  Bytes without mark
and declaration that are no text in UTF-8 are refused. -/
theorem decodeFile_encode [Registry] :
    (∀ cs, decodeFile ([0xEF, 0xBB, 0xBF] ++ encode cs) = .ok cs ∧
      decodeFile ([0xFF, 0xFE] ++ Charset.utf16 false cs) = .ok cs ∧
      decodeFile ([0xFE, 0xFF] ++ Charset.utf16 true cs) = .ok cs) ∧
    (∀ cs : List Char, cs.head? ≠ some '\ufeff' → ¬"<?xml".toList <+: cs →
      decodeFile (encode cs) = .ok cs) ∧
    (∀ (charset : Charset) (version label rest : List Char) (bytes : List UInt8),
      charset.isAsciiBased = true → String.ofList (label.map Char.toLower) ∈ charset.labels →
      '>' ∉ version → charset.encode? (declarationOf version label ++ rest) = some bytes →
        decodeFile bytes = .ok (declarationOf version label ++ rest)) ∧
    ∀ bytes, Charset.ofMark? bytes = none → ¬encode "<?xml".toList <+: bytes →
      (∀ cs, encode cs ≠ bytes) →
        decodeFile bytes = .error (.unsupportedCharset "input is not valid UTF-8") := by
  refine ⟨fun cs => ⟨?_, ?_, ?_⟩, fun cs hmark hplain => ?_, ?_, fun bytes hmark hplain hno => ?_⟩
  · exact decodeAs_of_encode? (Charset.encode?_utf8 cs)
  · exact decodeAs_of_encode? (Charset.encode?_utf16le cs)
  · exact decodeAs_of_encode? (Charset.encode?_utf16be cs)
  · rw [decodeFile_of_undeclared (ofMark?_encode hmark) fun h => hplain (isPrefix_of_encode h)]
    exact decodeAs_of_encode? (Charset.encode?_utf8 cs)
  · intro charset version label rest bytes hset hlabel hversion hbytes
    exact decodeFile_declared hset hlabel hversion hbytes
  · have hnone : Charset.utf8.encoding.decode? bytes = none :=
      Option.eq_none_iff_forall_ne_some.2 fun cs hcs =>
        hno cs (Bytes.Utf8.decode?_eq_some_iff.1 hcs).symm
    rw [decodeFile_of_undeclared hmark hplain, decodeAs, hnone]
    rfl

/-- A file in windows-1252, under another name of this set. -/
def latinFile : List UInt8 :=
  encode (declarationOf "1.0".toList "Latin1".toList) ++ [0xE9]

theorem latinFile_is_read :
    decodeFile latinFile = .ok (declarationOf "1.0".toList "Latin1".toList ++ ['\u00e9']) ∧
      decodeFile (encode ['a', '\u20ac']) = .ok ['a', '\u20ac'] ∧
      decodeFile [0x61, 0xFF] = .error (.unsupportedCharset "input is not valid UTF-8") := by
  obtain ⟨-, hplain, hdeclared, hinvalid⟩ := decodeFile_encode
  refine ⟨?_, ?_, ?_⟩
  · exact hdeclared .windows1252 _ _ _ _ rfl (by decide +kernel) (by decide) (by decide +kernel)
  · exact hplain _ (by decide) (by decide)
  · refine hinvalid _ rfl (by decide) fun cs hcs => ?_
    have hnone : Bytes.Utf8.decode? [0x61, 0xFF] = none := by decide
    cases hnone.symm.trans (Bytes.Utf8.decode?_eq_some_iff.2 hcs.symm)

end Markup
end Linguist
