import Linguist.Proofs.Code.Reading

/-!
# Code with carriage returns

Some editors end a line with a carriage return and a line feed.  Code that is saved by one of
them has a carriage return before each of its line ends (`withReturns`), and it should not matter
to anything that is read from it.

A carriage return is a blank, and where blanks are passed over it makes no difference.  That is
not everywhere.  A line comment runs up to the line end, so it has the carriage return in it, but
a note is trimmed.  A literal that is cut off at a line end has the carriage return as the last
character of its body, and a raw literal has all those of its text: this is what can be seen of
them in the tokens (`Lexeme.returnTokens`).

## Joined lines

A backslash before a line end joins two lines of a literal.  Before a carriage return it does
not: the carriage return is then the character that the backslash protects, and the line end
behind it cuts the literal off.  Nothing is said here about code with such literals
(`Lexeme.isSpliced`).

## One step

What is read at once is read in the same way (`tokensFrom_withReturns_cons`), and so all tokens
are known, each on its line (`tokensFrom_withReturns`).
-/

namespace Linguist

namespace Text

/-- A blank at the end is trimmed. -/
theorem trim_append_singleton (cs : List Char) {c : Char} (h : isBlank c = true) :
    trim (cs ++ [c]) = trim cs := by
  have hend : ∀ ds, trimEnd (ds ++ [c]) = trimEnd ds := by
    intro ds
    rw [trimEnd, trimStart, List.reverse_append, List.reverse_singleton, List.singleton_append,
      List.dropWhile_cons_of_pos h, trimEnd, trimStart]
  rw [trim, trim, trimStart, List.dropWhile_append]
  split
  · rename_i hempty
    rw [List.dropWhile_cons_of_pos h, List.dropWhile_nil, trimStart, List.isEmpty_iff.1 hempty]
  · exact hend _

end Text

namespace Code

/-! ## Carriage returns -/

/-- Code with a carriage return before every line end. -/
def withReturns (cs : List Char) : List Char :=
  cs.flatMap fun c => if c = '\n' then ['\r', '\n'] else [c]

@[simp] theorem withReturns_nil : withReturns [] = [] := rfl

@[simp] theorem withReturns_newline (cs : List Char) :
    withReturns ('\n' :: cs) = '\r' :: '\n' :: withReturns cs := rfl

theorem withReturns_cons {c : Char} (h : c ≠ '\n') (cs : List Char) :
    withReturns (c :: cs) = c :: withReturns cs := by
  rw [withReturns, List.flatMap_cons, if_neg h]
  rfl

theorem withReturns_append (as bs : List Char) :
    withReturns (as ++ bs) = withReturns as ++ withReturns bs :=
  List.flatMap_append

/-- Code on one line has no line end to put a carriage return before. -/
theorem withReturns_of_notMem {cs : List Char} (h : '\n' ∉ cs) : withReturns cs = cs := by
  induction cs with
  | nil => rfl
  | cons c cs ih =>
    rw [List.mem_cons, not_or] at h
    rw [withReturns_cons (Ne.symm h.1), ih h.2]

theorem count_withReturns (cs : List Char) : (withReturns cs).count '\n' = cs.count '\n' := by
  induction cs with
  | nil => rfl
  | cons c cs ih =>
    by_cases hc : c = '\n'
    · rw [hc, withReturns_newline, List.count_cons_of_ne (by decide), List.count_cons_self,
        List.count_cons_self, ih]
    · rw [withReturns_cons hc, List.count_cons_of_ne hc, List.count_cons_of_ne hc, ih]

/-- A character that is no carriage return has been at the front before. -/
theorem exists_of_withReturns {cs ds : List Char} {d : Char} (h : withReturns cs = d :: ds)
    (hd : d ≠ '\r') : ∃ rest, cs = d :: rest ∧ ds = withReturns rest := by
  cases cs with
  | nil => cases h
  | cons c cs =>
    by_cases hc : c = '\n'
    · rw [hc, withReturns_newline] at h
      exact absurd (List.cons.inj h).1.symm hd
    · rw [withReturns_cons hc] at h
      obtain ⟨rfl, rfl⟩ := List.cons.inj h
      exact ⟨cs, rfl, rfl⟩

theorem withReturns_ne_newline_cons (cs ds : List Char) : withReturns cs ≠ '\n' :: ds := by
  intro h
  obtain ⟨rest, rfl, -⟩ := exists_of_withReturns h (by decide)
  exact absurd (List.cons.inj h).1 (by decide)

/-- What is left when everything up to a character is dropped begins with it. -/
theorem eq_of_dropWhile_ne {c d : Char} {cs rest : List Char}
    (h : cs.dropWhile (· != d) = c :: rest) : c = d := by
  have hfirst := List.head?_dropWhile_not (· != d) cs
  rw [h] at hfirst
  simpa using hfirst

section While

variable {p : Char → Bool}

/-- What is read as long as it goes on, neither to nor from a carriage return. -/
theorem takeWhile_withReturns (h : p '\r' = p '\n') (cs : List Char) :
    (withReturns cs).takeWhile p = withReturns (cs.takeWhile p) := by
  induction cs with
  | nil => rfl
  | cons c cs ih =>
    by_cases hc : c = '\n'
    · rw [hc, withReturns_newline]
      cases hp : p '\n' with
      | true =>
        rw [List.takeWhile_cons_of_pos (h.trans hp), List.takeWhile_cons_of_pos hp,
          List.takeWhile_cons_of_pos hp, ih, withReturns_newline]
      | false =>
        rw [List.takeWhile_cons_of_neg (Bool.eq_false_iff.1 (h.trans hp)),
          List.takeWhile_cons_of_neg (Bool.eq_false_iff.1 hp), withReturns_nil]
    · rw [withReturns_cons hc]
      by_cases hp : p c = true
      · rw [List.takeWhile_cons_of_pos hp, List.takeWhile_cons_of_pos hp, ih,
          withReturns_cons hc]
      · rw [List.takeWhile_cons_of_neg hp, List.takeWhile_cons_of_neg hp, withReturns_nil]

theorem dropWhile_withReturns (h : p '\r' = p '\n') (cs : List Char) :
    (withReturns cs).dropWhile p = withReturns (cs.dropWhile p) := by
  have hsplit := withReturns_append (cs.takeWhile p) (cs.dropWhile p)
  rw [List.takeWhile_append_dropWhile, ← takeWhile_withReturns h] at hsplit
  exact List.append_cancel_left ((List.takeWhile_append_dropWhile).trans hsplit)

end While

/-! ## Comments -/

/-- A note is trimmed, so that a carriage return at its end is not part of it. -/
theorem noteOf_append_return (text : List Char) : noteOf (text ++ ['\r']) = noteOf text := by
  cases text with
  | nil => rfl
  | cons c text =>
    by_cases hc : c = ':'
    · rw [hc, List.cons_append, noteOf, noteOf, Text.trim_append_singleton text (by decide)]
    · have hnone : ∀ cs, noteOf (c :: cs) = [] := by
        intro cs
        unfold noteOf
        split
        · rename_i heq
          exact absurd (List.cons.inj heq).1 hc
        · rfl
      rw [List.cons_append, hnone, hnone]

theorem skipBlock_withReturns (line : Nat) (cs : List Char) :
    skipBlock line (withReturns cs) =
      ((skipBlock line cs).1, withReturns (skipBlock line cs).2) := by
  fun_induction skipBlock line cs with
  | case1 => rfl
  | case2 line rest =>
    rw [withReturns_cons (by decide), withReturns_cons (by decide), skipBlock]
  | case3 line c rest hmark ih =>
    by_cases hc : c = '\n'
    · rw [hc, if_pos rfl] at ih
      rw [hc, withReturns_newline, skipBlock, skipBlock]
      · exact ih
      · exact fun _ h => absurd h (by decide)
      · exact fun _ h => absurd h (by decide)
    · rw [withReturns_cons hc, skipBlock]
      · exact ih
      · intro ds hstar hslash
        obtain ⟨rest', hrest, -⟩ := exists_of_withReturns hslash (by decide)
        exact hmark rest' hstar hrest

/-! ## Literals -/

/-- How a literal ends in code with carriage returns, given its body and what follows it.  It ends
where it did, or a line end cuts it off; then the carriage return before the line end belongs to
the body. -/
inductive ReturnSplit (cs body after : List Char) : Prop where
  | whole (hsplit : splitBody (withReturns cs) = (body, withReturns after))
      (hend : body.length + after.length < cs.length ∨ after = [])
  | cutOff (rest : List Char) (hafter : after = '\n' :: rest)
      (hlength : body.length + after.length = cs.length)
      (hsplit : splitBody (withReturns cs) = (body ++ ['\r'], '\n' :: withReturns rest))

/-- What is read at the beginning of a body does not change how the literal ends. -/
theorem ReturnSplit.append {cs body after : List Char} (h : ReturnSplit cs body after)
    (piece : List Char)
    (hstep : splitBody (withReturns (piece ++ cs)) =
      (piece ++ (splitBody (withReturns cs)).1, (splitBody (withReturns cs)).2)) :
    ReturnSplit (piece ++ cs) (piece ++ body) after := by
  cases h with
  | whole hsplit hend =>
    rw [hsplit] at hstep
    refine .whole hstep (hend.imp_left fun hlength => ?_)
    rw [List.length_append, List.length_append]
    omega
  | cutOff rest hafter hlength hsplit =>
    rw [hsplit, ← List.append_assoc] at hstep
    refine .cutOff rest hafter ?_ hstep
    rw [List.length_append, List.length_append]
    omega

/-- A literal without joined lines ends where it did, or is cut off. -/
theorem splitBody_withReturns (cs : List Char) (hbody : '\n' ∉ (splitBody cs).1) :
    ReturnSplit cs (splitBody cs).1 (splitBody cs).2 := by
  fun_induction splitBody cs with
  | case1 => exact .whole rfl (Or.inr rfl)
  | case2 rest =>
    refine .whole ?_ (Or.inl (by simp))
    rw [withReturns_cons (by decide), splitBody]
  | case3 rest =>
    refine .cutOff rest rfl (Nat.zero_add _) ?_
    rw [withReturns_newline, splitBody, splitBody]
    all_goals simp
  | case4 c rest ih =>
    simp only [List.mem_cons, not_or] at hbody
    obtain ⟨-, hc, hbody⟩ := hbody
    refine (ih hbody).append ['\\', c] ?_
    rw [List.cons_append, List.singleton_append, withReturns_cons (by decide),
      withReturns_cons (Ne.symm hc), splitBody]
    rfl
  | case5 c rest hquote hline hslash ih =>
    rw [List.mem_cons, not_or] at hbody
    refine (ih hbody.2).append [c] ?_
    rw [List.singleton_append, withReturns_cons hline, splitBody]
    · rfl
    · exact hquote
    · exact hline
    · intro d ds hc hrest
      cases rest with
      | nil => cases hrest
      | cons e rest => exact (hslash e rest hc rfl).elim

/-- Whether a text ends in the middle of an escape. -/
def endsInEscape : List Char → Bool
  | [] => false
  | ['\\'] => true
  | '\\' :: _ :: rest => endsInEscape rest
  | _ :: rest => endsInEscape rest

theorem endsInEscape_cons {c : Char} (h : c ≠ '\\') (rest : List Char) :
    endsInEscape (c :: rest) = endsInEscape rest := by
  rw [endsInEscape]
  · exact fun hc => absurd hc h
  · exact fun _ _ hc => absurd hc h

/-- No literal that something follows ends in the middle of an escape. -/
theorem endsInEscape_splitBody {cs : List Char} (h : (splitBody cs).2 ≠ []) :
    endsInEscape (splitBody cs).1 = false := by
  fun_induction splitBody cs with
  | case1 => rfl
  | case2 => rfl
  | case3 => rfl
  | case4 c rest ih => exact ih h
  | case5 c rest hquote hline hslash ih =>
    by_cases hc : c = '\\'
    · cases rest with
      | nil => exact absurd rfl h
      | cons d rest => exact (hslash d rest hc rfl).elim
    · rw [endsInEscape_cons hc]
      exact ih h

/-- Neither a carriage return nor a backslash is a digit. -/
theorem digit?_eq_none (base : Nat) {c : Char} (h : c = '\r' ∨ c = '\\') :
    Text.digit? base c = none := by
  have hranges : ¬ ('0' ≤ c ∧ c ≤ '9') ∧ ¬ ('a' ≤ c ∧ c ≤ 'z') ∧ ¬ ('A' ≤ c ∧ c ≤ 'Z') := by
    rcases h with rfl | rfl <;> decide
  obtain ⟨hdigit, hsmall, hcapital⟩ := hranges
  simp only [Text.digit?, if_neg hdigit, if_neg hsmall, if_neg hcapital, Nat.lt_irrefl, if_false]

/-- A number ends before a carriage return. -/
theorem takeNumber_append_return (base : Nat) (limit? value? : Option Nat) (cs : List Char) :
    takeNumber base limit? value? (cs ++ ['\r']) =
      ((takeNumber base limit? value? cs).1, (takeNumber base limit? value? cs).2 ++ ['\r']) := by
  fun_induction takeNumber base limit? value? cs with
  | case1 limit? value? =>
    rw [List.nil_append, takeNumber, digit?_eq_none base (Or.inl rfl)]
    split <;> rfl
  | case2 value? c rest =>
    rw [List.cons_append, takeNumber, if_pos rfl]
  | case3 limit? value? c rest hlimit hdigit =>
    rw [List.cons_append, takeNumber, if_neg hlimit, hdigit]
  | case4 limit? value? c rest hlimit d hdigit value hvalue ih =>
    rw [List.cons_append, takeNumber, if_neg hlimit, hdigit]
    simp only
    rw [if_pos hvalue]
    exact ih
  | case5 limit? value? c rest hlimit d hdigit value hvalue =>
    rw [List.cons_append, takeNumber, if_neg hlimit, hdigit]
    simp only
    rw [if_neg hvalue]

/-- A number ends no escape. -/
theorem endsInEscape_takeNumber (base : Nat) (limit? value? : Option Nat) (cs : List Char) :
    endsInEscape (takeNumber base limit? value? cs).2 = endsInEscape cs := by
  have hslash : ∀ {c d}, Text.digit? base c = some d → c ≠ '\\' := by
    rintro c d hdigit rfl
    rw [digit?_eq_none base (Or.inr rfl)] at hdigit
    cases hdigit
  fun_induction takeNumber base limit? value? cs with
  | case4 limit? value? c rest hlimit d hdigit value hvalue ih =>
    rw [ih, endsInEscape_cons (hslash hdigit)]
  | case5 limit? value? c rest hlimit d hdigit value hvalue =>
    rw [endsInEscape_cons (hslash hdigit)]
  | _ => rfl

/-- A carriage return at the end of a body is read as it is. -/
theorem decodeBody_append_return {cs : List Char} (h : endsInEscape cs = false) :
    decodeBody (cs ++ ['\r']) = decodeBody cs ++ ['\r'] := by
  fun_induction decodeBody cs with
  | case1 =>
    rw [List.nil_append, decodeBody, decodeBody]
    all_goals simp
  | case2 rest ih =>
    rw [List.cons_append, List.cons_append, decodeBody, if_pos rfl]
    exact ih h
  | case3 c rest hline d hshort ih =>
    rw [List.cons_append, List.cons_append, decodeBody, if_neg hline, hshort]
    exact congrArg (d :: ·) (ih h)
  | case4 c rest hline limit? hlimit hshort _ ih =>
    rw [List.cons_append, List.cons_append, decodeBody, if_neg hline, hshort, hlimit]
    simp only
    rw [takeNumber_append_return, ih ((endsInEscape_takeNumber _ _ _ _).trans h),
      List.append_assoc]
  | case5 c rest hline hlimit hshort d hdigit _ ih =>
    rw [List.cons_append, List.cons_append, decodeBody, if_neg hline, hshort, hlimit]
    simp only
    rw [hdigit]
    simp only
    rw [takeNumber_append_return, ih ((endsInEscape_takeNumber _ _ _ _).trans h),
      List.append_assoc]
  | case6 c rest hline hlimit hshort hdigit ih =>
    rw [List.cons_append, List.cons_append, decodeBody, if_neg hline, hshort, hlimit]
    simp only
    rw [hdigit]
    exact congrArg (fun ds => '\\' :: c :: ds) (ih h)
  | case7 => cases h
  | case8 c rest hescape hend ih =>
    have hc : c ≠ '\\' := by
      intro hc
      cases rest with
      | nil => exact hend hc rfl
      | cons d rest => exact hescape d rest hc rfl
    rw [endsInEscape_cons hc] at h
    rw [List.cons_append, decodeBody]
    · exact congrArg (c :: ·) (ih h)
    · exact fun _ _ h => absurd h hc
    · exact fun h => absurd h hc

/-! ### Raw literals -/

/-- A mark at the front is there in the code with carriage returns too, and was there before. -/
theorem prefix_withReturns_iff {mark : List Char} (h : mark.getLast? ≠ some '\r')
    (cs : List Char) : withReturns mark <+: withReturns cs ↔ mark <+: cs := by
  refine ⟨fun hmarked => ?_, fun ⟨rest, hrest⟩ =>
    ⟨withReturns rest, by rw [← withReturns_append, hrest]⟩⟩
  induction mark generalizing cs with
  | nil => exact List.nil_prefix
  | cons a mark ih =>
    have hmark : mark.getLast? ≠ some '\r' := by
      intro hlast
      rw [List.getLast?_cons, hlast] at h
      exact h rfl
    cases cs with
    | nil =>
      by_cases ha : a = '\n'
      · rw [ha, withReturns_newline] at hmarked
        simp at hmarked
      · rw [withReturns_cons ha] at hmarked
        simp at hmarked
    | cons b cs =>
      by_cases ha : a = '\n' <;> by_cases hb : b = '\n'
      · rw [ha, hb, withReturns_newline, withReturns_newline, List.cons_prefix_cons,
          List.cons_prefix_cons] at hmarked
        rw [ha, hb, List.cons_prefix_cons]
        exact ⟨rfl, ih hmark cs hmarked.2.2⟩
      · rw [ha, withReturns_newline, withReturns_cons hb, List.cons_prefix_cons] at hmarked
        obtain ⟨rest, hrest⟩ := hmarked.2
        exact absurd hrest.symm (withReturns_ne_newline_cons cs _)
      · rw [hb, withReturns_newline, withReturns_cons ha, List.cons_prefix_cons] at hmarked
        obtain ⟨rfl, rest, hrest⟩ := hmarked
        cases mark with
        | nil => exact absurd rfl h
        | cons m mark =>
          by_cases hm : m = '\n'
          · rw [hm, withReturns_newline] at hrest
            exact absurd (List.cons.inj hrest).1 (by decide)
          · rw [withReturns_cons hm] at hrest
            exact absurd (List.cons.inj hrest).1 hm
      · rw [withReturns_cons ha, withReturns_cons hb, List.cons_prefix_cons] at hmarked
        rw [List.cons_prefix_cons]
        exact ⟨hmarked.1, ih hmark cs hmarked.2⟩

/-- Code is split at a mark in the same place. -/
theorem splitMark_withReturns {c : Char} {mark : List Char} (hline : c ≠ '\n')
    (hreturn : c ≠ '\r') (hlast : (c :: mark).getLast? ≠ some '\r') (cs : List Char) :
    Sequence.splitMark (withReturns (c :: mark)) (withReturns cs) =
      (Sequence.splitMark (c :: mark) cs).map fun parts =>
        (withReturns parts.1, withReturns parts.2) := by
  have hother : ∀ {d : Char} (ds : List Char), c ≠ d →
      ¬ (withReturns (c :: mark)).isPrefixOf (d :: ds) := by
    intro d ds hd
    rw [List.isPrefixOf_iff_prefix, withReturns_cons hline, List.cons_prefix_cons]
    exact fun h => hd h.1
  induction cs with
  | nil => rfl
  | cons b cs ih =>
    by_cases hb : b = '\n'
    · have hno : ¬ (c :: mark).isPrefixOf ('\n' :: cs) := by
        rw [List.isPrefixOf_iff_prefix, List.cons_prefix_cons]
        exact fun h => hline h.1
      rw [hb, withReturns_newline, Sequence.splitMark, if_neg (hother _ hreturn),
        Sequence.splitMark, if_neg (hother _ hline), ih, Sequence.splitMark, if_neg hno]
      cases Sequence.splitMark (c :: mark) cs <;> rfl
    · rw [withReturns_cons hb, Sequence.splitMark, Sequence.splitMark, ← withReturns_cons hb]
      by_cases hmarked : c :: mark <+: b :: cs
      · have hmarked' := (prefix_withReturns_iff hlast (b :: cs)).2 hmarked
        rw [if_pos (List.isPrefixOf_iff_prefix.2 hmarked'),
          if_pos (List.isPrefixOf_iff_prefix.2 hmarked)]
        obtain ⟨after, hafter⟩ := hmarked
        rw [← hafter, withReturns_append, List.drop_left, List.drop_left]
        rfl
      · have hmarked' := mt (prefix_withReturns_iff hlast (b :: cs)).1 hmarked
        rw [if_neg (mt List.isPrefixOf_iff_prefix.1 hmarked'),
          if_neg (mt List.isPrefixOf_iff_prefix.1 hmarked), ih]
        cases Sequence.splitMark (c :: mark) cs with
        | none => rfl
        | some parts =>
          exact congrArg (fun ds => some (ds, withReturns parts.2)) (withReturns_cons hb _).symm

/-- A raw literal ends where it did, and has the carriage returns of its text. -/
theorem splitRaw_withReturns (cs : List Char) :
    splitRaw (withReturns cs) = (withReturns (splitRaw cs).1, withReturns (splitRaw cs).2) := by
  have hbody : ((withReturns cs).dropWhile (· != '(')).drop 1 =
      withReturns ((cs.dropWhile (· != '(')).drop 1) := by
    rw [dropWhile_withReturns (by decide)]
    cases hrest : cs.dropWhile (· != '(') with
    | nil => rfl
    | cons c rest =>
      rw [eq_of_dropWhile_ne hrest, withReturns_cons (by decide)]
      rfl
  have hmark : rawMark ((withReturns cs).takeWhile (· != '(')) =
      withReturns (rawMark (cs.takeWhile (· != '('))) := by
    rw [takeWhile_withReturns (by decide), rawMark, rawMark, List.cons_append, List.cons_append,
      withReturns_cons (by decide), withReturns_append]
    rfl
  have hlast : (rawMark (cs.takeWhile (· != '('))).getLast? ≠ some '\r' := by
    rw [rawMark, List.getLast?_concat]
    decide
  unfold splitRaw
  simp only
  rw [hbody, hmark]
  rw [rawMark, List.cons_append] at hlast ⊢
  rw [splitMark_withReturns (by decide) (by decide) hlast]
  cases Sequence.splitMark (')' :: (cs.takeWhile (· != '(') ++ ['"']))
    ((cs.dropWhile (· != '(')).drop 1) <;> rfl

/-! ### Character literals -/

theorem skipCharLiteral_withReturns {cs : List Char}
    (h : (skipCharLiteral cs).count '\n' = cs.count '\n') :
    skipCharLiteral (withReturns cs) = withReturns (skipCharLiteral cs) ∨
    ∃ rest, skipCharLiteral cs = '\n' :: rest ∧
      skipCharLiteral (withReturns cs) = '\n' :: withReturns rest := by
  fun_induction skipCharLiteral cs with
  | case1 => exact Or.inl rfl
  | case2 rest =>
    rw [withReturns_cons (by decide), skipCharLiteral]
    exact Or.inl rfl
  | case3 rest =>
    refine Or.inr ⟨rest, rfl, ?_⟩
    rw [withReturns_newline, skipCharLiteral, skipCharLiteral]
    all_goals simp
  | case4 c rest ih =>
    have hle := (skipCharLiteral_suffix rest).sublist.count_le '\n'
    have hc : c ≠ '\n' := by
      rintro rfl
      rw [List.count_cons_of_ne (by decide), List.count_cons_self] at h
      omega
    rw [List.count_cons_of_ne (by decide), List.count_cons_of_ne hc] at h
    rw [withReturns_cons (by decide), withReturns_cons hc, skipCharLiteral]
    exact ih h
  | case5 c rest hquote hline hslash ih =>
    rw [List.count_cons_of_ne hline] at h
    have hstep : skipCharLiteral (withReturns (c :: rest)) =
        skipCharLiteral (withReturns rest) := by
      rw [withReturns_cons hline, skipCharLiteral]
      · exact hquote
      · exact hline
      · intro d ds hc hrest
        cases rest with
        | nil => cases hrest
        | cons e rest => exact (hslash e rest hc rfl).elim
    rw [hstep]
    exact ih h

/-! ## Tokens -/

/-- Whether a lexeme is a literal that goes on in the next line, behind a backslash. -/
def Lexeme.isSpliced : Lexeme → Bool
  | .literal body _ => body.contains '\n'
  | .charLiteral text => text.contains '\n'
  | _ => false

/-- The token of a lexeme in code with carriage returns.  A literal that is cut off at a line end
has the carriage return before it, and a raw literal those of its text. -/
def Lexeme.returnTokens (isLast : Bool) : Lexeme → List Token
  | .literal body isClosed =>
    [.literal (String.ofList (decodeBody body ++ if isClosed || isLast then [] else ['\r']))]
  | .rawLiteral _ _ body _ => [.literal (String.ofList (withReturns body))]
  | l => l.tokens

/-- The tokens of lexemes in code with carriage returns. -/
def locateReturns : Nat → List Lexeme → List Located
  | _, [] => []
  | line, l :: ls =>
    (l.returnTokens ls.isEmpty).map (⟨·, line⟩) ++ locateReturns (line + l.lineEnds) ls

/-- A carriage return is no token. -/
theorem tokensFrom_return (line : Nat) (cs : List Char) :
    tokensFrom line ('\r' :: cs) = tokensFrom line cs := by
  rw [(cuts_cut '\r' cs).tokens, cut_blank (by decide)]
  rfl

/-- A line comment is the same note, and what follows it begins with the line end. -/
theorem lineComment_withReturns (line : Nat) (cs : List Char) :
    noteOf ((withReturns cs).takeWhile (· != '\n')) = noteOf (cs.takeWhile (· != '\n')) ∧
    tokensFrom line ((withReturns cs).dropWhile (· != '\n')) =
      tokensFrom line (withReturns (cs.dropWhile (· != '\n'))) := by
  have htext : ∀ c ∈ cs.takeWhile (· != '\n'), (c != '\n') = true := fun c hc =>
    List.mem_takeWhile_imp (p := (· != '\n')) hc
  have hone : withReturns (cs.takeWhile (· != '\n')) = cs.takeWhile (· != '\n') :=
    withReturns_of_notMem fun h => absurd (htext _ h) (by decide)
  have hsplit := withReturns_append (cs.takeWhile (· != '\n')) (cs.dropWhile (· != '\n'))
  rw [List.takeWhile_append_dropWhile, hone] at hsplit
  rw [hsplit, List.takeWhile_append_of_pos htext, List.dropWhile_append_of_pos htext]
  cases hrest : cs.dropWhile (· != '\n') with
  | nil =>
    rw [withReturns_nil, List.takeWhile_nil, List.append_nil]
    exact ⟨rfl, rfl⟩
  | cons c rest =>
    rw [eq_of_dropWhile_ne hrest, withReturns_newline]
    exact ⟨noteOf_append_return _, (tokensFrom_return line _).symm⟩

/-- A literal without joined lines is one token, and what follows it is read as before. -/
theorem tokensFrom_literal_withReturns (line : Nat) {rest body after : List Char}
    (h : splitBody rest = (body, after)) (hbody : '\n' ∉ body) :
    ⟨.literal (String.ofList (decodeBody (splitBody (withReturns rest)).1)), line⟩ ::
        tokensFrom (line + (splitBody (withReturns rest)).1.count '\n')
          (splitBody (withReturns rest)).2 =
      ((Lexeme.literal body (body.length + after.length < rest.length)).returnTokens
          after.isEmpty).map (⟨·, line⟩) ++
        tokensFrom (line + body.count '\n') (withReturns after) := by
  have hbody' : (splitBody rest).1 = body := congrArg Prod.fst h
  have hafter' : (splitBody rest).2 = after := congrArg Prod.snd h
  have hends := splitBody_withReturns rest (hbody'.symm ▸ hbody)
  rw [hbody', hafter'] at hends
  cases hends with
  | whole hsplit hend =>
    have hwhole :
        (decide (body.length + after.length < rest.length) || after.isEmpty) = true := by
      rcases hend with hlength | hafter
      · rw [decide_eq_true hlength, Bool.true_or]
      · rw [hafter, List.isEmpty_nil, Bool.or_true]
    rw [hsplit, Lexeme.returnTokens, if_pos hwhole, List.append_nil]
    rfl
  | cutOff rest' hafter hlength hsplit =>
    have hcut :
        ¬ (decide (body.length + after.length < rest.length) || after.isEmpty) = true := by
      rw [decide_eq_false (by omega), hafter]
      exact Bool.false_ne_true
    have hescape : endsInEscape body = false := by
      rw [← hbody']
      refine endsInEscape_splitBody ?_
      rw [hafter', hafter]
      exact List.cons_ne_nil _ _
    have hcount : (body ++ ['\r']).count '\n' = body.count '\n' := by
      rw [List.count_append]
      rfl
    rw [hsplit, Lexeme.returnTokens, if_neg hcut, decodeBody_append_return hescape, hcount, hafter,
      withReturns_newline, tokensFrom_return]
    rfl

/-- Nor does a character literal without joined lines change what follows it. -/
theorem tokensFrom_charLiteral_withReturns (line : Nat) {rest : List Char}
    (h : (skipCharLiteral rest).count '\n' = rest.count '\n') :
    tokensFrom line (skipCharLiteral (withReturns rest)) =
      tokensFrom line (withReturns (skipCharLiteral rest)) := by
  rcases skipCharLiteral_withReturns h with hskip | ⟨rest', hafter, hskip⟩
  · rw [hskip]
  · rw [hskip, hafter, withReturns_newline, tokensFrom_return]

/-- A word is read in the same way, and so is the raw literal that it announces. -/
theorem readWord_withReturns (line : Nat) (word rest : List Char) (isLast : Bool) :
    readWord line word (withReturns rest) =
      (((cutWord word rest).1.returnTokens isLast).map (⟨·, line⟩),
        line + (cutWord word rest).1.lineEnds, withReturns (cutWord word rest).2) := by
  have hquote : ∀ more, withReturns ('"' :: more) = '"' :: withReturns more := fun more =>
    withReturns_cons (by decide) more
  fun_cases cutWord word rest with
  | case1 more hencoding =>
    simp only [hquote, readWord, hencoding]
    rfl
  | case2 more hencoding hraw delimiter body opening text after hsplit =>
    have hparts : splitRaw more = (text, after) := splitRaw_of_some hsplit
    simp only [hquote, readWord, hencoding, hraw, splitRaw_withReturns, hparts, count_withReturns]
    rfl
  | case3 more hencoding hraw delimiter body opening hsplit =>
    have hparts : splitRaw more = (body, []) := splitRaw_of_none hsplit
    simp only [hquote, readWord, hencoding, hraw, splitRaw_withReturns, hparts, count_withReturns]
    rfl
  | case4 more hencoding hraw =>
    simp only [hquote, readWord, hencoding, hraw]
    rfl
  | case5 rest hafter =>
    rw [readWord]
    · rfl
    · intro ds hds
      obtain ⟨more, hmore, -⟩ := exists_of_withReturns hds (by decide)
      exact hafter more hmore

/-- What begins with no comment and no scope mark does not begin with one now. -/
theorem tokensFrom_withReturns_of_ne {c : Char} {rest : List Char} (hc : c ≠ '\n')
    (hline : ∀ r, c = '/' → rest = '/' :: r → False)
    (hblock : ∀ r, c = '/' → rest = '*' :: r → False)
    (hscope : ∀ r, c = ':' → rest = ':' :: r → False) (line : Nat) :
    tokensFrom line (withReturns (c :: rest)) =
      if Text.isBlank c then tokensFrom line (withReturns rest)
      else if c = '"' then
        ⟨.literal (String.ofList (decodeBody (splitBody (withReturns rest)).1)), line⟩ ::
          tokensFrom (line + (splitBody (withReturns rest)).1.count '\n')
            (splitBody (withReturns rest)).2
      else if c = '\'' then tokensFrom line (skipCharLiteral (withReturns rest))
      else if isWordChar false c then
        (takeWord line c (withReturns rest)).1 ++
          tokensFrom (takeWord line c (withReturns rest)).2.1
            (takeWord line c (withReturns rest)).2.2
      else ⟨markOf c, line⟩ :: tokensFrom line (withReturns rest) := by
  have hstart : ∀ {d e : Char}, e ≠ '\r' → (∀ r, c = d → rest = e :: r → False) →
      ∀ r, c = d → withReturns rest = e :: r → False := by
    intro d e he hno r hd hrest
    obtain ⟨r, hr, -⟩ := exists_of_withReturns hrest he
    exact hno r hd hr
  rw [withReturns_cons hc, tokensFrom_cons (hstart (by decide) hline) (hstart (by decide) hblock)
    (hstart (by decide) hscope), if_neg hc]

/-- **The first lexeme** of code with carriage returns. -/
theorem tokensFrom_withReturns_cons (line : Nat) {c : Char} {rest : List Char}
    (h : (cut c rest).1.isSpliced = false) :
    tokensFrom line (withReturns (c :: rest)) =
      ((cut c rest).1.returnTokens (cut c rest).2.isEmpty).map (⟨·, line⟩) ++
        tokensFrom (line + (cut c rest).1.lineEnds) (withReturns (cut c rest).2) := by
  -- one case for each way to cut; the last five begin with no mark of two characters
  revert h
  fun_cases cut c rest with
  | case1 rest =>
    intro _
    obtain ⟨hnote, hafter⟩ := lineComment_withReturns line rest
    rw [withReturns_cons (by decide), withReturns_cons (by decide), tokensFrom, hnote, hafter]
    rfl
  | case2 rest text after hsplit =>
    intro _
    rw [withReturns_cons (by decide), withReturns_cons (by decide), tokensFrom,
      skipBlock_withReturns, skipBlock_eq_splitMark, hsplit]
    simp [Lexeme.returnTokens, Lexeme.tokens, Lexeme.lineEnds]
  | case3 rest hsplit =>
    intro _
    rw [withReturns_cons (by decide), withReturns_cons (by decide), tokensFrom,
      skipBlock_withReturns, skipBlock_eq_splitMark, hsplit]
    simp [Lexeme.returnTokens, Lexeme.tokens, Lexeme.lineEnds]
  | case4 rest =>
    intro _
    rw [withReturns_cons (by decide), withReturns_cons (by decide), tokensFrom]
    rfl
  | case5 c rest hline hblock hscope hblank =>
    intro _
    by_cases hc : c = '\n'
    · rw [hc, withReturns_newline, tokensFrom_return, (cuts_cut '\n' _).tokens,
        cut_blank (by decide)]
      rfl
    · rw [withReturns_cons hc, (cuts_cut c _).tokens, cut_blank hblank]
      rfl
  | case6 rest body after hbody hline hblock hscope hblank =>
    intro hspliced
    have hone : '\n' ∉ body := by simpa [Lexeme.isSpliced] using hspliced
    rw [tokensFrom_withReturns_of_ne (by decide) hline hblock hscope, if_neg hblank, if_pos rfl]
    exact tokensFrom_literal_withReturns line hbody hone
  | case7 rest after hline hblock hscope hblank hquote =>
    intro hspliced
    obtain ⟨text, hrest⟩ : ∃ text, text ++ after = rest := skipCharLiteral_suffix rest
    have htext : rest.take (rest.length - after.length) = text := by
      rw [← hrest, List.length_append, Nat.add_sub_cancel, List.take_left]
    have hone : '\n' ∉ text := by simpa [Lexeme.isSpliced, htext] using hspliced
    have hcount : (skipCharLiteral rest).count '\n' = rest.count '\n' := by
      show after.count '\n' = _
      rw [← hrest, List.count_append, List.count_eq_zero.2 hone, Nat.zero_add]
    rw [tokensFrom_withReturns_of_ne (by decide) hline hblock hscope, if_neg hblank,
      if_neg hquote, if_pos rfl]
    exact tokensFrom_charLiteral_withReturns line hcount
  | case8 c rest hline hblock hscope hblank hquote hmark hword =>
    intro _
    have hreturn : isWordChar c.isDigit '\r' = isWordChar c.isDigit '\n' := by
      cases c.isDigit <;> decide
    rw [tokensFrom_withReturns_of_ne (ne_newline_of_isWordChar hword) hline hblock hscope,
      if_neg hblank, if_neg hquote, if_neg hmark, if_pos hword, takeWord,
      takeWhile_withReturns hreturn, dropWhile_withReturns hreturn,
      withReturns_of_notMem fun h => ne_newline_of_isWordChar (List.mem_takeWhile_imp h) rfl,
      readWord_withReturns]
  | case9 c rest hline hblock hscope hblank hquote hmark hword =>
    intro _
    rw [tokensFrom_withReturns_of_ne (ne_newline_of_not_isBlank hblank) hline hblock hscope,
      if_neg hblank, if_neg hquote, if_neg hmark, if_neg hword]
    rfl

/-- **The tokens of code with carriage returns.** -/
theorem tokensFrom_withReturns (line : Nat) {cs : List Char}
    (h : ∀ l ∈ lexemes cs, l.isSpliced = false) :
    tokensFrom line (withReturns cs) = locateReturns line (lexemes cs) := by
  fun_induction lexemes cs generalizing line with
  | case1 => rw [withReturns_nil, tokensFrom, locateReturns]
  | case2 c rest ih =>
    obtain ⟨hfirst, hothers⟩ := List.forall_mem_cons.1 h
    have hempty : (lexemes (cut c rest).2).isEmpty = (cut c rest).2.isEmpty := by
      cases (cut c rest).2 with
      | nil => rw [lexemes_nil, List.isEmpty_nil, List.isEmpty_nil]
      | cons d ds => rw [lexemes, List.isEmpty_cons, List.isEmpty_cons]
    rw [tokensFrom_withReturns_cons line hfirst, ih _ hothers, locateReturns, hempty]

end Code
end Linguist
