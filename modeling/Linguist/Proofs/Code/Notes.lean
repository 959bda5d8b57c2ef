import Linguist.Proofs.Code.Lines

/-!
# Notes go to the next call

Notes are collected while the code is gone through, and a call that is found takes all that have
been collected.  So the names of the functions whose calls are found cut the code into stretches,
one for each call, and a rest (`Stretch`): a call has the notes of the stretch that its name ends,
wherever they stand in it, between the arguments of a call before or of one that is passed over
(`exists_stretches`).  No note gets lost before the last name, and none is given twice, since every
lexeme before that name is in one stretch (`notes_attached`).

## Nested calls

A call may have calls among its arguments.  The search goes on right behind the name of a call
that is found, so that its arguments belong to the stretch of the next call, and what is a note
in them goes there, although the literals around it are arguments of the first.
-/

namespace Linguist
namespace Code

open Sequence (total)

/-! ## Notes among lexemes -/

/-- The note that a lexeme is: a line comment that begins with a colon. -/
def Lexeme.note? : Lexeme → Option String
  | .lineComment (':' :: text) => some (String.ofList (Text.trim text))
  | _ => none

/-- The notes in code, in order. -/
def notesIn (ls : List Lexeme) : List String :=
  ls.filterMap Lexeme.note?

theorem notesIn_append (as bs : List Lexeme) : notesIn (as ++ bs) = notesIn as ++ notesIn bs :=
  List.filterMap_append

/-- The tokens of a line comment are its note. -/
theorem tokens_lineComment (text : List Char) :
    (Lexeme.lineComment text).tokens = ((Lexeme.lineComment text).note?.map Token.note).toList := by
  cases text with
  | nil => rfl
  | cons c text =>
    by_cases hcolon : c = ':'
    · subst hcolon
      rfl
    · simp [Lexeme.tokens, noteOf, Lexeme.note?, hcolon]

variable {defaultContext : String} {before : List Token} {notes : List String} {call : Call}

/-- The call that is found at a word has the notes that were waiting. -/
theorem note?_of_callAt? {name : String} {line : Nat} {after : List Located}
    (h : callAt? defaultContext before notes name line after = some call) :
    call.note? = joinNotes? notes := by
  obtain ⟨asking, -, h⟩ := Option.bind_eq_some_iff.1 h
  split at h
  · obtain ⟨⟨context, source, comment?, isPlural⟩, -, h⟩ := Option.bind_eq_some_iff.1 h
    rw [← Option.some.inj h]
  · cases h

/-- A lexeme that is no word leaves its note waiting. -/
theorem callsFrom_of_ne_lexeme {l : Lexeme} (h : ∀ name, l ≠ .word name) (defaultContext : String)
    (before : List Token) (notes : List String) (line : Nat) (rest : List Located) :
    callsFrom defaultContext before notes (l.tokens.map (⟨·, line⟩) ++ rest) =
      callsFrom defaultContext (l.tokens.reverse ++ before) (notes ++ l.note?.toList) rest := by
  cases l with
  | word name => exact absurd rfl (h name)
  | lineComment text =>
    rw [tokens_lineComment]
    cases (Lexeme.lineComment text).note? with
    | none => simp
    | some note => simp [callsFrom]
  | mark c =>
    have hmark : markOf c = .opening ∨ markOf c = .closing ∨ markOf c = .comma ∨
        markOf c = .other := by
      unfold markOf
      split <;> simp
    rcases hmark with hmark | hmark | hmark | hmark <;>
      simp [Lexeme.tokens, Lexeme.note?, callsFrom, hmark]
  | _ => simp [Lexeme.tokens, Lexeme.note?, callsFrom]

/-! ## Stretches of code -/

/-- Code up to the name of a function, and the name. -/
structure Stretch where
  gap : List Lexeme
  name : List Char

/-- The code of a stretch. -/
def Stretch.lexemes (s : Stretch) : List Lexeme :=
  s.gap ++ [.word s.name]

/-- A name is no note. -/
theorem Stretch.notesIn_lexemes (s : Stretch) : notesIn s.lexemes = notesIn s.gap := by
  rw [Stretch.lexemes, notesIn_append]
  exact List.append_nil _

/-- Calls and the stretches of code from some point on, one for each: a call is found at the name
that ends its stretch, and has the notes of the stretch. -/
inductive Attached (defaultContext : String) (ls : List Lexeme) :
    List Lexeme → List Call → List Stretch → Prop
  | nil {front : List Lexeme} : Attached defaultContext ls front [] []
  | cons {front : List Lexeme} {call : Call} {found : List Call} {s : Stretch}
      {stretches : List Stretch} (hfound : call.FoundBehind defaultContext ls (front ++ s.gap))
      (hnote : call.note? = joinNotes? (notesIn s.gap))
      (hrest : Attached defaultContext ls (front ++ s.lexemes) found stretches) :
      Attached defaultContext ls front (call :: found) (s :: stretches)

/-- **The notes of the code since the last call are those of the next,** from every point on.
Behind `front` come lexemes that were passed already, whose notes are waiting. -/
theorem exists_stretches (front gap ls : List Lexeme) (line : Nat) :
    ∃ stretches rest, gap ++ ls = stretches.flatMap Stretch.lexemes ++ rest ∧
      Attached defaultContext (front ++ (gap ++ ls)) front
        (callsFrom defaultContext ((front ++ gap).flatMap Lexeme.tokens).reverse (notesIn gap)
          (locate line ls)) stretches := by
  induction ls generalizing front gap line with
  | nil => exact ⟨[], gap, List.append_nil gap, Attached.nil⟩
  | cons l ls ih =>
    have htokens (passed : List Lexeme) : ((passed ++ [l]).flatMap Lexeme.tokens).reverse =
        l.tokens.reverse ++ (passed.flatMap Lexeme.tokens).reverse := by
      rw [List.flatMap_append, List.reverse_append, List.flatMap_singleton]
    -- a lexeme at which no call is found is one more in the gap
    obtain ⟨stretches, rest, hcode, hlater⟩ := ih front (gap ++ [l]) (line + l.lineEnds)
    rw [← List.append_assoc front gap [l], htokens, notesIn_append] at hlater
    rw [List.append_assoc, List.singleton_append] at hcode hlater
    by_cases hword : ∃ name, l = .word name
    · obtain ⟨name, rfl⟩ := hword
      have hlocate : locate line (.word name :: ls) =
          ⟨.word (String.ofList name), line⟩ :: locate line ls := rfl
      rw [hlocate, callsFrom]
      cases hcall : callAt? defaultContext ((front ++ gap).flatMap Lexeme.tokens).reverse
          (notesIn gap) (String.ofList name) line (locate line ls) with
      | none =>
        have hnone : notesIn [.word name] = [] := rfl
        rw [hnone, List.append_nil] at hlater
        exact ⟨stretches, rest, hcode, hlater⟩
      | some call =>
        obtain ⟨stretches, rest, hcode, hlater⟩ := ih (front ++ gap ++ [.word name]) [] line
        have hfront : front ++ gap ++ [.word name] = front ++ (Stretch.mk gap name).lexemes :=
          List.append_assoc _ _ _
        have hls : front ++ (Stretch.mk gap name).lexemes ++ ls =
            front ++ (gap ++ .word name :: ls) := by
          simp [Stretch.lexemes]
        rw [List.nil_append, List.append_nil, htokens, hfront, hls] at hlater
        refine ⟨⟨gap, name⟩ :: stretches, rest, ?_, ?_⟩
        · rw [List.flatMap_cons, List.append_assoc, ← hcode, List.nil_append, Stretch.lexemes,
            List.append_assoc, List.singleton_append]
        · refine Attached.cons ⟨name, ls, notesIn gap, ?_, ?_⟩ (note?_of_callAt? hcall) hlater
          · rw [List.append_assoc]
          · rw [line_of_callAt? hcall]
            exact hcall
    · have hstep := callsFrom_of_ne_lexeme (not_exists.1 hword) defaultContext
        ((front ++ gap).flatMap Lexeme.tokens).reverse (notesIn gap) line
        (locate (line + l.lineEnds) ls)
      have hnote : notesIn [l] = l.note?.toList := by
        rw [notesIn, List.filterMap_cons, List.filterMap_nil]
        cases l.note? <;> rfl
      rw [locate, hstep, ← hnote]
      exact ⟨stretches, rest, hcode, hlater⟩

/-! ## The notes of all calls -/

/-- The calls of a file have stretches of its code. -/
theorem exists_attached (defaultContext code : String) :
    ∃ (stretches : List Stretch) (rest : List Lexeme),
      lexemes code.toList = stretches.flatMap Stretch.lexemes ++ rest ∧
      Attached defaultContext (lexemes code.toList) [] (calls defaultContext code) stretches := by
  obtain ⟨stretches, rest, hcode, hattached⟩ := exists_stretches [] [] (lexemes code.toList) 1
  refine ⟨stretches, rest, hcode, ?_⟩
  rw [calls_eq]
  exact hattached

theorem joinNotes?_eq_none_iff {notes : List String} : joinNotes? notes = none ↔ notes = [] := by
  cases notes <;> simp [joinNotes?]

/-- Texts put together group by group are all texts put together. -/
theorem intercalate_filterMap_joinNotes? (groups : List (List String)) :
    String.intercalate " " (groups.filterMap joinNotes?) =
      String.intercalate " " groups.flatten := by
  induction groups with
  | nil => rfl
  | cons notes groups ih =>
    rw [List.flatten_cons]
    by_cases hnotes : notes = []
    · rw [List.filterMap_cons_none (joinNotes?_eq_none_iff.2 hnotes), ih, hnotes, List.nil_append]
    · have hjoin : joinNotes? notes = some (String.intercalate " " notes) :=
        if_neg (by simpa using hnotes)
      rw [List.filterMap_cons_some hjoin]
      -- a group behind which there are no more texts is not followed by a blank
      by_cases hmore : groups.flatten = []
      · have hnone : groups.filterMap joinNotes? = [] := by
          rw [List.filterMap_eq_nil_iff]
          exact fun g hg => joinNotes?_eq_none_iff.2 (List.flatten_eq_nil_iff.1 hmore g hg)
        rw [hnone, hmore, List.append_nil, String.intercalate_singleton]
      · have hsome : groups.filterMap joinNotes? ≠ [] := by
          intro hnone
          rw [List.filterMap_eq_nil_iff] at hnone
          exact hmore (List.flatten_eq_nil_iff.2 fun g hg =>
            joinNotes?_eq_none_iff.1 (hnone g hg))
        rw [String.intercalate_append_of_ne_nil hnotes hmore,
          String.intercalate_cons_of_ne_nil hsome, ih]

namespace Attached

variable {ls front : List Lexeme} {found : List Call} {stretches : List Stretch}

theorem map_note? (h : Attached defaultContext ls front found stretches) :
    found.map Call.note? = stretches.map fun s => joinNotes? (notesIn s.gap) := by
  induction h with
  | nil => rfl
  | cons _ hnote _ ih => rw [List.map_cons, List.map_cons, hnote, ih]

/-- A call has no note if and only if there is none in its stretch. -/
theorem note?_eq_none_iff (h : Attached defaultContext ls front found stretches) :
    List.Forall₂ (fun call s => call.note? = none ↔ ∀ l ∈ s.gap, l.note? = none)
      found stretches := by
  induction h with
  | nil => exact List.Forall₂.nil
  | cons _ hnote _ ih =>
    refine List.Forall₂.cons ?_ ih
    rw [hnote, joinNotes?_eq_none_iff, notesIn, List.filterMap_eq_nil_iff]

end Attached

theorem notesIn_flatMap_lexemes (stretches : List Stretch) :
    notesIn (stretches.flatMap Stretch.lexemes) = stretches.flatMap fun s => notesIn s.gap := by
  rw [notesIn, List.filterMap_flatMap]
  exact congrArg (stretches.flatMap ·) (funext Stretch.notesIn_lexemes)

/-- **Every note goes to the first call behind it, and to no other.**  The names at which calls are
found cut the code into stretches and a rest.  A call has the notes of the stretch that its name
ends, and none if there are none in it; and the notes of all calls are the notes of all the code
before the last of these names, each once and in order. -/
theorem notes_attached (defaultContext code : String) :
    (lexemes code.toList).flatMap Lexeme.text = code.toList ∧
    ∃ (stretches : List Stretch) (rest : List Lexeme),
      lexemes code.toList = stretches.flatMap Stretch.lexemes ++ rest ∧
      Attached defaultContext (lexemes code.toList) [] (calls defaultContext code) stretches ∧
      List.Forall₂ (fun call s => call.note? = none ↔ ∀ l ∈ s.gap, l.note? = none)
        (calls defaultContext code) stretches ∧
      (stretches.flatMap fun s => notesIn s.gap) = notesIn (stretches.flatMap Stretch.lexemes) ∧
      String.intercalate " " ((calls defaultContext code).filterMap Call.note?) =
        String.intercalate " " (notesIn (stretches.flatMap Stretch.lexemes)) := by
  obtain ⟨stretches, rest, hcode, hattached⟩ := exists_attached defaultContext code
  refine ⟨flatMap_text_lexemes _, stretches, rest, hcode, hattached,
    hattached.note?_eq_none_iff, (notesIn_flatMap_lexemes stretches).symm, ?_⟩
  have hnotes : (calls defaultContext code).filterMap Call.note? =
      (stretches.map fun s => notesIn s.gap).filterMap joinNotes? := by
    have hmap := congrArg (List.filterMap id) hattached.map_note?
    rw [List.filterMap_map, List.filterMap_map] at hmap
    rw [List.filterMap_map]
    exact hmap
  rw [hnotes, intercalate_filterMap_joinNotes?, notesIn_flatMap_lexemes, List.flatMap_def]

/-- A note among the arguments of a call that is passed over, one behind it, and one among the
arguments of a call that is found. -/
example : (calls "Main" "tr(//: a\nx) //: b\ntr(\"s\" //: c\n) tr(\"t\") //: d").map Call.note? =
    [some "a b", some "c"] := by decide +kernel

end Code
end Linguist
