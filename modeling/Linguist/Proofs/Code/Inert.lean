import Linguist.Proofs.Code.Reading
import Linguist.Proofs.Sequence.Grouping

/-!
# Text that is no code

Text in comments and literals is never taken for code.  Put in front of code, it leaves the
calls of the code as they are, and moves them down by the lines it has (`calls_behind`).

## 1.  What calls depend on

A call knows the line it is on, and nothing else in it depends on lines.  So calls are moved
with their tokens (`callsFrom_down`).

Of the tokens before it a call takes its qualifier and its notes.  Tokens that are no words, no
scope marks and no notes have neither, and at the beginning of code they may be left out
(`callsFrom_inert`).

## 2.  What is put in front

A region is a blank, a comment, or a literal with a semicolon behind it.  A literal is a token,
and so is the semicolon, but blanks and comments are no tokens at all, which is why they can
also stand inside calls (`Filler`).
-/

namespace Linguist
namespace Code

open Sequence (total)

/-! ## Lines -/

/-- A token that many lines further down. -/
def Located.down (n : Nat) (t : Located) : Located :=
  { t with line := t.line + n }

/-- A call that many lines further down. -/
def Call.down (n : Nat) (call : Call) : Call :=
  { call with line := call.line + n }

theorem locate_down (n line : Nat) (ls : List Lexeme) :
    locate (line + n) ls = (locate line ls).map (Located.down n) := by
  induction ls generalizing line with
  | nil => rfl
  | cons l ls ih =>
    rw [locate, locate, Nat.add_right_comm, ih, List.map_append, List.map_map]
    rfl

variable {defaultContext : String}

theorem callAt?_down (n : Nat) (before : List Token) (notes : List String) (name : String)
    (line : Nat) (after : List Located) :
    callAt? defaultContext before notes name (line + n) (after.map (Located.down n)) =
      (callAt? defaultContext before notes name line after).map (Call.down n) := by
  have htokens : ∀ ts : List Located,
      (ts.map (Located.down n)).map Located.token = ts.map Located.token := by
    intro ts
    rw [List.map_map]
    rfl
  unfold callAt?
  cases Asking.ofName? name with
  | none => rfl
  | some asking =>
    cases after with
    | nil => rfl
    | cons t rest =>
      obtain ⟨token, tokenLine⟩ := t
      cases token with
      | opening =>
        simp only [List.map_cons, Located.down, Option.bind_eq_bind, Option.bind_some, htokens]
        cases asking.read? defaultContext before (arguments 0 [] (rest.map Located.token)) <;> rfl
      | _ => rfl

theorem callsFrom_down (n : Nat) (before : List Token) (notes : List String) (ts : List Located) :
    callsFrom defaultContext before notes (ts.map (Located.down n)) =
      (callsFrom defaultContext before notes ts).map (Call.down n) := by
  induction ts generalizing before notes with
  | nil => rfl
  | cons t ts ih =>
    obtain ⟨token, line⟩ := t
    cases token with
    | word name =>
      simp only [List.map_cons, callsFrom, Located.down, callAt?_down]
      cases callAt? defaultContext before notes name line ts with
      | none => exact ih _ _
      | some call => exact congrArg (call.down n :: ·) (ih _ _)
    | _ => exact ih _ _

/-! ## Tokens that no call takes anything from -/

/-- Whether a token is none of those that calls are made of and take qualifiers and notes from. -/
def Token.isInert : Token → Bool
  | .word _ | .scope | .note _ => false
  | _ => true

/-- A qualifier does not reach beyond an inert token. -/
theorem qualifierNames_append {t : Token} (h : t.isInert = true) (before : List Token) :
    qualifierNames (before ++ [t]) = qualifierNames before := by
  fun_induction qualifierNames before with
  | case1 name rest ih => exact congrArg (name :: ·) ih
  | case2 before hscope =>
    rcases before with _ | ⟨a, _ | ⟨b, rest⟩⟩
    · cases t <;> rfl
    · cases t with
      | word name => cases h
      | _ => cases a <;> rfl
    · rw [List.cons_append, List.cons_append, qualifierNames]
      intro name rest' heq
      obtain ⟨ha, htail⟩ := List.cons.inj heq
      obtain ⟨hb, -⟩ := List.cons.inj htail
      exact hscope name rest (by rw [ha, hb])

theorem callAt?_append {t : Token} (h : t.isInert = true) (before : List Token)
    (notes : List String) (name : String) (line : Nat) (after : List Located) :
    callAt? defaultContext (before ++ [t]) notes name line after =
      callAt? defaultContext before notes name line after := by
  have hqualifier : qualifier? (before ++ [t]) = qualifier? before := by
    rw [qualifier?, qualifierNames_append h, qualifier?]
  have hread : ∀ (asking : Asking) args, asking.read? defaultContext (before ++ [t]) args =
      asking.read? defaultContext before args := by
    intro asking args
    cases asking with
    | inClass => simp only [Asking.read?, hqualifier]
    | _ => rfl
  simp only [callAt?, hread]

theorem callsFrom_append {t : Token} (h : t.isInert = true) (before : List Token)
    (notes : List String) (ts : List Located) :
    callsFrom defaultContext (before ++ [t]) notes ts =
      callsFrom defaultContext before notes ts := by
  induction ts generalizing before notes with
  | nil => rfl
  | cons next ts ih =>
    obtain ⟨token, line⟩ := next
    cases token with
    | word name =>
      simp only [callsFrom, callAt?_append h]
      cases callAt? defaultContext before notes name line ts with
      | none => exact ih (.word name :: before) notes
      | some call => exact congrArg (call :: ·) (ih (.word name :: before) [])
    | note text => exact ih (.note text :: before) _
    | _ => exact ih (_ :: before) notes

/-- **Inert tokens at the beginning may be left out.** -/
theorem callsFrom_inert {ts : List Located} (h : ∀ t ∈ ts, t.token.isInert = true)
    (notes : List String) (rest : List Located) :
    callsFrom defaultContext [] notes (ts ++ rest) = callsFrom defaultContext [] notes rest := by
  induction ts with
  | nil => rfl
  | cons t ts ih =>
    obtain ⟨token, line⟩ := t
    obtain ⟨ht, hts⟩ := List.forall_mem_cons.1 h
    have hpass : callsFrom defaultContext [] notes (⟨token, line⟩ :: (ts ++ rest)) =
        callsFrom defaultContext [token] notes (ts ++ rest) := by
      cases token with
      | word | scope | note => cases ht
      | _ => rfl
    rw [List.cons_append, hpass, ← List.nil_append [token], callsFrom_append ht, ih hts]

/-! ## Regions -/

/-- What separates tokens without being one: a blank, a block comment, or a line comment with
the line end behind it.  A comment that is a note is a token. -/
inductive Filler where
  | blank (c : Char) (is_blank : Text.isBlank c = true)
  | blockComment (text : List Char) (not_closed : ¬ ['*', '/'] <:+: text)
  | lineComment (text : List Char) (one_line : '\n' ∉ text) (no_note : text.head? ≠ some ':')

namespace Filler

/-- The code that a filler is. -/
def code : Filler → List Char
  | .blank c _ => [c]
  | .blockComment text _ => '/' :: '*' :: (text ++ ['*', '/'])
  | .lineComment text _ _ => '/' :: '/' :: (text ++ ['\n'])

/-- The lexemes of a filler. -/
def lexemes : Filler → List Lexeme
  | .blank c _ => [.blank c]
  | .blockComment text _ => [.blockComment (text ++ ['*', '/'])]
  | .lineComment text _ _ => [.lineComment text, .blank '\n']

theorem lexemes_append (f : Filler) (rest : List Char) :
    Code.lexemes (f.code ++ rest) = f.lexemes ++ Code.lexemes rest := by
  cases f with
  | blank c h => exact lexemes_of_cut (cut_blank h rest)
  | blockComment text h =>
    rw [code, List.cons_append, List.cons_append, List.append_assoc]
    exact lexemes_of_cut (cut_blockComment h rest)
  | lineComment text h _ =>
    rw [code, List.cons_append, List.cons_append, List.append_assoc, List.singleton_append,
      lexemes_of_cut (cut_lineComment h rest), lexemes_of_cut (cut_blank (by decide) rest)]
    rfl

/-- A filler is no token. -/
theorem tokens_lexemes (f : Filler) : f.lexemes.flatMap Lexeme.tokens = [] := by
  cases f with
  | blank => rfl
  | blockComment => rfl
  | lineComment text h hnote =>
    have hnone : noteOf text = [] := by
      unfold noteOf
      split
      · exact absurd rfl hnote
      · rfl
    simp only [lexemes, List.flatMap_cons, Lexeme.tokens, hnone, List.flatMap_nil, List.append_nil]

/-- The line ends of a filler are all counted. -/
theorem total_lexemes (f : Filler) : total Lexeme.lineEnds f.lexemes = f.code.count '\n' := by
  cases f with
  | blank c h => simp [lexemes, code, Lexeme.lineEnds, List.count_singleton]
  | blockComment text h => simp [lexemes, code, Lexeme.lineEnds]
  | lineComment text h hnote =>
    simp [lexemes, code, Lexeme.lineEnds, List.count_eq_zero.2 h]

end Filler

/-- Text in front of code that has nothing of the code in it. -/
inductive Region where
  | filler (f : Filler)
  | literal (text : List Char)

namespace Region

/-- The code that a region is. -/
def code : Region → List Char
  | .filler f => f.code
  | .literal text => '"' :: (spell text ++ ['"', ';'])

/-- The lexemes of a region. -/
def lexemes : Region → List Lexeme
  | .filler f => f.lexemes
  | .literal text => [.literal (spell text) true, .mark ';']

theorem lexemes_append (region : Region) (rest : List Char) :
    Code.lexemes (region.code ++ rest) = region.lexemes ++ Code.lexemes rest := by
  cases region with
  | filler f => exact f.lexemes_append rest
  | literal text =>
    rw [code, List.cons_append, List.append_assoc, List.cons_append, List.singleton_append,
      lexemes_of_cut (cut_literal text _), lexemes_of_cut (cut_mark (by decide) rest)]
    rfl

/-- **What a region has in it is inert.** -/
theorem isInert_tokens (region : Region) :
    ∀ t ∈ region.lexemes.flatMap Lexeme.tokens, t.isInert = true := by
  cases region with
  | filler f =>
    rw [lexemes, f.tokens_lexemes]
    exact fun _ h => absurd h List.not_mem_nil
  | literal text => exact List.forall_mem_cons.2 ⟨rfl, List.forall_mem_singleton.2 rfl⟩

/-- The line ends of a region are all counted. -/
theorem total_lexemes (region : Region) :
    total Lexeme.lineEnds region.lexemes = region.code.count '\n' := by
  cases region with
  | filler f => exact f.total_lexemes
  | literal text =>
    have htext : (spell text).count '\n' = 0 := List.count_eq_zero.2 (notMem_newline_spell text)
    simp [lexemes, code, Lexeme.lineEnds, htext]

end Region

theorem lexemes_regions (regions : List Region) (rest : List Char) :
    lexemes (regions.flatMap Region.code ++ rest) =
      regions.flatMap Region.lexemes ++ lexemes rest := by
  induction regions with
  | nil => rfl
  | cons region regions ih =>
    rw [List.flatMap_cons, List.append_assoc, region.lexemes_append, ih, List.flatMap_cons,
      List.append_assoc]

theorem total_regions (regions : List Region) :
    total Lexeme.lineEnds (regions.flatMap Region.lexemes) =
      (regions.flatMap Region.code).count '\n' := by
  induction regions with
  | nil => rfl
  | cons region regions ih =>
    rw [List.flatMap_cons, Sequence.total_append, region.total_lexemes, ih, List.flatMap_cons,
      List.count_append]

/-- **Text in comments and literals is never code.**  In front of code it leaves the calls as
they are, but for their lines. -/
theorem calls_behind (defaultContext code : String) (regions : List Region) :
    calls defaultContext (String.ofList (regions.flatMap Region.code) ++ code) =
      (calls defaultContext code).map
        (Call.down ((regions.flatMap Region.code).count '\n')) := by
  have hinert : ∀ t ∈ locate 1 (regions.flatMap Region.lexemes), t.token.isInert = true := by
    intro t ht
    have htoken := List.mem_map_of_mem (f := Located.token) ht
    rw [map_token_locate, List.flatMap_assoc, List.mem_flatMap] at htoken
    obtain ⟨region, -, htoken⟩ := htoken
    exact region.isInert_tokens _ htoken
  rw [calls_eq, calls_eq, String.toList_append, String.toList_ofList, lexemes_regions,
    locate_append, callsFrom_inert hinert, locate_down, callsFrom_down, total_regions]

/-- What looks like a call in a literal or a comment is none. -/
example : calls "Main" "\"tr(\\\"Open\\\")\"; /* tr(\"Open\") */\ntr(\"Close\")" =
    [⟨"Main", "Close", none, none, false, 2⟩] := by decide +kernel

end Code
end Linguist
