import Linguist.Proofs.Code.Lexeme
import Linguist.Proofs.Sequence.Grouping
import Linguist.Proofs.Sequence.Relating

/-!
# The lines that calls are on

A call is found at the name of its function, and what is before the name is a number of whole
lexemes.  The line of the call is one more than the line ends that were counted in them
(`exists_sites`), and the number of all their line ends is known as well.  So the line is right
but for the line ends that were not counted: it is the line of the name if and only if no
character literal before it has a line end, and no mark of a raw literal (`line_of_site`).

Whether the line is right or not, it never gets ahead of the name, so that it is one of the
lines of the code (`line_of_mem_calls`).
-/

namespace Linguist
namespace Code

open Sequence (total)

/-! ## Counting lines -/

/-- The number of lines of a text: every line end ends one, and what follows the last line
end is one more unless it is empty. -/
def lineCount : List Char → Nat
  | [] => 0
  | c :: rest => if c = '\n' then lineCount rest + 1 else max 1 (lineCount rest)

theorem lineCount_pos {cs : List Char} (h : cs ≠ []) : 0 < lineCount cs := by
  cases cs with
  | nil => exact absurd rfl h
  | cons c rest =>
    rw [lineCount]
    split
    · exact Nat.succ_pos _
    · exact Nat.lt_of_lt_of_le Nat.zero_lt_one (Nat.le_max_left _ _)

/-- The line ends of a beginning are lines before those of the rest. -/
theorem count_add_lineCount_le (piece rest : List Char) :
    piece.count '\n' + lineCount rest ≤ lineCount (piece ++ rest) := by
  induction piece with
  | nil => simp
  | cons c piece ih =>
    rw [List.cons_append, lineCount, List.count_cons]
    by_cases hc : c = '\n'
    · rw [if_pos hc, if_pos (beq_iff_eq.2 hc)]
      omega
    · rw [if_neg hc, if_neg (mt beq_iff_eq.1 hc)]
      omega

/-! ## Where calls are found -/

variable {defaultContext : String} {before : List Token} {notes : List String} {call : Call}

/-- A call is found behind lexemes of code: the name of its function comes next, and with what
is before the name and what follows it asks for what the call says. -/
def Call.FoundBehind (defaultContext : String) (ls : List Lexeme) (call : Call)
    (site : List Lexeme) : Prop :=
  ∃ name after notes, ls = site ++ .word name :: after ∧
    callAt? defaultContext (site.flatMap Lexeme.tokens).reverse notes (String.ofList name)
      call.line (locate call.line after) = some call

/-- A call that is found at a word is on the line of the word. -/
theorem line_of_callAt? {name : String} {line : Nat} {after : List Located}
    (h : callAt? defaultContext before notes name line after = some call) : call.line = line := by
  obtain ⟨asking, -, h⟩ := Option.bind_eq_some_iff.1 h
  split at h
  · obtain ⟨⟨context, source, comment?, isPlural⟩, -, h⟩ := Option.bind_eq_some_iff.1 h
    rw [← Option.some.inj h]
  · cases h

/-- Calls and the lexemes that each is found behind, all of them at or after a point of the
code: no two calls are found at one name, and the calls are in the order of their names. -/
structure Sited (defaultContext : String) (ls passed : List Lexeme) (found : List Call)
    (sites : List (List Lexeme)) : Prop where
  found : List.Forall₂ (fun call site => call.FoundBehind defaultContext ls site ∧
    call.line = 1 + total Lexeme.lineEnds site) found sites
  length_le : ∀ site ∈ sites, passed.length ≤ site.length
  rising : sites.Pairwise fun a b => a.length < b.length

namespace Sited

variable {ls passed : List Lexeme} {found : List Call} {l : Lexeme} {sites : List (List Lexeme)}

theorem length_lt (h : Sited defaultContext ls (passed ++ [l]) found sites) :
    ∀ site ∈ sites, passed.length < site.length := by
  intro site hsite
  have hle := h.length_le site hsite
  rw [List.length_append, List.length_singleton] at hle
  exact hle

/-- What is found later is found. -/
theorem later (h : Sited defaultContext ls (passed ++ [l]) found sites) :
    Sited defaultContext ls passed found sites :=
  ⟨h.found, fun site hsite => (h.length_lt site hsite).le, h.rising⟩

/-- A call at the point itself comes before those that are found later. -/
theorem cons (hcall : call.FoundBehind defaultContext ls passed)
    (hline : call.line = 1 + total Lexeme.lineEnds passed)
    (h : Sited defaultContext ls (passed ++ [l]) found sites) :
    Sited defaultContext ls passed (call :: found) (passed :: sites) where
  found := List.Forall₂.cons ⟨hcall, hline⟩ h.found
  length_le := List.forall_mem_cons.2 ⟨Nat.le_refl _, h.later.length_le⟩
  rising := List.pairwise_cons.2 ⟨h.length_lt, h.rising⟩

end Sited

theorem noteOf_cases (text : List Char) :
    noteOf text = [] ∨ ∃ note, noteOf text = [.note note] := by
  unfold noteOf
  split
  · exact Or.inr ⟨_, rfl⟩
  · exact Or.inl rfl

theorem markOf_ne_word (c : Char) (name : String) : markOf c ≠ .word name := by
  unfold markOf
  split <;> exact nofun

/-- A lexeme is no token, or a word, or some other token. -/
theorem Lexeme.tokens_cases (l : Lexeme) : l.tokens = [] ∨ (∃ name, l = .word name) ∨
    ∃ token, l.tokens = [token] ∧ ∀ name, token ≠ .word name := by
  cases l with
  | lineComment text =>
    rcases noteOf_cases text with h | ⟨note, h⟩
    · exact Or.inl h
    · exact Or.inr (Or.inr ⟨_, h, nofun⟩)
  | word name => exact Or.inr (Or.inl ⟨name, rfl⟩)
  | literal => exact Or.inr (Or.inr ⟨_, rfl, nofun⟩)
  | rawLiteral => exact Or.inr (Or.inr ⟨_, rfl, nofun⟩)
  | scope => exact Or.inr (Or.inr ⟨_, rfl, nofun⟩)
  | mark c => exact Or.inr (Or.inr ⟨_, rfl, markOf_ne_word c⟩)
  | _ => exact Or.inl rfl

/-- No call begins at a token that is no word. -/
theorem callsFrom_of_ne_word {token : Token} (h : ∀ name, token ≠ .word name)
    (defaultContext : String) (before : List Token) (notes : List String) (line : Nat)
    (rest : List Located) :
    ∃ notes', callsFrom defaultContext before notes (⟨token, line⟩ :: rest) =
      callsFrom defaultContext (token :: before) notes' rest := by
  cases token with
  | word name => exact absurd rfl (h name)
  | note text => exact ⟨notes ++ [text], by rw [callsFrom]⟩
  | _ => exact ⟨notes, by rw [callsFrom] <;> exact nofun⟩

/-- **Each call is found behind lexemes of its own,** and its line is one more than the line
ends that were counted in them. -/
theorem exists_sites (passed ls : List Lexeme) (notes : List String) :
    ∃ sites, Sited defaultContext (passed ++ ls) passed
      (callsFrom defaultContext (passed.flatMap Lexeme.tokens).reverse notes
        (locate (1 + total Lexeme.lineEnds passed) ls)) sites := by
  induction ls generalizing passed notes with
  | nil => exact ⟨[], List.Forall₂.nil, nofun, List.Pairwise.nil⟩
  | cons l ls ih =>
    -- one lexeme more is passed, with its token and its line ends
    have hls : passed ++ [l] ++ ls = passed ++ l :: ls := List.append_assoc _ _ _
    have htokens : ((passed ++ [l]).flatMap Lexeme.tokens).reverse =
        l.tokens.reverse ++ (passed.flatMap Lexeme.tokens).reverse := by
      rw [List.flatMap_append, List.reverse_append, List.flatMap_singleton]
    have hline : 1 + total Lexeme.lineEnds (passed ++ [l]) =
        1 + total Lexeme.lineEnds passed + l.lineEnds := by
      rw [Sequence.total_append, Sequence.total_cons, Sequence.total_nil]
      omega
    have hrest : ∀ notes', ∃ sites, Sited defaultContext (passed ++ l :: ls) (passed ++ [l])
        (callsFrom defaultContext (l.tokens.reverse ++ (passed.flatMap Lexeme.tokens).reverse)
          notes' (locate (1 + total Lexeme.lineEnds passed + l.lineEnds) ls)) sites := by
      intro notes'
      rw [← hls, ← htokens, ← hline]
      exact ih (passed ++ [l]) notes'
    rw [locate]
    rcases l.tokens_cases with hnone | ⟨name, rfl⟩ | ⟨token, htoken, hword⟩
    · obtain ⟨sites, h⟩ := hrest notes
      rw [hnone] at h ⊢
      exact ⟨sites, h.later⟩
    · cases hcall : callAt? defaultContext (passed.flatMap Lexeme.tokens).reverse notes
          (String.ofList name) (1 + total Lexeme.lineEnds passed)
          (locate (1 + total Lexeme.lineEnds passed) ls) with
      | none =>
        obtain ⟨sites, h⟩ := hrest notes
        refine ⟨sites, ?_⟩
        simp only [Lexeme.tokens, Lexeme.lineEnds, Nat.add_zero, List.map_cons, List.map_nil,
          List.reverse_singleton, List.singleton_append, callsFrom, hcall] at h ⊢
        exact h.later
      | some call =>
        obtain ⟨sites, h⟩ := hrest []
        have hcallLine := line_of_callAt? hcall
        refine ⟨passed :: sites, ?_⟩
        simp only [Lexeme.tokens, Lexeme.lineEnds, Nat.add_zero, List.map_cons, List.map_nil,
          List.reverse_singleton, List.singleton_append, callsFrom, hcall] at h ⊢
        rw [← hcallLine] at hcall
        exact h.cons ⟨name, ls, notes, rfl, hcall⟩ hcallLine
    · obtain ⟨notes', hnotes⟩ := callsFrom_of_ne_word hword defaultContext
        (passed.flatMap Lexeme.tokens).reverse notes (1 + total Lexeme.lineEnds passed)
        (locate (1 + total Lexeme.lineEnds passed + l.lineEnds) ls)
      obtain ⟨sites, h⟩ := hrest notes'
      rw [htoken] at h ⊢
      exact ⟨sites, hnotes ▸ h.later⟩

/-! ## The lines of calls -/

/-- The line ends of a beginning of the code are counted or not. -/
theorem count_of_append {cs : List Char} {site rest : List Lexeme}
    (h : lexemes cs = site ++ rest) : (site.flatMap Lexeme.text).count '\n' =
      total Lexeme.lineEnds site + total Lexeme.uncounted site := by
  rw [List.count_flatMap, Sequence.total_add, Sequence.total_eq_sum]
  refine congrArg List.sum (List.map_congr_left fun l hl => ?_)
  exact count_of_mem_lexemes l (h ▸ List.mem_append_left rest hl)

theorem sited_calls (defaultContext code : String) :
    ∃ sites, Sited defaultContext (lexemes code.toList) [] (calls defaultContext code) sites := by
  rw [calls_eq]
  exact exists_sites [] (lexemes code.toList) []

/-- **A call is on one of the lines of its file**, counted from one. -/
theorem line_of_mem_calls {defaultContext code : String} {call : Call}
    (h : call ∈ calls defaultContext code) : 0 < call.line ∧ call.line ≤ lineCount code.toList := by
  obtain ⟨sites, hsited⟩ := sited_calls defaultContext code
  obtain ⟨site, -, ⟨name, after, notes, hls, -⟩, hline⟩ :=
    Sequence.exists_of_forall₂ hsited.found h
  have hcount := count_of_append hls
  have hcode := flatMap_text_lexemes code.toList
  rw [hls, List.flatMap_append, List.flatMap_cons] at hcode
  have hname : (Lexeme.word name).text ≠ [] :=
    text_ne_nil_of_mem_lexemes _ (hls ▸ List.mem_append_right site List.mem_cons_self)
  have hlines := count_add_lineCount_le (site.flatMap Lexeme.text)
    ((Lexeme.word name).text ++ after.flatMap Lexeme.text)
  have hpos := lineCount_pos (List.append_ne_nil_of_left_ne_nil hname (after.flatMap Lexeme.text))
  rw [hcode] at hlines
  omega

/-- **The line of a call is right but for line ends that were not counted.**  Each call is found
behind lexemes of its own, which have all the code before the name of its function. -/
theorem line_of_site (defaultContext code : String) :
    (lexemes code.toList).flatMap Lexeme.text = code.toList ∧
    ∃ sites : List (List Lexeme), sites.Pairwise (fun a b => a.length < b.length) ∧
      List.Forall₂ (fun call site => call.FoundBehind defaultContext (lexemes code.toList) site ∧
          call.line + total Lexeme.uncounted site = 1 + (site.flatMap Lexeme.text).count '\n' ∧
          (call.line = 1 + (site.flatMap Lexeme.text).count '\n' ↔
            ∀ l ∈ site, l.uncounted = 0))
        (calls defaultContext code) sites := by
  obtain ⟨sites, hsited⟩ := sited_calls defaultContext code
  refine ⟨flatMap_text_lexemes _, sites, hsited.rising, hsited.found.imp ?_⟩
  rintro call site ⟨hfound, hline⟩
  obtain ⟨name, after, notes, hls, -⟩ := id hfound
  have hcount := count_of_append hls
  rw [← Sequence.total_eq_zero_iff]
  exact ⟨hfound, by omega, by omega⟩

/-- Code with a character literal that goes on in the second line, and a call there. -/
def spliced : String := "'\\\nn'tr(\"Open\")"

theorem calls_spliced : calls "Main" spliced = [⟨"Main", "Open", none, none, false, 1⟩] := by
  decide +kernel

theorem lexemes_spliced : lexemes spliced.toList = [.charLiteral ['\\', '\n', 'n', '\''],
    .word ['t', 'r'], .mark '(', .literal ['O', 'p', 'e', 'n'] true, .mark ')'] := by
  decide +kernel

/-- A line end in a character literal is not counted, so that the line of a call behind it is
wrong. -/
theorem not_line_of_spliced :
    ¬ ∀ defaultContext code : String, ∃ sites : List (List Lexeme),
      sites.Pairwise (fun a b => a.length < b.length) ∧
      List.Forall₂ (fun call site => call.FoundBehind defaultContext (lexemes code.toList) site ∧
          call.line = 1 + (site.flatMap Lexeme.text).count '\n')
        (calls defaultContext code) sites := by
  intro h
  obtain ⟨sites, -, hsites⟩ := h "Main" spliced
  rw [calls_spliced] at hsites
  obtain ⟨site, -, ⟨⟨name, after, -, hls, -⟩, hline⟩, -, rfl⟩ :=
    List.forall₂_cons_left_iff.1 hsites
  have hsite : site = [.charLiteral ['\\', '\n', 'n', '\'']] := by
    rw [lexemes_spliced] at hls
    simp [List.cons_eq_append_iff] at hls
    exact hls.1
  rw [hsite] at hline
  exact absurd hline (by decide)

/-- The marks of a raw literal may have line ends as well. -/
example : (calls "Main" "R\"\n(text)\n\"tr(\"Open\")").map Call.line = [1] := by decide +kernel

end Code
end Linguist
