import Linguist.Sequence
import Linguist.Proofs.Json.Tokens

/-!
# Values survive as JSON

A value that is written as a text is read back as itself, in the wide layout as in the compact
one (`ofChars?_lay`).  Two things have to be right with the value: its numbers have to be
numbers, and nothing in it may be garbled, since no text stands for a garbled value.  Such a
value is *sound*.

## One layout

The two layouts differ in their blanks only: those before an item and before the end of an
array or object, and those between the colon of a member and its value.  `Blanks.lay` writes
a value with any blanks in these places, and both layouts are instances of it.

## Reading as a walk of states

Cutting a text into tokens and folding them go together here: `after p cs` is the state that
the fold comes to over the tokens of a text, from the state `p`.  A token moves it by one step,
and a blank leaves it.  So every piece of a layout has a lemma that says from which state it
leads to which, whatever follows, and the lemma about a value is put together along the value
(`Blanks.reads_of_sound`).  What follows a value in a layout is always apart from it, because
it is a mark or a blank.
-/

namespace Linguist
namespace Json

/-! ## Walking -/

/-- The state that the fold comes to over the tokens of a text. -/
def after (p : Progress) (cs : List (Option Char)) : Option Progress :=
  (tokens? cs).bind fun tokens => tokens.foldlM Progress.step p

section Walk

variable {p q : Progress} {rest : List (Option Char)}

theorem after_nil (p : Progress) : after p [] = some p := by
  rw [after, tokens?_nil]
  rfl

/-- A token at the beginning of a text moves the walk by one step. -/
theorem after_of_token {cs : List (Option Char)} {token : Token}
    (hcs : tokens? cs = (tokens? rest).map (token :: ·)) (hstep : p.step token = some q) :
    after p cs = after q rest := by
  rw [after, after, hcs, Option.bind_map]
  refine congrArg _ (funext fun tokens => ?_)
  show (token :: tokens).foldlM Progress.step p = tokens.foldlM Progress.step q
  rw [List.foldlM_cons, hstep]
  rfl

theorem after_mark {c : Char} {token : Token} (hmark : markToken? c = some token)
    (hstep : p.step token = some q) : after p (some c :: rest) = after q rest :=
  after_of_token (tokens?_mark hmark rest) hstep

theorem after_text {s : String} (hstep : p.step (.text (some s)) = some q) :
    after p ((renderText s).map some ++ rest) = after q rest :=
  after_of_token (tokens?_renderText s rest) hstep

/-- Blanks leave the walk where it is. -/
theorem after_blanks {bs : List Char} (h : ∀ c ∈ bs, isSpace c = true) :
    after p (bs.map some ++ rest) = after p rest := by
  induction bs with
  | nil => rfl
  | cons b bs ih =>
    obtain ⟨hb, hbs⟩ := List.forall_mem_cons.1 h
    rw [List.map_cons, List.cons_append, after, tokens?_blank hb]
    exact ih hbs

/-- What a text denotes is the value at the end of the walk. -/
theorem ofChars?_of_after {cs : List (Option Char)} {j : Json}
    (h : after ⟨[], .value⟩ cs = some (put j [])) : ofChars? cs = some j := by
  obtain ⟨tokens, htokens, hfold⟩ := Option.bind_eq_some_iff.1 h
  rw [ofChars?, htokens, Option.bind_some, ofTokens?, hfold]
  rfl

end Walk

/-- A value may begin in this state, and will be put on the stack. -/
def Opens (p : Progress) (stack : List Frame) : Prop :=
  ∀ token, token ≠ .closeArray → p.step token = Progress.step.openValue stack token

theorem opens_value (stack : List Frame) : Opens ⟨stack, .value⟩ stack :=
  fun _ _ => rfl

/-- Before the first item of an array, a value may begin as after a comma. -/
theorem opens_valueOrEnd (outer : List Frame) :
    Opens ⟨.array [] :: outer, .valueOrEnd⟩ (.array [] :: outer) := by
  intro token htoken
  cases token with
  | closeArray => exact absurd rfl htoken
  | _ => rfl

/-! ## Layouts -/

/-- The blanks of a layout: those before an item or the end of a container at a level, and
those between the colon of a member and its value. -/
structure Blanks where
  line : Nat → List Char
  gap : List Char
  isSpace_line : ∀ level, ∀ c ∈ line level, isSpace c = true
  isSpace_gap : ∀ c ∈ gap, isSpace c = true

namespace Blanks

mutual

/-- A value at a level, laid out with blanks. -/
def lay (b : Blanks) (level : Nat) : Json → List Char
  | .null => "null".toList
  | .garbled => "null".toList
  | .bool value => if value then "true".toList else "false".toList
  | .number literal => literal.toList
  | .string s => renderText s
  | .array [] => "[]".toList
  | .array (j :: rest) =>
    '[' :: b.line (level + 1) ++ b.lay (level + 1) j ++ b.layItems level rest
  | .object [] => "{}".toList
  | .object ((k, j) :: rest) =>
    '\x7b' :: b.line (level + 1) ++ renderText k ++ ':' :: b.gap ++ b.lay (level + 1) j ++
      b.layMembers level rest

/-- The items after the first, and the end of the array. -/
def layItems (b : Blanks) (level : Nat) : List Json → List Char
  | [] => b.line level ++ [']']
  | j :: rest => ',' :: b.line (level + 1) ++ b.lay (level + 1) j ++ b.layItems level rest

/-- The members after the first, and the end of the object. -/
def layMembers (b : Blanks) (level : Nat) : List (String × Json) → List Char
  | [] => b.line level ++ ['\x7d']
  | (k, j) :: rest =>
    ',' :: b.line (level + 1) ++ renderText k ++ ':' :: b.gap ++ b.lay (level + 1) j ++
      b.layMembers level rest

end

/-- The blanks of the compact layout. -/
def compact : Blanks where
  line _ := []
  gap := []
  isSpace_line := nofun
  isSpace_gap := nofun

theorem isSpace_lineBreak (level : Nat) : ∀ c ∈ lineBreak level, isSpace c = true := by
  intro c hc
  rw [lineBreak, List.mem_cons] at hc
  rcases hc with rfl | hc
  · decide
  · rw [List.eq_of_mem_replicate hc]
    decide

/-- The blanks of the wide layout. -/
def wide : Blanks where
  line := lineBreak
  gap := [' ']
  isSpace_line := isSpace_lineBreak
  isSpace_gap := List.forall_mem_singleton.2 rfl

@[simp] theorem line_compact (level : Nat) : compact.line level = [] := rfl

@[simp] theorem gap_compact : compact.gap = [] := rfl

@[simp] theorem line_wide (level : Nat) : wide.line level = lineBreak level := rfl

@[simp] theorem gap_wide : wide.gap = [' '] := rfl

mutual

theorem lay_compact (level : Nat) : ∀ j, compact.lay level j = j.compact
  | .null | .garbled | .bool _ | .number _ | .string _ | .array [] | .object [] => by
    simp [lay, Json.compact]
  | .array (j :: rest) => by
    simp [lay, Json.compact, lay_compact (level + 1) j, layItems_compact level rest]
  | .object ((k, j) :: rest) => by
    simp [lay, Json.compact, lay_compact (level + 1) j, layMembers_compact level rest]

theorem layItems_compact (level : Nat) : ∀ js, compact.layItems level js = compactItems js
  | [] => by simp [layItems, compactItems]
  | j :: rest => by
    simp [layItems, compactItems, lay_compact (level + 1) j, layItems_compact level rest]

theorem layMembers_compact (level : Nat) : ∀ ms, compact.layMembers level ms = compactMembers ms
  | [] => by simp [layMembers, compactMembers]
  | (k, j) :: rest => by
    simp [layMembers, compactMembers, lay_compact (level + 1) j, layMembers_compact level rest]

end

mutual

theorem lay_wide (level : Nat) : ∀ j, wide.lay level j = Json.wide level j
  | .null | .garbled | .bool _ | .number _ | .string _ | .array [] | .object [] => by
    simp [lay, Json.wide]
  | .array (j :: rest) => by
    simp [lay, Json.wide, lay_wide (level + 1) j, layItems_wide level rest]
  | .object ((k, j) :: rest) => by
    simp [lay, Json.wide, lay_wide (level + 1) j, layMembers_wide level rest]

theorem layItems_wide (level : Nat) : ∀ js, wide.layItems level js = wideItems level js
  | [] => by simp [layItems, wideItems]
  | j :: rest => by
    simp [layItems, wideItems, lay_wide (level + 1) j, layItems_wide level rest]

theorem layMembers_wide (level : Nat) : ∀ ms, wide.layMembers level ms = wideMembers level ms
  | [] => by simp [layMembers, wideMembers]
  | (k, j) :: rest => by
    simp [layMembers, wideMembers, lay_wide (level + 1) j, layMembers_wide level rest]

end

/-! ## Reading a layout -/

/-- Wherever a value may begin, the walk over the layout of this one puts it on the stack. -/
def Reads (b : Blanks) (j : Json) : Prop :=
  ∀ {level p stack rest}, Opens p stack → Apart rest →
    after p ((b.lay level j).map some ++ rest) = after (put j stack) rest

section Containers

variable {b : Blanks} {rest : List (Option Char)}

/-- After an item comes a mark or a blank. -/
theorem apart_layItems (level : Nat) (js : List Json) :
    Apart ((b.layItems level js).map some ++ rest) := by
  cases js with
  | nil =>
    rw [layItems, List.map_append, List.append_assoc]
    exact apart_append (b.isSpace_line level) (apart_cons (by decide) (by decide) rest)
  | cons j js =>
    rw [layItems]
    exact apart_cons (by decide) (by decide) _

theorem apart_layMembers (level : Nat) (ms : List (String × Json)) :
    Apart ((b.layMembers level ms).map some ++ rest) := by
  cases ms with
  | nil =>
    rw [layMembers, List.map_append, List.append_assoc]
    exact apart_append (b.isSpace_line level) (apart_cons (by decide) (by decide) rest)
  | cons m ms =>
    obtain ⟨k, j⟩ := m
    rw [layMembers]
    exact apart_cons (by decide) (by decide) _

/-- **The items of an array** are put behind those that it has already. -/
theorem after_layItems {js : List Json} (h : ∀ j ∈ js, b.Reads j) (level : Nat)
    (seen : List Json) (outer : List Frame) :
    after ⟨.array seen.reverse :: outer, .separator⟩ ((b.layItems level js).map some ++ rest) =
      after (put (.array (seen ++ js)) outer) rest := by
  induction js generalizing seen with
  | nil =>
    rw [layItems, List.map_append, List.append_assoc, after_blanks (b.isSpace_line level)]
    refine after_mark (c := ']') rfl ?_
    rw [Progress.step, List.reverse_reverse, List.append_nil]
  | cons j js ih =>
    obtain ⟨hj, hjs⟩ := List.forall_mem_cons.1 h
    have hcomma : after ⟨.array seen.reverse :: outer, .separator⟩
        ((b.layItems level (j :: js)).map some ++ rest) =
          after ⟨.array seen.reverse :: outer, .value⟩
            ((b.line (level + 1)).map some ++ ((b.lay (level + 1) j).map some ++
              ((b.layItems level js).map some ++ rest))) := by
      simp only [layItems, List.cons_append, List.map_cons, List.map_append, List.append_assoc]
      exact after_mark (c := ',') rfl rfl
    rw [hcomma, after_blanks (b.isSpace_line _), hj (opens_value _) (apart_layItems level js)]
    have hput : put j (.array seen.reverse :: outer) =
        ⟨.array (seen ++ [j]).reverse :: outer, .separator⟩ := by
      rw [put, List.reverse_append]
      rfl
    rw [hput, ih hjs, List.append_assoc]
    rfl

/-- Members whose keys are texts make up an object. -/
theorem ofMembers_some (ms : List (String × Json)) :
    ofMembers (ms.map fun m => (some m.1, m.2)) = .object ms := by
  have hkeys : (ms.map fun m => (some m.1, m.2)).mapM (m := Option)
      (fun m : Option String × Json => m.1.map (·, m.2)) = some (ms.map id) :=
    Sequence.mapM_map_eq_pure fun _ _ => rfl
  rw [List.map_id] at hkeys
  unfold ofMembers
  split
  · rename_i hsome
    exact congrArg _ (Option.some.inj (hsome.symm.trans hkeys))
  · rename_i hnone
    cases hnone.symm.trans hkeys

/-- An object that is open, with the members that it has. -/
def openObject (seen : List (String × Json)) (key? : Option String) : Frame :=
  .object (seen.map fun m => (some m.1, m.2)).reverse key?

/-- **A member** is put behind those that the object has already. -/
theorem after_member {j : Json} (hj : b.Reads j) (seen : List (String × Json)) {p : Progress}
    {k : String} {outer : List Frame}
    (hkey : p.step (.text (some k)) = some ⟨openObject seen (some k) :: outer, .colon⟩)
    (level : Nat) (hrest : Apart rest) :
    after p ((renderText k ++ ':' :: b.gap ++ b.lay level j).map some ++ rest) =
      after ⟨openObject (seen ++ [(k, j)]) none :: outer, .separator⟩ rest := by
  have hsplit : (renderText k ++ ':' :: b.gap ++ b.lay level j).map some ++ rest =
      (renderText k).map some ++ (some ':' :: (b.gap.map some ++
        ((b.lay level j).map some ++ rest))) := by
    simp only [List.map_append, List.map_cons, List.append_assoc, List.cons_append]
  rw [hsplit, after_text hkey]
  have hcolon : after ⟨openObject seen (some k) :: outer, .colon⟩
      (some ':' :: (b.gap.map some ++ ((b.lay level j).map some ++ rest))) =
        after ⟨openObject seen (some k) :: outer, .value⟩
          (b.gap.map some ++ ((b.lay level j).map some ++ rest)) :=
    after_mark (c := ':') rfl rfl
  have hput : put j (openObject seen (some k) :: outer) =
      ⟨openObject (seen ++ [(k, j)]) none :: outer, .separator⟩ := by
    rw [openObject, openObject, put, List.map_append, List.reverse_append]
    rfl
  rw [hcolon, after_blanks b.isSpace_gap, hj (opens_value _) hrest, hput]

/-- **The members of an object** are put behind those that it has already. -/
theorem after_layMembers {ms : List (String × Json)} (h : ∀ m ∈ ms, b.Reads m.2) (level : Nat)
    (seen : List (String × Json)) (outer : List Frame) :
    after ⟨openObject seen none :: outer, .separator⟩ ((b.layMembers level ms).map some ++ rest) =
      after (put (.object (seen ++ ms)) outer) rest := by
  induction ms generalizing seen with
  | nil =>
    rw [layMembers, List.map_append, List.append_assoc, after_blanks (b.isSpace_line level)]
    refine after_mark (c := '\x7d') rfl ?_
    rw [openObject, Progress.step, List.reverse_reverse, ofMembers_some, List.append_nil]
  | cons m ms ih =>
    obtain ⟨k, j⟩ := m
    obtain ⟨hj, hms⟩ := List.forall_mem_cons.1 h
    have hcomma : after ⟨openObject seen none :: outer, .separator⟩
        ((b.layMembers level ((k, j) :: ms)).map some ++ rest) =
          after ⟨openObject seen none :: outer, .key⟩
            ((b.line (level + 1)).map some ++
              ((renderText k ++ ':' :: b.gap ++ b.lay (level + 1) j).map some ++
                ((b.layMembers level ms).map some ++ rest))) := by
      simp only [layMembers, List.cons_append, List.map_cons, List.map_append, List.append_assoc]
      exact after_mark (c := ',') rfl rfl
    rw [hcomma, after_blanks (b.isSpace_line _),
      after_member hj seen rfl (level + 1) (apart_layMembers level ms), ih hms, List.append_assoc]
    rfl

end Containers

end Blanks

/-! ## Sound values -/

/-- A value that a text can stand for: its numbers are numbers, and nothing in it is garbled. -/
inductive Sound : Json → Prop
  | null : Sound .null
  | bool (value : Bool) : Sound (.bool value)
  | number {literal : String} (h : isNumber literal.toList = true) : Sound (.number literal)
  | string (s : String) : Sound (.string s)
  | array {items : List Json} (h : ∀ j ∈ items, Sound j) : Sound (.array items)
  | object {members : List (String × Json)} (h : ∀ m ∈ members, Sound m.2) :
    Sound (.object members)

/-- A token that is a value is put on the stack. -/
theorem step_scalar {p : Progress} {stack : List Frame} (hp : Opens p stack) (j : Json) :
    p.step (.scalar j) = some (put j stack) :=
  hp _ nofun

/-- **The layout of a sound value is read as the value.** -/
theorem Blanks.reads_of_sound (b : Blanks) {j : Json} (h : j.Sound) : b.Reads j := by
  induction h with
  | null =>
    intro level p stack rest hp hrest
    rw [lay]
    exact after_of_token (tokens?_word (c := 'n') rfl rfl hrest) (step_scalar hp _)
  | bool value =>
    intro level p stack rest hp hrest
    rw [lay]
    cases value with
    | true =>
      exact after_of_token (tokens?_word (c := 't') rfl rfl hrest) (step_scalar hp _)
    | false =>
      exact after_of_token (tokens?_word (c := 'f') rfl rfl hrest) (step_scalar hp _)
  | @number literal hliteral =>
    intro level p stack rest hp hrest
    rw [lay]
    have htoken := tokens?_number hliteral hrest
    rw [String.ofList_toList] at htoken
    exact after_of_token htoken (step_scalar hp _)
  | string s =>
    intro level p stack rest hp hrest
    rw [lay]
    exact after_text (hp _ nofun)
  | @array items _ ih =>
    intro level p stack rest hp hrest
    have hopen : p.step .openArray = some ⟨.array [] :: stack, .valueOrEnd⟩ := hp _ nofun
    cases items with
    | nil =>
      rw [lay]
      exact (after_mark (c := '[') rfl hopen).trans (after_mark (c := ']') rfl rfl)
    | cons j js =>
      obtain ⟨hj, hjs⟩ := List.forall_mem_cons.1 ih
      have hsplit : (b.lay level (.array (j :: js))).map some ++ rest =
          some '[' :: ((b.line (level + 1)).map some ++ ((b.lay (level + 1) j).map some ++
            ((b.layItems level js).map some ++ rest))) := by
        simp only [lay, List.cons_append, List.map_cons, List.map_append, List.append_assoc]
      rw [hsplit, after_mark (c := '[') rfl hopen, after_blanks (b.isSpace_line _),
        hj (opens_valueOrEnd stack) (b.apart_layItems level js)]
      exact b.after_layItems hjs level [j] stack
  | @object members _ ih =>
    intro level p stack rest hp hrest
    have hopen : p.step .openObject = some ⟨.object [] none :: stack, .keyOrEnd⟩ := hp _ nofun
    cases members with
    | nil =>
      rw [lay]
      exact (after_mark (c := '\x7b') rfl hopen).trans (after_mark (c := '\x7d') rfl rfl)
    | cons m ms =>
      obtain ⟨k, j⟩ := m
      obtain ⟨hj, hms⟩ := List.forall_mem_cons.1 ih
      have hsplit : (b.lay level (.object ((k, j) :: ms))).map some ++ rest =
          some '\x7b' :: ((b.line (level + 1)).map some ++
            ((renderText k ++ ':' :: b.gap ++ b.lay (level + 1) j).map some ++
              ((b.layMembers level ms).map some ++ rest))) := by
        simp only [lay, List.cons_append, List.map_cons, List.map_append, List.append_assoc]
      have hmember : after ⟨.object [] none :: stack, .keyOrEnd⟩
          ((renderText k ++ ':' :: b.gap ++ b.lay (level + 1) j).map some ++
            ((b.layMembers level ms).map some ++ rest)) =
          after ⟨openObject [(k, j)] none :: stack, .separator⟩
            ((b.layMembers level ms).map some ++ rest) :=
        b.after_member hj [] rfl (level + 1) (b.apart_layMembers level ms)
      rw [hsplit, after_mark (c := '\x7b') rfl hopen, after_blanks (b.isSpace_line _), hmember]
      exact b.after_layMembers hms level [(k, j)] stack

/-- **A sound value survives as a text,** in any layout and with blanks after it. -/
theorem ofChars?_lay (b : Blanks) {j : Json} (h : j.Sound) (level : Nat) {blanks : List Char}
    (hblanks : ∀ c ∈ blanks, isSpace c = true) :
    ofChars? ((b.lay level j ++ blanks).map some) = some j := by
  refine ofChars?_of_after ?_
  have hend : after (put j []) (blanks.map some ++ []) = after (put j []) [] :=
    after_blanks hblanks
  have hapart := apart_append hblanks apart_nil
  rw [List.append_nil] at hend hapart
  rw [List.map_append, b.reads_of_sound h (opens_value []) hapart, hend, after_nil]

/-- The compact layout of a sound value is read as the value. -/
theorem ofText?_compactText {j : Json} (h : j.Sound) : ofText? j.compactText = some j := by
  have hread : ofChars? ((Blanks.compact.lay 0 j ++ []).map some) = some j :=
    ofChars?_lay Blanks.compact h 0 nofun
  rw [List.append_nil, Blanks.lay_compact] at hread
  rw [ofText?, compactText, String.toList_ofList]
  exact hread

/-! ## Lists of texts -/

theorem sound_ofTexts (texts : List String) : (ofTexts texts).Sound :=
  .array (List.forall_mem_map.2 fun s _ => .string s)

theorem texts?_ofTexts (texts : List String) : (ofTexts texts).texts? = some texts := by
  have htexts : (texts.map string).mapM text? = some (texts.map id) :=
    Sequence.mapM_map_eq_pure fun _ _ => rfl
  rw [texts?, ofTexts, items?, Option.bind_some, htexts, List.map_id]

/-- **A list of texts survives as JSON,** whatever the texts are. -/
theorem texts?_ofText?_compactText (texts : List String) :
    (ofText? (ofTexts texts).compactText).bind texts? = some texts := by
  rw [ofText?_compactText (sound_ofTexts texts), Option.bind_some, texts?_ofTexts]

end Json
end Linguist
