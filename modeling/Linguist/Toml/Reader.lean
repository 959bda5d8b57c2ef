import Linguist.Toml.Quoted
import Linguist.Toml.Scalar

/-!
# Keys and values of TOML

A key is one name, or several with dots between them.  A value is a string, a word,
an array or an inline table.

## The walk through a value

Arrays and inline tables may hold each other, so reading a value keeps the stack of
those that are open, innermost first, and what may come next.  Each step passes
over what means nothing, consumes at least one character and leads to one next
state.  In an array line breaks and comments mean nothing; in an inline table only
blanks do.

Arrays and inline tables may stand at most 79 deep, and a key may have at most 79
parts.
-/

namespace Linguist
namespace Toml

/-- The depth that no value and no key may reach. -/
def depthLimit : Nat := 80

/-! ## What means nothing -/

/-- The list without a comment that it begins with; the line break stays. -/
def dropComment : List Char → List Char
  | '#' :: rest => rest.dropWhile isPlain
  | cs => cs

theorem length_dropComment (cs : List Char) : (dropComment cs).length ≤ cs.length := by
  unfold dropComment
  split
  · exact Nat.le_succ_of_le (List.dropWhile_sublist _).length_le
  · exact Nat.le_refl _

/-- The list without the blanks that it begins with. -/
def dropSpaces (cs : List Char) : List Char :=
  cs.dropWhile isSpace

theorem length_dropSpaces (cs : List Char) : (dropSpaces cs).length ≤ cs.length :=
  (List.dropWhile_sublist _).length_le

/-- A line that ends in a break takes up a part of the list. -/
theorem length_of_emptyLine {cs rest : List Char}
    (h : afterBreak? (dropComment (dropSpaces cs)) = some rest) : rest.length < cs.length := by
  have h1 := length_of_afterBreak? h
  have h2 := length_dropComment (dropSpaces cs)
  have h3 := length_dropSpaces cs
  omega

/-- The list without the blanks, comments and line breaks that it begins with. -/
def dropLines (cs : List Char) : List Char :=
  match h : afterBreak? (dropComment (dropSpaces cs)) with
  | some rest =>
    have : rest.length < cs.length := length_of_emptyLine h
    dropLines rest
  | none => dropSpaces cs
termination_by cs.length
decreasing_by assumption

theorem length_dropLines (cs : List Char) : (dropLines cs).length ≤ cs.length := by
  fun_induction dropLines cs with
  | case1 cs rest h hlt ih => exact Nat.le_trans ih (Nat.le_of_lt hlt)
  | case2 cs h => exact length_dropSpaces cs

/-! ## Keys -/

/-- Whether a character may occur in a key without quotes. -/
def isKeyChar (c : Char) : Bool :=
  c.isAlphanum || c == '-' || c == '_'

/-- Reads one part of a key. -/
def readName? : List Char → Option (String × List Char)
  | [] => none
  | c :: rest =>
    if isKeyChar c then
      some (String.ofList (c :: rest.takeWhile isKeyChar), rest.dropWhile isKeyChar)
    else (readShort? (c :: rest)).map fun (name, rest) => (String.ofList name, rest)

theorem length_of_readName? {cs rest : List Char} {name : String}
    (h : readName? cs = some (name, rest)) : rest.length < cs.length := by
  unfold readName? at h
  split at h
  · cases h
  · split at h
    · cases h
      exact Nat.lt_succ_of_le (List.dropWhile_sublist _).length_le
    · obtain ⟨⟨t, r⟩, ht, heq⟩ := Option.map_eq_some_iff.1 h
      cases heq
      exact length_of_readShort? ht

/-- What follows the dot that the list begins with, if it does. -/
def afterDot? : List Char → Option (List Char)
  | '.' :: rest => some rest
  | _ => none

theorem length_of_afterDot? {cs rest : List Char} (h : afterDot? cs = some rest) :
    rest.length < cs.length := by
  unfold afterDot? at h
  split at h
  · cases h
    simp
  · cases h

/-- Reads the parts of a key, and the blanks around them. -/
def readParts? (cs : List Char) : Option (List String × List Char) :=
  match hn : readName? (dropSpaces cs) with
  | none => none
  | some (name, more) =>
    match hd : afterDot? (dropSpaces more) with
    | some next =>
      have : next.length < cs.length := by
        have h1 := length_of_afterDot? hd
        have h2 := length_dropSpaces more
        have h3 := length_of_readName? hn
        have h4 := length_dropSpaces cs
        omega
      (readParts? next).map fun (names, rest) => (name :: names, rest)
    | none => some ([name], dropSpaces more)
termination_by cs.length

/-- Reads a key. -/
def readKey? (cs : List Char) : Option (List String × List Char) :=
  (readParts? cs).filter fun (names, _) => names.length < depthLimit

theorem length_of_readParts? {cs rest : List Char} {names : List String}
    (h : readParts? cs = some (names, rest)) : rest.length < cs.length := by
  fun_induction readParts? cs generalizing names with
  | case1 => cases h
  | case2 cs name more hn next hd hlt ih =>
    obtain ⟨⟨ns, r⟩, hr, heq⟩ := Option.map_eq_some_iff.1 h
    cases heq
    exact Nat.lt_trans (ih hr) hlt
  | case3 cs name more hn hd =>
    cases h
    have h1 := length_dropSpaces more
    have h2 := length_of_readName? hn
    have h3 := length_dropSpaces cs
    omega

theorem length_of_readKey? {cs rest : List Char} {names : List String}
    (h : readKey? cs = some (names, rest)) : rest.length < cs.length :=
  length_of_readParts? (Option.filter_eq_some_iff.1 h).1

/-! ## Values -/

/-- An array or inline table that is open: the items so far, last first, or the
entries so far and the key of the next one. -/
inductive Frame where
  | array (seen : List Toml)
  | table (entries : Entries) (key : List String)

/-- What may come next. -/
inductive Expectation where
  | value
  | itemOrEnd
  | key
  | keyOrEnd
  | separator
  | nothing (result : Toml)

/-- The state of the walk. -/
structure Walk where
  stack : List Frame
  next : Expectation

/-- The state once a value is complete. -/
def Walk.put (v : Toml) : List Frame → Option Walk
  | [] => some ⟨[], .nothing v⟩
  | .array seen :: outer => some ⟨.array (v :: seen) :: outer, .separator⟩
  | .table entries key :: outer =>
    (assign key v .inline entries).map fun entries => ⟨.table entries [] :: outer, .separator⟩

/-- The state with one more array or inline table open. -/
def Walk.enter (frame : Frame) (next : Expectation) (stack : List Frame) : Option Walk :=
  if stack.length + 1 < depthLimit then some ⟨frame :: stack, next⟩ else none

/-- The state after the beginning of a value. -/
def Walk.begin (stack : List Frame) (cs : List Char) : Option (Walk × List Char) :=
  match cs with
  | '[' :: rest => (enter (.array []) .itemOrEnd stack).map (·, rest)
  | '\x7b' :: rest => (enter (.table [] []) .keyOrEnd stack).map (·, rest)
  | cs =>
    match readString? cs with
    | some (s, rest) => (put (.text (String.ofList s)) stack).map (·, rest)
    | none =>
      match readWord? cs with
      | some (v, rest) => (put v stack).map (·, rest)
      | none => none

/-- Passes over what means nothing inside the innermost frame. -/
def Walk.dropIdle : List Frame → List Char → List Char
  | .array _ :: _, cs => dropLines cs
  | _, cs => dropSpaces cs

/-- The state after a key and its equals sign. -/
def Walk.takeKey (entries : Entries) (outer : List Frame) (cs : List Char) :
    Option (Walk × List Char) :=
  match readKey? cs with
  | some (key, '=' :: rest) => some (⟨.table entries key :: outer, .value⟩, rest)
  | _ => none

/-- The state after the next piece of the text, where idle characters have been
passed over. -/
def Walk.take : Walk → List Char → Option (Walk × List Char)
  | ⟨stack, .value⟩, cs => begin stack cs
  | ⟨.array seen :: outer, .itemOrEnd⟩, ']' :: rest =>
    (put (.array seen.reverse) outer).map (·, rest)
  | ⟨.array seen :: outer, .itemOrEnd⟩, cs => begin (.array seen :: outer) cs
  | ⟨.array seen :: outer, .separator⟩, ',' :: rest =>
    some (⟨.array seen :: outer, .itemOrEnd⟩, rest)
  | ⟨.array seen :: outer, .separator⟩, ']' :: rest =>
    (put (.array seen.reverse) outer).map (·, rest)
  | ⟨.table entries _ :: outer, .keyOrEnd⟩, '\x7d' :: rest =>
    (put (.table .inline entries) outer).map (·, rest)
  | ⟨.table entries _ :: outer, .keyOrEnd⟩, cs => takeKey entries outer cs
  | ⟨.table entries _ :: outer, .key⟩, cs => takeKey entries outer cs
  | ⟨.table entries key :: outer, .separator⟩, ',' :: rest =>
    some (⟨.table entries key :: outer, .key⟩, rest)
  | ⟨.table entries _ :: outer, .separator⟩, '\x7d' :: rest =>
    (put (.table .inline entries) outer).map (·, rest)
  | _, _ => none

/-- The state after the next piece of the text. -/
def Walk.step (w : Walk) (cs : List Char) : Option (Walk × List Char) :=
  w.take (dropIdle w.stack cs)

theorem Walk.length_of_map_put {o : Option Walk} {w : Walk} {more rest : List Char}
    (h : o.map (·, more) = some (w, rest)) : rest = more := by
  obtain ⟨v, _, heq⟩ := Option.map_eq_some_iff.1 h
  cases heq
  rfl

theorem Walk.length_of_begin {stack : List Frame} {cs rest : List Char} {w : Walk}
    (h : begin stack cs = some (w, rest)) : rest.length < cs.length := by
  unfold begin at h
  split at h
  · rw [length_of_map_put h]
    simp
  · rw [length_of_map_put h]
    simp
  · split at h
    · rename_i hs
      rw [length_of_map_put h]
      exact length_of_readString? hs
    · split at h
      · rename_i hw
        rw [length_of_map_put h]
        exact length_of_readWord? hw
      · cases h

theorem Walk.length_of_takeKey {entries : Entries} {outer : List Frame} {cs rest : List Char}
    {w : Walk} (h : takeKey entries outer cs = some (w, rest)) : rest.length < cs.length := by
  unfold takeKey at h
  split at h
  · rename_i hk
    cases h
    exact Nat.lt_of_succ_lt (length_of_readKey? hk)
  · cases h

theorem Walk.length_of_take {w w' : Walk} {cs rest : List Char}
    (h : w.take cs = some (w', rest)) : rest.length < cs.length := by
  unfold take at h
  split at h
  all_goals first
    | exact length_of_begin h
    | exact length_of_takeKey h
    | (rw [length_of_map_put h]; simp)
    | (cases h; simp)
    | cases h

theorem Walk.length_dropIdle (stack : List Frame) (cs : List Char) :
    (dropIdle stack cs).length ≤ cs.length := by
  unfold dropIdle
  split
  · exact length_dropLines _
  · exact length_dropSpaces _

/-- Each step consumes something. -/
theorem Walk.length_of_step {w w' : Walk} {cs rest : List Char}
    (h : w.step cs = some (w', rest)) : rest.length < cs.length :=
  Nat.lt_of_lt_of_le (length_of_take h) (length_dropIdle _ _)

/-- The value at the end of the walk, and what follows it. -/
def Walk.finish (w : Walk) (cs : List Char) : Option (Toml × List Char) :=
  match w.next with
  | .nothing v => some (v, cs)
  | _ =>
    match h : w.step cs with
    | some (w', rest) =>
      have : rest.length < cs.length := length_of_step h
      w'.finish rest
    | none => none
termination_by cs.length

/-- Reads a value, and the blanks before it. -/
def readValue? (cs : List Char) : Option (Toml × List Char) :=
  (⟨[], .value⟩ : Walk).finish cs

/-- What is left after a walk is not longer. -/
theorem Walk.length_of_finish {w : Walk} {cs rest : List Char} {v : Toml}
    (h : w.finish cs = some (v, rest)) : rest.length ≤ cs.length := by
  fun_induction Walk.finish w cs with
  | case1 => cases h; exact Nat.le_refl _
  | case2 w cs _ w' more hs hlt ih => exact Nat.le_trans (ih h) (Nat.le_of_lt ‹_›)
  | case3 => cases h

end Toml
end Linguist
