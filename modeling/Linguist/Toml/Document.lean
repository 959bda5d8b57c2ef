import Linguist.Toml.Reader

/-!
# TOML files

A file is a list of lines: headers in single brackets, which name a table, headers
in double brackets, which add a table to a list, and keys with their values.  A
value goes to the table of the header before it, or to the whole file before the
first header.

Reading a line knows nothing of the other lines.  Whether they fit together is
decided when they are put into the table one after another.
-/

namespace Linguist
namespace Toml

/-- A line of a file. -/
inductive Line where
  | blank
  | header (path : List String)
  | nextHeader (path : List String)
  | entry (key : List String) (v : Toml)

/-- What follows the end of a line, which a comment may precede. -/
def afterLine? (cs : List Char) : Option (List Char) :=
  match dropComment (dropSpaces cs) with
  | [] => some []
  | cs => afterBreak? cs

/-- Reads a line that is not blank, without its end. -/
def readContent? : List Char → Option (Line × List Char)
  | '[' :: '[' :: rest =>
    match readKey? rest with
    | some (path, ']' :: ']' :: rest) => some (.nextHeader path, rest)
    | _ => none
  | '[' :: rest =>
    match readKey? rest with
    | some (path, ']' :: rest) => some (.header path, rest)
    | _ => none
  | cs =>
    match readKey? cs with
    | some (key, '=' :: rest) => (readValue? rest).map fun (v, rest) => (.entry key v, rest)
    | _ => none

/-- Reads a line and its end. -/
def readLine? (cs : List Char) : Option (Line × List Char) :=
  match afterLine? cs with
  | some rest => some (.blank, rest)
  | none => (readContent? (dropSpaces cs)).bind fun (line, rest) =>
    (afterLine? rest).map (line, ·)

theorem length_of_afterLine? {cs rest : List Char} (h : afterLine? cs = some rest) :
    rest.length ≤ cs.length := by
  have h1 := length_dropComment (dropSpaces cs)
  have h2 := length_dropSpaces cs
  unfold afterLine? at h
  split at h
  · cases h
    exact Nat.zero_le _
  · have := length_of_afterBreak? h
    omega

theorem length_of_readContent? {cs rest : List Char} {line : Line}
    (h : readContent? cs = some (line, rest)) : rest.length < cs.length := by
  unfold readContent? at h
  split at h
  · split at h
    · rename_i hk
      cases h
      have := length_of_readKey? hk
      simp only [List.length_cons] at this ⊢
      omega
    · cases h
  · split at h
    · rename_i hk
      cases h
      have := length_of_readKey? hk
      simp only [List.length_cons] at this ⊢
      omega
    · cases h
  · split at h
    · rename_i hk
      obtain ⟨⟨v, r⟩, hv, heq⟩ := Option.map_eq_some_iff.1 h
      cases heq
      have h1 := length_of_readKey? hk
      have h2 := Walk.length_of_finish hv
      simp only [List.length_cons] at h1
      omega
    · cases h

/-- Only a blank last line may consume nothing. -/
theorem length_of_readLine? {cs rest : List Char} {line : Line}
    (h : readLine? cs = some (line, rest)) (hne : rest ≠ []) : rest.length < cs.length := by
  unfold readLine? at h
  split at h
  · rename_i hl
    cases h
    unfold afterLine? at hl
    split at hl
    · cases hl
      exact absurd rfl hne
    · have h1 := length_of_afterBreak? hl
      have h2 := length_dropComment (dropSpaces cs)
      have h3 := length_dropSpaces cs
      omega
  · obtain ⟨⟨l, more⟩, hc, h⟩ := Option.bind_eq_some_iff.1 h
    obtain ⟨r, hr, heq⟩ := Option.map_eq_some_iff.1 h
    cases heq
    have h1 := length_of_readContent? hc
    have h2 := length_of_afterLine? hr
    have h3 := length_dropSpaces cs
    omega

/-- The lines of a text. -/
def lines? (cs : List Char) : Option (List Line) :=
  match h : readLine? cs with
  | none => none
  | some (line, rest) =>
    if hne : rest = [] then some [line]
    else
      have : rest.length < cs.length := length_of_readLine? h hne
      (lines? rest).map (line :: ·)
termination_by cs.length

/-- The table of a file, and the path of the header that was read last. -/
structure Draft where
  entries : Entries := []
  path : List String := []

/-- The table of a file with one more line. -/
def Draft.add (d : Draft) : Line → Option Draft
  | .blank => some d
  | .header path => (open? path d.entries).map (⟨·, path⟩)
  | .nextHeader path => (openNext? path d.entries).map (⟨·, path⟩)
  | .entry key v =>
    (changeAt .implied (fun _ entries => assign key v .header entries)
      d.path .header d.entries).map (⟨·, d.path⟩)

/-- The text without the byte order mark that it may begin with. -/
def dropMark : List Char → List Char
  | '\ufeff' :: rest => rest
  | cs => cs

/-- The table in the text of a file. -/
def ofText? (s : String) : Option Toml :=
  (lines? (dropMark s.toList)).bind fun lines =>
    (lines.foldlM Draft.add {}).map fun d => .table .header d.entries

end Toml
end Linguist
