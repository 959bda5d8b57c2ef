/-!
# Language tags

A language is named by a tag of parts between hyphens or underscores: the language
itself, then perhaps a script, a region, and variants, in this order.  Letters may
have either case and are brought into the customary one; variants are sorted, and
one that repeats is dropped.

## Four-letter variants

A variant of four characters is meant to begin with a digit.  A reader that knows
the parts before it cannot confuse it with a script any more, and accepts the
other forms in which only the first character is out of the ordinary.
-/

namespace Linguist

/-- The parts of a language tag in their customary case; the undetermined language
is absent. -/
structure LanguageTag where
  language? : Option String
  script? : Option String
  region? : Option String
  variants : List String
  deriving DecidableEq, Repr

namespace LanguageTag

/-- The language in a part: two to eight letters, but not four. -/
def readLanguage? (s : List Char) : Option (Option String) :=
  if 2 ≤ s.length ∧ s.length ≤ 8 ∧ s.length ≠ 4 ∧ s.all Char.isAlpha then
    let small := String.ofList (s.map Char.toLower)
    some (if small = "und" then none else some small)
  else none

/-- The script in a part: four letters. -/
def readScript? (s : List Char) : Option String :=
  match s with
  | first :: rest =>
    if s.length = 4 ∧ s.all Char.isAlpha then
      some (String.ofList (first.toUpper :: rest.map Char.toLower))
    else none
  | [] => none

/-- The region in a part: two letters or three digits. -/
def readRegion? (s : List Char) : Option String :=
  if s.length = 2 ∧ s.all Char.isAlpha then some (String.ofList (s.map Char.toUpper))
  else if s.length = 3 ∧ s.all Char.isDigit then some (String.ofList s)
  else none

/-- Whether a character is one of ASCII other than NUL. -/
def isTagChar (c : Char) : Bool :=
  0 < c.toNat && c.toNat < 0x80

/-- Whether a part is a variant: five to eight letters and digits, or four
characters of which the first is a digit or the others are letters and digits. -/
def isVariant (s : List Char) : Bool :=
  match s with
  | first :: rest =>
    if 5 ≤ s.length ∧ s.length ≤ 8 then s.all Char.isAlphanum
    else s.length == 4 && s.all isTagChar && (first.isDigit || rest.all Char.isAlphanum)
  | [] => false

/-- The variants in the last parts, if all of them are variants. -/
def readVariants? (parts : List (List Char)) : Option (List String) :=
  if parts.all isVariant then
    let small := parts.map fun s => String.ofList (s.map Char.toLower)
    some ((small.mergeSort fun a b => (compare a b).isLE).eraseReps)
  else none

/-- Takes the first part off if it can be read. -/
def takePart? (read : List Char → Option String) (parts : List (List Char)) :
    Option String × List (List Char) :=
  match parts with
  | [] => (none, [])
  | s :: rest =>
    match read s with
    | some part => (some part, rest)
    | none => (none, parts)

/-- The tag that a text denotes. -/
def ofText? (text : String) : Option LanguageTag := do
  let parts := (text.toList.map fun c => if c = '_' then '-' else c).splitOn '-'
  let first :: rest := parts | none
  let language? ← readLanguage? first
  let (script?, rest) := takePart? readScript? rest
  let (region?, rest) := takePart? readRegion? rest
  let variants ← readVariants? rest
  return { language?, script?, region?, variants }

/-- The customary form of the tag. -/
def text (t : LanguageTag) : String :=
  String.intercalate "-" (t.language?.getD "und" :: t.script?.toList ++ t.region?.toList ++
    t.variants)

end LanguageTag
end Linguist
