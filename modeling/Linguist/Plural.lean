import Linguist.Text.Blank

/-!
# Plural forms

Languages differ in how many forms a counted noun has and in which count takes
which form.  A rule gives both: the number of forms, and the form of each count.
Counts are integers, and the sign does not matter.

The table of languages is short on purpose.  A language is known by the first part
of its name, the only exception being Brazilian Portuguese, and an unknown one has
the two forms of English.
-/

namespace Linguist

/-- A rule for plural forms. -/
inductive PluralRule where
  | single
  | oneOther
  | frenchLike
  | slavic
  | polish
  | czech
  | slovenian
  | lithuanian
  | latvian
  | romanian
  | irish
  | arabic
  deriving DecidableEq, Repr

namespace PluralRule

/-- The name of a rule in reports. -/
def name : PluralRule → String
  | single => "single"
  | oneOther => "one_other"
  | frenchLike => "french_like"
  | slavic => "slavic"
  | polish => "polish"
  | czech => "czech"
  | slovenian => "slovenian"
  | lithuanian => "lithuanian"
  | latvian => "latvian"
  | romanian => "romanian"
  | irish => "irish"
  | arabic => "arabic"

/-- The languages of each rule. -/
def languages : PluralRule → List String
  | single =>
    ["ja", "zh", "ko", "th", "vi", "km", "lo", "my", "yue", "id", "ms", "tr", "fa"]
  | oneOther =>
    ["en", "de", "nl", "sv", "da", "nb", "nn", "no", "is", "fi", "et", "hi", "bn", "it", "es",
      "pt", "el", "eu", "gl", "af", "sw", "ur", "he", "hu", "bg", "ca", "eo"]
  | frenchLike => ["fr"]
  | slavic => ["ru", "uk", "be", "sr", "hr", "bs", "sh"]
  | polish => ["pl"]
  | czech => ["cs", "sk"]
  | slovenian => ["sl"]
  | lithuanian => ["lt"]
  | latvian => ["lv"]
  | romanian => ["ro"]
  | irish => ["ga"]
  | arabic => ["ar"]

/-- All rules. -/
def all : List PluralRule :=
  [single, oneOther, frenchLike, slavic, polish, czech, slovenian, lithuanian, latvian, romanian,
    irish, arabic]

/-- The rule of a language. -/
def ofLanguage (language : String) : PluralRule :=
  let small := (Text.keyword language).toList.map fun c => if c = '_' then '-' else c
  if String.ofList small = "pt-br" then frenchLike
  else
    let base := String.ofList (small.takeWhile (· != '-'))
    (all.find? fun rule => rule.languages.contains base).getD oneOther

/-- The number of forms. -/
def formCount : PluralRule → Nat
  | single => 1
  | oneOther | frenchLike => 2
  | slavic | polish | czech | lithuanian | latvian | romanian | irish => 3
  | slovenian => 4
  | arabic => 6

/-- Whether a count ends in one, but not in eleven. -/
def endsInOne (n : Nat) : Bool :=
  n % 10 == 1 && n % 100 != 11

/-- Whether a count ends in two, three or four, but not in twelve to fourteen. -/
def endsInFew (n : Nat) : Bool :=
  (2 ≤ n % 10 && n % 10 ≤ 4) && !(12 ≤ n % 100 && n % 100 ≤ 14)

/-- The form of a count without sign. -/
def formOf (n : Nat) : PluralRule → Nat
  | single => 0
  | oneOther => if n = 1 then 0 else 1
  | frenchLike => if n ≤ 1 then 0 else 1
  | slavic => if endsInOne n then 0 else if endsInFew n then 1 else 2
  | polish => if n = 1 then 0 else if endsInFew n then 1 else 2
  | czech => if n = 1 then 0 else if 2 ≤ n ∧ n ≤ 4 then 1 else 2
  | slovenian =>
    if n % 100 = 1 then 0
    else if n % 100 = 2 then 1
    else if n % 100 = 3 ∨ n % 100 = 4 then 2
    else 3
  | lithuanian =>
    if endsInOne n then 0
    else if 2 ≤ n % 10 ∧ ¬(12 ≤ n % 100 ∧ n % 100 ≤ 19) then 1
    else 2
  | latvian => if endsInOne n then 0 else if n ≠ 0 then 1 else 2
  | romanian =>
    if n = 1 then 0 else if n = 0 ∨ (1 ≤ n % 100 ∧ n % 100 ≤ 19) then 1 else 2
  | irish => if n = 1 then 0 else if n = 2 then 1 else 2
  | arabic =>
    if n ≤ 2 then n
    else if 3 ≤ n % 100 ∧ n % 100 ≤ 10 then 3
    else if 11 ≤ n % 100 then 4
    else 5

/-- The form of a count. -/
def formIndex (rule : PluralRule) (n : Int) : Nat :=
  formOf n.natAbs rule

end PluralRule
end Linguist
