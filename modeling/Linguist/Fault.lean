import Linguist.Text.Numeral
import Linguist.Text.Quoted

/-!
# What can go wrong

Every operation that can fail answers with a `Fault`, a cause and not a text.
The wording is in one place, `Fault.message`, so that a statement about a failure
can speak of its cause.

Faults of the byte level --- a broken table, a broken markup --- carry no detail:
a file that is not in its format has no content to speak about.  A `Defect` is
the opposite case, a file in its format whose content makes no catalogue.
-/

namespace Linguist

/-- Why a well-formed input denotes no catalogue. -/
inductive Defect where
  | noRoot
  | foreignRoot (found : String)
  | messageOutsideContext
  | contextWithoutName
  | messageWithoutSource
  | endOfFileIn (element : String)
  | variantsInsideForm
  | byteWithoutValue
  | badByte (value : String)
  | badLine (line : String)
  | unknownStatus (status : String)
  | unknownPlaceStyle (style : String)
  | unknownShape (shape source : String)
  deriving DecidableEq, Repr

/-- A cause of failure. -/
inductive Fault where
  | unknownFormat (name : String)
  | notJson
  | notMarkup
  | badAttributes
  | unsupportedCharset (label : String)
  | notTable
  | unreachable
  | invalid (defect : Defect)
  | messageNotFound (context source : String)
  | duplicateCode (code : Int)
  | rejected (findings : List String)
  deriving DecidableEq, Repr

/-- The wording of a defect. -/
def Defect.message : Defect → String
  | noRoot => "missing <TS> root element"
  | foreignRoot found => "expected <TS> root element, found <" ++ found ++ ">"
  | messageOutsideContext => "<message> outside of <context>"
  | contextWithoutName => "<context> without <name>"
  | messageWithoutSource => "<message> without <source>"
  | endOfFileIn element => "unexpected end of file in <" ++ element ++ ">"
  | variantsInsideForm => "length variants inside <numerusform> are not supported"
  | byteWithoutValue => "<byte> without value"
  | badByte value => "invalid <byte> value \x60" ++ value ++ "\x60"
  | badLine line => "invalid line number \x60" ++ line ++ "\x60"
  | unknownStatus status => "unknown translation type \x60" ++ status ++ "\x60"
  | unknownPlaceStyle style => "unknown location style \x60" ++ style ++ "\x60"
  | unknownShape shape source =>
    "unknown CSV form \x60" ++ shape ++ "\x60 for " ++ Text.quoted source

/-- The wording of a fault; of a fault of the byte level, only its title. -/
def Fault.message : Fault → String
  | unknownFormat name => "unknown format \x60" ++ name ++ "\x60"
  | notJson => "JSON error"
  | notMarkup => "XML parse error"
  | badAttributes => "XML attribute error"
  | unsupportedCharset label => "unsupported encoding \x60" ++ label ++ "\x60"
  | notTable => "CSV error"
  | unreachable => "I/O error"
  | invalid defect => "invalid document: " ++ defect.message
  | messageNotFound context source =>
    "message not found in context \x60" ++ context ++ "\x60: " ++ Text.quoted source
  | duplicateCode code => "duplicate error code " ++ String.ofList (Text.decimalInt code)
  | rejected findings =>
    "validation error: " ++ String.ofList (Text.decimal findings.length) ++ " issue(s):\n" ++
      String.intercalate "\n" findings

end Linguist
