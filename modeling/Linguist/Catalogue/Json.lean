import Linguist.Catalogue
import Linguist.Json.Printer
import Linguist.Json.Reader

/-!
# A catalogue as JSON

Every part of a catalogue has a form as a JSON value, and the form loses nothing.
Parts that are absent are left out, and so are the mark of a plural message and
the list of places when there is nothing in them.

Reading is lenient in the ways records allow: fields with a default may be
missing, unknown ones are passed over, and a record may be given as an array.
-/

namespace Linguist

namespace LineNumber

/-- The line number as a choice between its two kinds. -/
def toJson : LineNumber → Json
  | absolute line => .object [("absolute", .ofNat line.toNat)]
  | relative offset => .object [("relative", .ofInt offset.toInt)]

/-- The line number of a choice. -/
def ofJson? (j : Json) : Option LineNumber :=
  match j.choice? with
  | some ("absolute", some value) => value.uint32?.map absolute
  | some ("relative", some value) => value.int64?.map relative
  | _ => none

end LineNumber

namespace Place

/-- The place as a record. -/
def toJson (p : Place) : Json :=
  .object <| Json.memberOf "filename" .string p.file? ++
    Json.memberOf "line" LineNumber.toJson p.line?

/-- The place of a record. -/
def ofJson? (j : Json) : Option Place := do
  match ← j.fields? ["filename", "line"] with
  | [file, line] =>
    return ⟨← Json.nullable Json.text? file, ← Json.nullable LineNumber.ofJson? line⟩
  | _ => none

end Place

namespace Status

/-- The status as its name. -/
def toJson (s : Status) : Json :=
  .string s.text

/-- The status of a name. -/
def ofName? : String → Option Status
  | "finished" => some finished
  | "unfinished" => some unfinished
  | "vanished" => some vanished
  | "obsolete" => some obsolete
  | _ => none

/-- The status of a choice that nothing comes with. -/
def ofJson? (j : Json) : Option Status :=
  match j.choice? with
  | some (name, none) | some (name, some .null) => ofName? name
  | _ => none

end Status

namespace Wording

/-- The wording as a choice between its shapes. -/
def toJson : Wording → Json
  | plain text => .object [("text", .string text)]
  | plural forms => .object [("numerus", .ofTexts forms)]
  | lengths variants => .object [("variants", .ofTexts variants)]

/-- The wording of a choice. -/
def ofJson? (j : Json) : Option Wording :=
  match j.choice? with
  | some ("text", some value) => value.text?.map plain
  | some ("numerus", some value) => value.texts?.map plural
  | some ("variants", some value) => value.texts?.map lengths
  | _ => none

end Wording

namespace Target

/-- The target as a record. -/
def toJson (t : Target) : Json :=
  .object [("state", t.status.toJson), ("value", t.wording.toJson)]

/-- The target of a record. -/
def ofJson? (j : Json) : Option Target := do
  match ← j.fields? ["state", "value"] with
  | [status, wording] =>
    return ⟨← Json.required Status.ofJson? status, ← Json.required Wording.ofJson? wording⟩
  | _ => none

end Target

namespace Message

/-- The message as a record. -/
def toJson (m : Message) : Json :=
  .object <| Json.memberOf "id" .string m.id? ++
    (if m.isPlural then [("numerus", .bool true)] else []) ++
    (if m.places.isEmpty then [] else [("locations", .array (m.places.map Place.toJson))]) ++
    [("source", .string m.source)] ++
    Json.memberOf "oldsource" .string m.oldSource? ++
    Json.memberOf "comment" .string m.comment? ++
    Json.memberOf "oldcomment" .string m.oldComment? ++
    Json.memberOf "extracomment" .string m.extraComment? ++
    Json.memberOf "translatorcomment" .string m.translatorComment? ++
    [("translation", m.target.toJson)]

/-- The fields of a message. -/
def fieldNames : List String :=
  ["id", "numerus", "locations", "source", "oldsource", "comment", "oldcomment", "extracomment",
    "translatorcomment", "translation"]

/-- The message of a record. -/
def ofJson? (j : Json) : Option Message := do
  match ← j.fields? fieldNames with
  | [id, plural, places, source, oldSource, comment, oldComment, extraComment,
      translatorComment, target] =>
    return {
      id? := ← Json.nullable Json.text? id
      isPlural := ← Json.optional false Json.bool? plural
      places := ← Json.optional [] (fun v => v.items?.bind (·.mapM Place.ofJson?)) places
      source := ← Json.required Json.text? source
      oldSource? := ← Json.nullable Json.text? oldSource
      comment? := ← Json.nullable Json.text? comment
      oldComment? := ← Json.nullable Json.text? oldComment
      extraComment? := ← Json.nullable Json.text? extraComment
      translatorComment? := ← Json.nullable Json.text? translatorComment
      target := ← Json.optional .untouched Target.ofJson? target }
  | _ => none

end Message

namespace Context

/-- The context as a record. -/
def toJson (c : Context) : Json :=
  .object <| [("name", .string c.name)] ++ Json.memberOf "comment" .string c.comment? ++
    [("messages", .array (c.messages.map Message.toJson))]

/-- The context of a record. -/
def ofJson? (j : Json) : Option Context := do
  match ← j.fields? ["name", "comment", "messages"] with
  | [name, comment, messages] =>
    return {
      name := ← Json.required Json.text? name
      comment? := ← Json.nullable Json.text? comment
      messages := ← Json.optional [] (fun v => v.items?.bind (·.mapM Message.ofJson?)) messages }
  | _ => none

end Context

namespace Catalogue

/-- The catalogue as a record. -/
def toJson (c : Catalogue) : Json :=
  .object <| [("version", .string c.version)] ++
    Json.memberOf "language" .string c.language? ++
    Json.memberOf "source_language" .string c.sourceLanguage? ++
    [("contexts", .array (c.contexts.map Context.toJson))]

/-- The catalogue of a record. -/
def ofJson? (j : Json) : Option Catalogue := do
  match ← j.fields? ["version", "language", "source_language", "contexts"] with
  | [version, language, sourceLanguage, contexts] =>
    return {
      version := ← Json.required Json.text? version
      language? := ← Json.nullable Json.text? language
      sourceLanguage? := ← Json.nullable Json.text? sourceLanguage
      contexts := ← Json.optional [] (fun v => v.items?.bind (·.mapM Context.ofJson?)) contexts }
  | _ => none

/-- The text of the JSON file of a catalogue. -/
def jsonText (c : Catalogue) : String :=
  c.toJson.wideText ++ "\n"

/-- The catalogue in the bytes of a JSON file. -/
def ofJsonFile (bytes : List UInt8) : Except Fault Catalogue :=
  match (Json.ofBytes? bytes).bind ofJson? with
  | some c => .ok c
  | none => .error .notJson

end Catalogue
end Linguist
