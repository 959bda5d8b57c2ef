import Linguist.Catalogue.Json
import Linguist.Proofs.Bytes.Utf8
import Linguist.Proofs.Json.Record

/-!
# A catalogue survives as JSON

Whatever a catalogue holds, the JSON file written from it is read as the same catalogue
(`ofJsonFile_jsonText`).  There is no condition: a character that is escaped in a string comes
back, line numbers of all sizes do, and what is left out because it is absent, not set or
empty is filled in again as it was, so that an empty text is not taken for none.

Every part of a catalogue has two lemmas: its form is a sound value, so that it survives as a
text, and the part is read back from its form.  The parts that are records are given by their
slots first.
-/

namespace Linguist

/-! ## Line numbers, places and targets -/

namespace LineNumber

theorem sound_toJson (l : LineNumber) : l.toJson.Sound := by
  cases l with
  | absolute line => exact .object (List.forall_mem_singleton.2 (Json.sound_ofNat _))
  | relative offset => exact .object (List.forall_mem_singleton.2 (Json.sound_ofInt _))

theorem ofJson?_toJson (l : LineNumber) : ofJson? l.toJson = some l := by
  cases l with
  | absolute line => exact congrArg (Option.map absolute) (Json.uint32?_ofNat line)
  | relative offset => exact congrArg (Option.map relative) (Json.int64?_ofInt offset)

end LineNumber

namespace Place

/-- The slots of the record of a place. -/
def slots (p : Place) : List (String × Option Json) :=
  [("filename", p.file?.map .string), ("line", p.line?.map LineNumber.toJson)]

theorem toJson_eq (p : Place) : p.toJson = Json.record p.slots := by
  simp only [toJson, Json.record, slots, Json.members_map, Json.members_nil, List.append_nil]

theorem sound_toJson (p : Place) : p.toJson.Sound := by
  rw [toJson_eq]
  refine Json.sound_record ?_
  simp [slots, Json.Sound.string, LineNumber.sound_toJson]

theorem ofJson?_toJson (p : Place) : ofJson? p.toJson = some p := by
  have hfields : (Json.record p.slots).fields? ["filename", "line"] =
      some (p.slots.map Prod.snd) := Json.fields?_record (show ["filename", "line"].Nodup by decide)
  have hline : Json.nullable LineNumber.ofJson? (p.line?.map LineNumber.toJson) = some p.line? :=
    Json.nullable_map LineNumber.ofJson?_toJson (fun l => by cases l <;> nofun) p.line?
  rw [toJson_eq, ofJson?, hfields]
  simp only [slots, List.map_cons, List.map_nil, Option.bind_eq_bind, Option.bind_some,
    Json.nullable_text, hline]
  rfl

end Place

namespace Status

theorem sound_toJson (s : Status) : s.toJson.Sound :=
  .string s.text

theorem ofJson?_toJson (s : Status) : ofJson? s.toJson = some s := by
  cases s <;> decide

end Status

namespace Wording

theorem sound_toJson (w : Wording) : w.toJson.Sound := by
  cases w with
  | plain text => exact .object (List.forall_mem_singleton.2 (.string text))
  | plural forms => exact .object (List.forall_mem_singleton.2 (Json.sound_ofTexts forms))
  | lengths variants => exact .object (List.forall_mem_singleton.2 (Json.sound_ofTexts variants))

theorem ofJson?_toJson (w : Wording) : ofJson? w.toJson = some w := by
  cases w with
  | plain text => rfl
  | plural forms => exact congrArg (Option.map plural) (Json.texts?_ofTexts forms)
  | lengths variants => exact congrArg (Option.map lengths) (Json.texts?_ofTexts variants)

end Wording

namespace Target

/-- The slots of the record of a target. -/
def slots (t : Target) : List (String × Option Json) :=
  [("state", some t.status.toJson), ("value", some t.wording.toJson)]

theorem toJson_eq (t : Target) : t.toJson = Json.record t.slots := rfl

theorem sound_toJson (t : Target) : t.toJson.Sound := by
  rw [toJson_eq]
  refine Json.sound_record ?_
  simp [slots, Status.sound_toJson, Wording.sound_toJson]

theorem ofJson?_toJson (t : Target) : ofJson? t.toJson = some t := by
  have hfields : (Json.record t.slots).fields? ["state", "value"] =
      some (t.slots.map Prod.snd) :=
    Json.fields?_record (show ["state", "value"].Nodup by decide)
  rw [toJson_eq, ofJson?, hfields]
  simp only [slots, List.map_cons, List.map_nil, Option.bind_eq_bind, Option.bind_some,
    Json.required, Status.ofJson?_toJson, Wording.ofJson?_toJson]
  rfl

end Target

/-! ## Messages, contexts and catalogues -/

namespace Message

/-- The slots of the record of a message. -/
def slots (m : Message) : List (String × Option Json) :=
  [("id", m.id?.map .string), ("numerus", if m.isPlural then some (.bool true) else none),
    ("locations", if m.places.isEmpty then none else some (.array (m.places.map Place.toJson))),
    ("source", some (.string m.source)), ("oldsource", m.oldSource?.map .string),
    ("comment", m.comment?.map .string), ("oldcomment", m.oldComment?.map .string),
    ("extracomment", m.extraComment?.map .string),
    ("translatorcomment", m.translatorComment?.map .string),
    ("translation", some m.target.toJson)]

theorem toJson_eq (m : Message) : m.toJson = Json.record m.slots := by
  simp only [toJson, Json.record, slots, Json.members_map, Json.members_if, Json.members_unless,
    Json.members_some, Json.members_nil, List.append_assoc, List.cons_append, List.nil_append]

theorem sound_toJson (m : Message) : m.toJson.Sound := by
  have hplaces := Json.sound_items Place.sound_toJson m.places
  rw [toJson_eq]
  refine Json.sound_record ?_
  simp [slots, Json.Sound.string, Json.Sound.bool, hplaces, Target.sound_toJson]

theorem ofJson?_toJson (m : Message) : ofJson? m.toJson = some m := by
  have hfields : (Json.record m.slots).fields? fieldNames = some (m.slots.map Prod.snd) :=
    Json.fields?_record (show fieldNames.Nodup by decide)
  have hplaces := Json.optional_items_of_isEmpty Place.ofJson?_toJson m.places
  have htarget : Json.optional .untouched Target.ofJson? (some m.target.toJson) = some m.target :=
    Target.ofJson?_toJson m.target
  rw [toJson_eq, ofJson?, hfields]
  simp only [slots, List.map_cons, List.map_nil, Option.bind_eq_bind, Option.bind_some,
    Json.nullable_text, Json.optional_bool, hplaces, Json.required, Json.text?, htarget]
  rfl

end Message

namespace Context

/-- The slots of the record of a context. -/
def slots (x : Context) : List (String × Option Json) :=
  [("name", some (.string x.name)), ("comment", x.comment?.map .string),
    ("messages", some (.array (x.messages.map Message.toJson)))]

theorem toJson_eq (x : Context) : x.toJson = Json.record x.slots := by
  simp only [toJson, Json.record, slots, Json.members_map, Json.members_some, Json.members_nil,
    List.cons_append, List.nil_append]

theorem sound_toJson (x : Context) : x.toJson.Sound := by
  have hmessages := Json.sound_items Message.sound_toJson x.messages
  rw [toJson_eq]
  refine Json.sound_record ?_
  simp [slots, Json.Sound.string, hmessages]

theorem ofJson?_toJson (x : Context) : ofJson? x.toJson = some x := by
  have hfields : (Json.record x.slots).fields? ["name", "comment", "messages"] =
      some (x.slots.map Prod.snd) :=
    Json.fields?_record (show ["name", "comment", "messages"].Nodup by decide)
  have hmessages := Json.optional_items Message.ofJson?_toJson x.messages
  rw [toJson_eq, ofJson?, hfields]
  simp only [slots, List.map_cons, List.map_nil, Option.bind_eq_bind, Option.bind_some,
    Json.nullable_text, Json.required, Json.text?, hmessages]
  rfl

end Context

namespace Catalogue

/-- The slots of the record of a catalogue. -/
def slots (c : Catalogue) : List (String × Option Json) :=
  [("version", some (.string c.version)), ("language", c.language?.map .string),
    ("source_language", c.sourceLanguage?.map .string),
    ("contexts", some (.array (c.contexts.map Context.toJson)))]

theorem toJson_eq (c : Catalogue) : c.toJson = Json.record c.slots := by
  simp only [toJson, Json.record, slots, Json.members_map, Json.members_some, Json.members_nil,
    List.append_assoc, List.cons_append, List.nil_append]

theorem sound_toJson (c : Catalogue) : c.toJson.Sound := by
  have hcontexts := Json.sound_items Context.sound_toJson c.contexts
  rw [toJson_eq]
  refine Json.sound_record ?_
  simp [slots, Json.Sound.string, hcontexts]

theorem ofJson?_toJson (c : Catalogue) : ofJson? c.toJson = some c := by
  have hfields : (Json.record c.slots).fields?
      ["version", "language", "source_language", "contexts"] = some (c.slots.map Prod.snd) :=
    Json.fields?_record
      (show ["version", "language", "source_language", "contexts"].Nodup by decide)
  have hcontexts := Json.optional_items Context.ofJson?_toJson c.contexts
  rw [toJson_eq, ofJson?, hfields]
  simp only [slots, List.map_cons, List.map_nil, Option.bind_eq_bind, Option.bind_some,
    Json.nullable_text, Json.required, Json.text?, hcontexts]
  rfl

/-- **A catalogue survives as a JSON file,** whatever it holds. -/
theorem ofJsonFile_jsonText (c : Catalogue) : ofJsonFile (Bytes.ofText c.jsonText) = .ok c := by
  have hchars : c.jsonText.toList = Json.Blanks.wide.lay 0 c.toJson ++ ['\n'] := by
    rw [jsonText, String.toList_append, Json.wideText, String.toList_ofList, Json.Blanks.lay_wide]
    rfl
  have hvalue : Json.ofBytes? (Bytes.ofText c.jsonText) = some c.toJson := by
    rw [Json.ofBytes?, Bytes.ofText, Bytes.Utf8.decode_encode, hchars]
    exact Json.ofChars?_lay Json.Blanks.wide c.sound_toJson 0 (List.forall_mem_singleton.2 rfl)
  rw [ofJsonFile, hvalue, Option.bind_some, ofJson?_toJson]

end Catalogue
end Linguist
