import Linguist.Catalogue.Rows
import Linguist.Proofs.Json.Layout

/-!
# The row of a message

A row carries the texts of its message, its status and its wording, each in a cell of its
own, and each of them can be read off the row again: the status by its name
(`readStatus_ofMessage`), the wording by its shape (`readWording_ofMessage`), and the key
without asking whether the comment was absent or empty (`key_ofMessage`).

No cell of a status is blank, so that the default for a blank one never applies to the row
of a message.
-/

namespace Linguist

namespace Status

theorem ofText?_text (s : Status) : ofText? s.text = .ok s := by
  cases s <;> rfl

theorem isAllBlank_text (s : Status) : Text.isAllBlank s.text = false := by
  cases s <;> rfl

end Status

namespace Csv
namespace Row

variable {r : Row} (context : String) (m : Message)

/-! ## The wording -/

/-- A written list of texts begins with its bracket. -/
theorem isAllBlank_compactText (texts : List String) :
    Text.isAllBlank (Json.ofTexts texts).compactText = false := by
  rw [Text.isAllBlank, Json.compactText, String.toList_ofList]
  cases texts with
  | nil => simp [Json.ofTexts, Json.compact, Text.isBlank]
  | cons s texts => simp [Json.ofTexts, Json.compact, Text.isBlank]

theorem forms_of_compactText {texts : List String}
    (h : r.wording = (Json.ofTexts texts).compactText) : r.forms = .ok texts := by
  rw [forms, h, isAllBlank_compactText, Json.texts?_ofText?_compactText]
  rfl

theorem readWording_plain (h : r.shape = "") : r.readWording = .ok (.plain r.wording) := by
  have htrimmed : Text.trimmed "" = "" := rfl
  rw [readWording, h, htrimmed]
  rfl

theorem readWording_numerus (h : r.shape = "numerus") :
    r.readWording = r.forms.map Wording.plural := by
  have htrimmed : Text.trimmed "numerus" = "numerus" := rfl
  rw [readWording, h, htrimmed]
  rfl

theorem readWording_variants (h : r.shape = "variants") :
    r.readWording = r.forms.map Wording.lengths := by
  have htrimmed : Text.trimmed "variants" = "variants" := rfl
  rw [readWording, h, htrimmed]
  rfl

/-- **The wording reads back** in its shape. -/
theorem readWording_ofMessage : (ofMessage context m).readWording = .ok m.target.wording := by
  have hshape : (ofMessage context m).shape = (shapeAndText m.target.wording).1 := rfl
  have hwording : (ofMessage context m).wording = (shapeAndText m.target.wording).2 := rfl
  cases hw : m.target.wording with
  | plain text =>
    rw [hw] at hshape hwording
    rw [readWording_plain hshape, hwording]
    rfl
  | plural texts =>
    rw [hw] at hshape hwording
    rw [readWording_numerus hshape, forms_of_compactText hwording]
    rfl
  | lengths texts =>
    rw [hw] at hshape hwording
    rw [readWording_variants hshape, forms_of_compactText hwording]
    rfl

/-! ## The status -/

theorem readStatus_ofMessage (w : Wording) :
    (ofMessage context m).readStatus w = .ok m.target.status := by
  have hstatus : (ofMessage context m).status = m.target.status.text := rfl
  rw [readStatus, hstatus, m.target.status.isAllBlank_text, m.target.status.ofText?_text]
  rfl

/-! ## The comments -/

/-- Absent and empty are told apart by nothing but that an empty text is not written. -/
theorem absent_if_empty {comment? : Option String} (h : comment? ≠ some "") :
    (if (comment?.getD "").isEmpty then none else some (comment?.getD "")) = comment? := by
  cases comment? with
  | none => rfl
  | some s =>
    rw [Option.getD_some, if_neg]
    intro hempty
    exact h (congrArg some (String.isEmpty_iff.1 hempty))

theorem comment?_ofMessage (h : m.comment? ≠ some "") :
    (ofMessage context m).comment? = m.comment? :=
  absent_if_empty h

/-- A row is addressed by the key of its message, whether the comment is absent or empty. -/
theorem key_ofMessage :
    Message.Key.of (ofMessage context m).source (ofMessage context m).comment? = m.key := by
  rw [Message.key, Message.Key.of, Message.Key.of, Message.Key.mk.injEq]
  refine ⟨rfl, ?_⟩
  show ((if (m.comment?.getD "").isEmpty then none else some (m.comment?.getD "")).getD "") = _
  cases hempty : (m.comment?.getD "").isEmpty with
  | true => exact (String.isEmpty_iff.1 hempty).symm
  | false => rfl

end Row
end Csv
end Linguist
