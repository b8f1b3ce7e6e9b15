import ScrabbleMagyar.Engine.Tiles
import ScrabbleMagyar.Util

/-!
# Requests of administrators

The errors that the admin panel answers with, and the checks of the texts it is given
(`admin/mod.rs`).
-/

namespace ScrabbleMagyar.Admin

/-- The message, the status of the answer and the field that is marked. -/
structure AdminError where
  message : String
  status : ℕ
  field : Option String
  deriving DecidableEq

/-- A reason has at least so many characters. -/
def minReasonLen : ℕ := 3

/-- A reason has at most so many characters. -/
def maxReasonLen : ℕ := 500

/-- A text that is asked for, without the white space around it. -/
def cleanText (value : Option Word) (field : String) (maximum : ℕ) (required : Bool) :
    Except AdminError Word :=
  let text := (value.map trim).getD []
  if required && text.isEmpty then
    .error ⟨"A mező kitöltése kötelező.", 400, some field⟩
  else if maximum < text.length then .error ⟨"A szöveg túl hosszú.", 400, some field⟩
  else .ok text

/-- The reason of a deed, without the white space around it. -/
def normalizeReason (reason : Option Word) : Except AdminError Word :=
  let text := (reason.map trim).getD []
  if text.length < minReasonLen then
    .error ⟨"Az indoklás megadása kötelező (legalább 3 karakter).", 400, some "reason"⟩
  else if maxReasonLen < text.length then
    .error ⟨"Az indoklás legfeljebb 500 karakter lehet.", 400, some "reason"⟩
  else .ok text

end ScrabbleMagyar.Admin
