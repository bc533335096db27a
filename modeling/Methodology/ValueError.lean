import Methodology.MimeType

/-!
# Values that are refused

* `FieldError`: a field of an entry holds a text that it must not hold.
* `FieldError.field`, `FieldError.message`: the field's name, and the message, which leads with it.
* `ValueError`: a text of a field that fails its constraint, or one that leads to no file type.
* `ValueError.message`: the message.
-/

namespace Methodology

/-! ## Fields that fail their constraint -/

/-- The fields with a constraint on their text. -/
inductive FieldName
  | name
  | shape
  | uuid
  | updated
  deriving DecidableEq, Repr

/-- The field's name in a document. -/
def FieldName.text : FieldName → String
  | name => "name"
  | shape => "structure"
  | uuid => "uuid"
  | updated => "updated"

/-- A text that fails the constraint of its field. -/
inductive FieldError
  /-- A modifier's name that is not a single character. -/
  | modifierName (name : String)
  /-- A shape that is neither of the two words. -/
  | shape (word : String)
  /-- A text that spells no uuid, and why. -/
  | uuid (field : FieldName) (value reason : String)
  /-- A text that names no instant, and why. -/
  | instant (field : FieldName) (value reason : String)
  deriving DecidableEq, Repr

namespace FieldError

/-- The field that is at fault. -/
def field : FieldError → FieldName
  | modifierName _ => .name
  | shape _ => .shape
  | uuid field _ _ => field
  | instant field _ _ => field

/-- The message without the field's name. -/
def complaint : FieldError → String
  | modifierName name => "modifier name must be a single character, got " ++ Text.quoted name
  | shape word => "structure must be boolean or unique, got " ++ Text.quoted word
  | uuid _ value reason => "invalid uuid " ++ Text.quoted value ++ " (" ++ reason ++ ")"
  | instant _ value reason => "invalid timestamp " ++ Text.quoted value ++ " (" ++ reason ++ ")"

/-- **The message**, which leads with the name of the field. -/
def message (e : FieldError) : String := e.field.text ++ ": " ++ e.complaint

end FieldError

/-! ## All of them -/

/-- Why a value is refused. -/
inductive ValueError
  | field (e : FieldError)
  | mime (e : UnsupportedMime)
  deriving DecidableEq, Repr

namespace ValueError

/-- **The message.** -/
def message : ValueError → String
  | field e => "validation error: " ++ e.message
  | mime e => e.message

end ValueError

end Methodology
