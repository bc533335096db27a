import Methodology.Json.Printer
import Methodology.MimeType
import Methodology.ValueError

/-!
# Data that does not fit

* `Found`: what stands where something else was expected.
* `Misread`: why data does not fit what is read from it; `Misread.message`.
-/

namespace Methodology

/-- What stands where something else was expected. -/
inductive Found
  | null
  | bool (b : Bool)
  | number (n : Json.Number)
  | string (s : String)
  | list
  | mapping
  deriving DecidableEq, Repr

namespace Found

/-- What a data value is found to be. -/
def ofJson : Json → Found
  | .null => null
  | .bool b => bool b
  | .number n => number n
  | .string s => string s
  | .array _ => list
  | .object _ => mapping

/-- How a message speaks of it. -/
def message : Found → String
  | null => "null"
  | bool true => "boolean `true`"
  | bool false => "boolean `false`"
  | number (.integer n) => "integer `" ++ Text.integer n ++ "`"
  | number (.real x) => "floating point `" ++ x.written Json.realStyle ++ "`"
  | string s => "string " ++ Text.quoted s
  | list => "sequence"
  | mapping => "map"

end Found

/-- Why data does not fit. -/
inductive Misread
  /-- Data of another type than expected. -/
  | wrongType (found : Found) (expected : String)
  /-- Data of the expected type but of another form. -/
  | wrongValue (found : Found) (expected : String)
  /-- A list that is too short or too long. -/
  | wrongLength (length : Nat) (expected : String)
  | unknownField (name : String) (known : List String)
  | unknownVariant (name : String) (known : List String)
  | missingField (name : String)
  | duplicateField (name : String)
  /-- A field that fails its constraint. -/
  | field (e : FieldError)
  /-- A content type that the registry lacks. -/
  | mime (e : UnsupportedMime)
  deriving DecidableEq, Repr

namespace Misread

/-- A name between its marks. -/
def marked (name : String) : String := "`" ++ name ++ "`"

/-- The names that would have been right. -/
def oneOf : List String → String
  | [] => "there are no fields"
  | [a] => "expected " ++ marked a
  | [a, b] => "expected " ++ marked a ++ " or " ++ marked b
  | names => "expected one of " ++ ", ".intercalate (names.map marked)

/-- **The message.** -/
def message : Misread → String
  | wrongType found expected => "invalid type: " ++ found.message ++ ", expected " ++ expected
  | wrongValue found expected => "invalid value: " ++ found.message ++ ", expected " ++ expected
  | wrongLength n expected => "invalid length " ++ Text.number n ++ ", expected " ++ expected
  | unknownField name known => "unknown field " ++ marked name ++ ", " ++ oneOf known
  | unknownVariant name known => "unknown variant " ++ marked name ++ ", " ++ oneOf known
  | missingField name => "missing field " ++ marked name
  | duplicateField name => "duplicate field " ++ marked name
  | field e => e.message
  | mime e => e.message

end Misread

end Methodology
