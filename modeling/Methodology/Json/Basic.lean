import Methodology.Decimal.Binary64

/-!
# Data values

* `Json`: null, a flag, a number, a text, a list or a mapping from texts.
* `Json.kind`: what a message calls a value.
* `Json.insertField`, `Json.field?`: the fields of a mapping, which are kept sorted by their keys.
-/

namespace Methodology

/-- A number: a whole number of at most 64 bits, or a real one. -/
inductive Json.Number
  | integer (n : Int)
  | real (x : Binary64)
  deriving DecidableEq, Repr

/-- A data value. -/
inductive Json
  | null
  | bool (b : Bool)
  | number (n : Json.Number)
  | string (s : String)
  | array (items : List Json)
  | object (fields : List (String × Json))
  deriving Repr, Inhabited

namespace Json

/-- What a message calls a value of its kind. -/
def kind : Json → String
  | null => "null"
  | bool _ => "a boolean"
  | number _ => "a number"
  | string _ => "a string"
  | array _ => "a list"
  | object _ => "a mapping"

/-- The fields with one put in its place by its key; a field with the same key gives way. -/
def insertField (key : String) (value : Json) : List (String × Json) → List (String × Json)
  | [] => [(key, value)]
  | (k, v) :: rest =>
    if key = k then (key, value) :: rest
    else if key < k then (key, value) :: (k, v) :: rest
    else (k, v) :: insertField key value rest

/-- The value of the field with a key. -/
def field? (key : String) (fields : List (String × Json)) : Option Json := fields.lookup key

/-- A field with a text, which is left out where there is none. -/
def textField (key : String) : Option String → List (String × Json)
  | some s => [(key, string s)]
  | none => []

end Json

end Methodology
