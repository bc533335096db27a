import Methodology.Json.Basic
import Methodology.Json.Reader
import Methodology.Yaml.Value.Basic

/-!
# From YAML values to data values

* `Unsuitable`: what a data value cannot hold.
* `Value.toJson`: **the data value** of a YAML value, its tags dropped.
-/

namespace Methodology.Yaml

/-- What a data value cannot hold. -/
inductive Unsuitable
  | key (k : Value)
  | number (n : Number)
  deriving Repr

/-- The message about it. -/
def Unsuitable.message : Unsuitable → String
  | key k => "mapping keys must be strings, got " ++ k.shown
  | number n => "cannot represent number " ++ n.text ++ " in JSON"

namespace Value

/-- A number that is finite. -/
def numberToJson : Number → Except Unsuitable Json
  | .integer n => .ok (.number (.integer n))
  | .real x => .ok (.number (.real x))
  | n => .error (.number n)

mutual

/-- **The data value.** The first key that is no text, or number that is not finite, is reported; a
key comes in front of its value. -/
def toJson : Value → Except Unsuitable Json
  | null => .ok .null
  | bool b => .ok (.bool b)
  | number n => numberToJson n
  | string s => .ok (.string s)
  | sequence items => (itemsToJson items).map .array
  | mapping entries => (entriesToJson entries).map fun fields => .object (Json.sortFields fields)
  | tagged _ v => toJson v

/-- The items of a list. -/
def itemsToJson : List Value → Except Unsuitable (List Json)
  | [] => .ok []
  | v :: rest => do
    let v ← toJson v
    let rest ← itemsToJson rest
    .ok (v :: rest)

/-- The fields of a mapping, in the order of its entries. -/
def entriesToJson : List (Value × Value) → Except Unsuitable (List (String × Json))
  | [] => .ok []
  | (string key, v) :: rest => do
    let v ← toJson v
    let rest ← entriesToJson rest
    .ok ((key, v) :: rest)
  | (k, _) :: _ => .error (.key k)

end

end Value

end Methodology.Yaml
