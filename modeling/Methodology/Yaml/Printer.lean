import Methodology.Json.Basic
import Methodology.Yaml.Printer.Scalar

/-!
# Writing data values as YAML

* `scalarLine`: a scalar up to the end of its line.
* `print`: **the text of a value**: block collections, the items of a list no further in than the
  key they belong to.
-/

namespace Methodology.Yaml

/-- A line that is ended, which a line break at its end does as well. -/
def ended (line : List Char) : List Char :=
  if line.getLast?.any isBreak then line else line ++ ['\n']

/-- A number. -/
def numberText : Json.Number → String
  | .integer n => Text.integer n
  | .real x => x.written ⟨false⟩

/-- A scalar, or a collection without parts, up to the end of its line. -/
def scalarLine (indent : Nat) : Json → List Char
  | .null => ended ['n', 'u', 'l', 'l']
  | .bool true => ended ['t', 'r', 'u', 'e']
  | .bool false => ended ['f', 'a', 'l', 's', 'e']
  | .number n => ended (numberText n).toList
  | .string s => ended (scalarChars indent s.toList)
  | .array _ => ended ['[', ']']
  | .object _ => ended ['\x7b', '\x7d']

mutual

/-- A list whose hyphens stand so far in, without the indentation of the first. -/
def itemLines (indent : Nat) : List Json → List Char
  | [] => []
  | v :: rest => '-' :: ' ' :: inPlace (indent + 2) v ++ moreItems indent rest

/-- The items behind the first. -/
def moreItems (indent : Nat) : List Json → List Char
  | [] => []
  | v :: rest => spaces indent ++ '-' :: ' ' :: inPlace (indent + 2) v ++ moreItems indent rest

/-- A mapping whose keys stand so far in, without the indentation of the first. -/
def fieldLines (indent : Nat) : List (String × Json) → List Char
  | [] => []
  | (k, v) :: rest => k.toList ++ ':' :: underKey indent v ++ moreFields indent rest

/-- The fields behind the first. -/
def moreFields (indent : Nat) : List (String × Json) → List Char
  | [] => []
  | (k, v) :: rest =>
    spaces indent ++ k.toList ++ ':' :: underKey indent v ++ moreFields indent rest

/-- A value that starts where its line has come to, its parts standing so far in. -/
def inPlace (indent : Nat) : Json → List Char
  | .array (v :: rest) => itemLines indent (v :: rest)
  | .object (f :: rest) => fieldLines indent (f :: rest)
  | v => scalarLine indent v

/-- A value behind a key that stands so far in. -/
def underKey (indent : Nat) : Json → List Char
  | .array (v :: rest) => '\n' :: spaces indent ++ itemLines indent (v :: rest)
  | .object (f :: rest) => '\n' :: spaces (indent + 2) ++ fieldLines (indent + 2) (f :: rest)
  | v => ' ' :: scalarLine (indent + 2) v

end

/-- The characters of a value. -/
def printChars : Json → List Char
  | .array (v :: rest) => itemLines 0 (v :: rest)
  | .object (f :: rest) => fieldLines 0 (f :: rest)
  | v => scalarLine 2 v

/-- **The text of a value.** -/
def print (v : Json) : String := String.ofList (printChars v)

end Methodology.Yaml
