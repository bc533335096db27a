import Methodology.Decimal.Shortest
import Methodology.Text.Quoted

/-!
# YAML values

* `Value`: null, a flag, a number, a text, a sequence, a mapping or a value under a tag.
* `Value.same`: equality of values, for which the order of a mapping's entries does not count.
* `Value.shown`: how a message shows a value.
-/

namespace Methodology.Yaml

/-- A number. -/
inductive Number
  | integer (n : Int)
  | real (x : Binary64)
  | infinity (negative : Bool)
  | notANumber
  deriving DecidableEq, Repr

namespace Number

/-- Equality of numbers: the zeros are equal, and what is not a number equals itself. -/
def same : Number → Number → Bool
  | real x, real y => x.same y
  | a, b => a == b

/-- The text of a number. -/
def text : Number → String
  | integer n => Text.integer n
  | real x => x.written ⟨false⟩
  | infinity false => ".inf"
  | infinity true => "-.inf"
  | notANumber => ".nan"

end Number

/-- A value. -/
inductive Value
  | null
  | bool (b : Bool)
  | number (n : Number)
  | string (s : String)
  | sequence (items : List Value)
  | mapping (entries : List (Value × Value))
  /-- A value under a tag of its own, given without its exclamation mark. -/
  | tagged (tag : List Char) (value : Value)
  deriving Repr, Inhabited

/-- A tag without the exclamation mark that a verbatim tag may add. -/
def bareTag : List Char → List Char
  | ['!'] => ['!']
  | '!' :: rest => rest
  | tag => tag

namespace Value

mutual

/-- **Equality of values.** -/
def same : Value → Value → Bool
  | null, null => true
  | bool a, bool b => a == b
  | number a, number b => a.same b
  | string a, string b => a == b
  | sequence as, sequence bs => sameItems as bs
  | mapping as, mapping bs => as.length == bs.length && sameEntries as bs
  | tagged s a, tagged t b => bareTag s == bareTag t && same a b
  | _, _ => false

/-- Equality item by item. -/
def sameItems : List Value → List Value → Bool
  | [], [] => true
  | a :: as, b :: bs => same a b && sameItems as bs
  | _, _ => false

/-- Whether every entry is among the others. -/
def sameEntries : List (Value × Value) → List (Value × Value) → Bool
  | [], _ => true
  | (k, v) :: rest, others =>
    others.any (fun (k', v') => same k k' && same v v') && sameEntries rest others

end

/-- Parts with a comma and a space between them. -/
def joined (parts : List String) : String := ", ".intercalate parts

/-- How a flag, a number or a text is shown as a key, without its kind. -/
def bareKey? : Value → Option String
  | bool b => some (if b then "true" else "false")
  | number n => some n.text
  | string s => some (Text.quoted s)
  | _ => none

mutual

/-- **How a message shows a value.** -/
def shown : Value → String
  | null => "Null"
  | bool b => "Bool(" ++ (if b then "true" else "false") ++ ")"
  | number n => "Number(" ++ n.text ++ ")"
  | string s => "String(" ++ Text.quoted s ++ ")"
  | sequence items => "Sequence [" ++ joined (shownItems items) ++ "]"
  | mapping entries => "Mapping \x7b" ++ joined (shownEntries entries) ++ "\x7d"
  | tagged tag v =>
    "TaggedValue \x7b tag: !" ++ String.ofList (bareTag tag) ++ ", value: " ++ shown v ++ " \x7d"

/-- How the items of a sequence are shown. -/
def shownItems : List Value → List String
  | [] => []
  | v :: rest => shown v :: shownItems rest

/-- How the entries of a mapping are shown. -/
def shownEntries : List (Value × Value) → List String
  | [] => []
  | (k, v) :: rest => (k.bareKey?.getD (shown k) ++ ": " ++ shown v) :: shownEntries rest

end

end Value

end Methodology.Yaml
