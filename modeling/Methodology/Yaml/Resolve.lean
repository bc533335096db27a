import Methodology.Text.Basic
import Methodology.Yaml.Value.Basic

/-!
# What plain scalars stand for

A plain scalar stands for null, a flag, a number or its own text.

* `isNullWord`, `boolWord?`, `integerWord?`, `realWord?`: the spellings of null, of flags and of
  numbers.
* `hasLeadingZero`: digits behind a zero, which are a text.
* `Plain`, `resolve`: **what a plain scalar stands for**.
-/

namespace Methodology.Yaml

/-- The spellings of null, the empty one apart. -/
def isNullWord (s : List Char) : Bool :=
  ["null".toList, "Null".toList, "NULL".toList, "~".toList].contains s

/-- The spellings of the flags. -/
def boolWord? (s : List Char) : Option Bool :=
  if ["true".toList, "True".toList, "TRUE".toList].contains s then some true
  else if ["false".toList, "False".toList, "FALSE".toList].contains s then some false
  else none

/-- A number written with digits of a base, at least one. -/
def digitsIn (base : Nat) (ds : List Char) : Option Nat :=
  if ds.isEmpty then none
  else ds.foldlM (fun n c => do
    let d ← Text.hexValue? c
    if d < base then some (base * n + d) else none) 0

/-- Digits behind a zero, with or without a sign; they are a text. -/
def hasLeadingZero (s : List Char) : Bool :=
  let s := match s with
    | '-' :: rest => rest
    | '+' :: rest => rest
    | s => s
  match s with
  | '0' :: c :: rest => (c :: rest).all Text.isDigit
  | _ => false

/-- The base that two characters announce, and the digits behind them. -/
def based? : List Char → Option (Nat × List Char)
  | '0' :: 'x' :: ds => some (16, ds)
  | '0' :: 'o' :: ds => some (8, ds)
  | '0' :: 'b' :: ds => some (2, ds)
  | _ => none

/-- A number without a sign. -/
def magnitude? (s : List Char) : Option Nat :=
  match based? s with
  | some (base, ds) => digitsIn base ds
  | none => if hasLeadingZero s then none else digitsIn 10 s

/-- A whole number, with or without a sign. -/
def integerWord? : List Char → Option Int
  | '-' :: s => (magnitude? s).map fun n => -(n : Int)
  | '+' :: s => (magnitude? s).map Int.ofNat
  | s => (magnitude? s).map Int.ofNat

/-- An exponent, which may be missing. -/
def exponent? : List Char → Option Int
  | [] => some 0
  | e :: s =>
    if e ≠ 'e' ∧ e ≠ 'E' then none
    else match s with
      | '-' :: ds => (digitsIn 10 ds).map fun n => -(n : Int)
      | '+' :: ds => (digitsIn 10 ds).map Int.ofNat
      | ds => (digitsIn 10 ds).map Int.ofNat

/-- A decimal: digits with a point among them or not, and an exponent or not. -/
def decimal? (s : List Char) : Option Binary64 := do
  let (negative, s) := match s with
    | '-' :: s => (true, s)
    | '+' :: s => (false, s)
    | s => (false, s)
  let whole := s.takeWhile Text.isDigit
  let s := s.dropWhile Text.isDigit
  let (places, s) := match s with
    | '.' :: s => (s.takeWhile Text.isDigit, s.dropWhile Text.isDigit)
    | s => ([], s)
  let digits ← digitsIn 10 (whole ++ places)
  let exponent ← exponent? s
  let x ← Binary64.ofDecimal digits (whole.length + places.length) (exponent - places.length)
  some (x.signed negative)

/-- The three spellings of a word. -/
def spells (small title capital : String) (s : List Char) : Bool :=
  s = small.toList || s = title.toList || s = capital.toList

/-- A real number, an infinity or what is not a number. -/
def realWord? (s : List Char) : Option Number :=
  let unsigned := match s with
    | '+' :: rest => rest
    | s => s
  let doubled := match s with
    | '+' :: '+' :: _ => true
    | '+' :: '-' :: _ => true
    | _ => false
  if doubled then none
  else if spells ".inf" ".Inf" ".INF" unsigned then some (.infinity false)
  else if spells "-.inf" "-.Inf" "-.INF" s then some (.infinity true)
  else if spells ".nan" ".NaN" ".NAN" s then some .notANumber
  else (decimal? unsigned).map .real

/-- What a plain scalar stands for. -/
inductive Plain
  | null
  | bool (b : Bool)
  | number (n : Number)
  /-- A whole number that takes between 64 and 128 bits. -/
  | wide
  | text
  deriving DecidableEq, Repr

/-- A whole number by its size. -/
def integerOf (n : Int) : Option Plain :=
  if -(Width.values 63 : Int) ≤ n ∧ n < Width.values 64 then some (.number (.integer n))
  else if -(Width.values 127 : Int) ≤ n ∧ n < Width.values 128 then some .wide
  else none

/-- The number that a plain scalar stands for, if it does. -/
def numberOf (s : List Char) : Option Plain :=
  match (integerWord? s).bind integerOf with
  | some p => some p
  | none => if hasLeadingZero s then none else (realWord? s).map .number

/-- **What a plain scalar stands for.** -/
def resolve (s : List Char) : Plain :=
  if s.isEmpty || isNullWord s then .null
  else match boolWord? s with
    | some b => .bool b
    | none => (numberOf s).getD .text

end Methodology.Yaml
