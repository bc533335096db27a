import Methodology.Decimal.Binary64
import Methodology.Text.Basic

/-!
# The shortest decimal of a number

* `Binary64.shortest`: **the fewest digits** that read back as the number, and of those the nearest.
* `DecimalStyle`, `Binary64.written`: the text of a number; positional from `0.00001` up to
  `10 ^ 16`, with an exponent beyond.
-/

namespace Methodology

/-- How an exponent above zero is written. -/
structure DecimalStyle where
  plus : Bool

namespace Binary64

/-- The number and the two ends of the interval that rounds to it, over one denominator. -/
structure Interval where
  value : Nat
  low : Nat
  high : Nat
  den : Nat
  closed : Bool

/-- The interval of the numbers that round to the magnitude of `x`; its ends belong to it when the
significand is even. -/
def interval (x : Binary64) : Interval :=
  let m := x.significand
  let below := if m = leastNormal ∧ x.exponent > -1074 then 1 else 2
  let up := Nat.pow 2 x.exponent.toNat
  ⟨4 * m * up, (4 * m - below) * up, (4 * m + 2) * up, 4 * Nat.pow 2 (-x.exponent).toNat, m % 2 = 0⟩

/-- Whether `d · 10 ^ u` lies in the interval. -/
def Interval.contains (i : Interval) (d : Nat) (u : Int) : Bool :=
  let point := d * Nat.pow 10 u.toNat * i.den
  let scale := Nat.pow 10 (-u).toNat
  if i.closed then i.low * scale ≤ point && point ≤ i.high * scale
  else i.low * scale < point && point < i.high * scale

/-- The number of places a quotient below one has to move to the left of the point. -/
def placesBelow (value den : Nat) : Nat → Nat
  | 0 => 0
  | fuel + 1 => if value ≥ den then 0 else placesBelow (value * 10) den fuel + 1

/-- The number of digits in front of the point; zero or less for a number below a tenth. -/
def Interval.magnitude (i : Interval) : Int :=
  if i.value ≥ i.den then (Text.decimal (i.value / i.den)).length
  else 1 - (placesBelow i.value i.den 400 : Int)

/-- The nearer of the two neighbours on the grid of `n` digits that lie in the interval, if any. -/
def Interval.onGrid (i : Interval) (n : Nat) : Option (Nat × Int) :=
  let u := i.magnitude - n
  let num := i.value * Nat.pow 10 (-u).toNat
  let den := i.den * Nat.pow 10 u.toNat
  let d := num / den
  let r := num % den
  match i.contains d u, i.contains (d + 1) u with
  | true, false => some (d, u)
  | false, true => some (d + 1, u)
  | true, true => some (if 2 * r < den ∨ (2 * r = den ∧ d % 2 = 0) then d else d + 1, u)
  | false, false => none

/-- A significand without the zeros at its end. -/
def stripped (d : Nat) (u : Int) : Nat → Nat × Int
  | 0 => (d, u)
  | fuel + 1 => if d ≠ 0 ∧ d % 10 = 0 then stripped (d / 10) (u + 1) fuel else (d, u)

/-- **The fewest digits** that read back as the magnitude, with their power of ten. -/
def shortest (x : Binary64) : Nat × Int :=
  match (List.range 17).findSome? fun n => x.interval.onGrid (n + 1) with
  | some (d, u) => stripped d u 20
  | none => (0, 0)

/-- The text of the magnitude of a number that is not zero. -/
def writtenMagnitude (style : DecimalStyle) (x : Binary64) : List Char :=
  let (d, u) := x.shortest
  let digits := Text.decimal d
  let point : Int := digits.length + u
  if 0 ≤ u ∧ point ≤ 16 then digits ++ List.replicate u.toNat '0' ++ ['.', '0']
  else if 0 < point ∧ point ≤ 16 then
    digits.take point.toNat ++ ['.'] ++ digits.drop point.toNat
  else if -5 < point ∧ point ≤ 0 then
    ['0', '.'] ++ List.replicate (-point).toNat '0' ++ digits
  else
    let e := point - 1
    let mark := if e < 0 then ['e', '-'] else if style.plus then ['e', '+'] else ['e']
    let tail := if digits.length = 1 then [] else '.' :: digits.drop 1
    digits.take 1 ++ tail ++ mark ++ Text.decimal e.natAbs

/-- The text of a number. -/
def written (style : DecimalStyle) (x : Binary64) : String :=
  let magnitude := if x.isZero then ['0', '.', '0'] else x.writtenMagnitude style
  String.ofList (if x.negative then '-' :: magnitude else magnitude)

end Binary64

end Methodology
