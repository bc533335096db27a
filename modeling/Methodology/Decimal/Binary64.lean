/-!
# Finite numbers of the binary64 format

Numbers `± significand · 2 ^ exponent`, computed with whole numbers throughout.

* `Width.values`: how many values so many bits have.
* `Binary64`: a number; `Binary64.zero`, `Binary64.same`.
* `Binary64.ofRatio`: **rounding**, the nearest number to a quotient, an exact half going to the
  even significand.
* `Binary64.times`, `Binary64.dividedBy`: rounded product and quotient.
* `Binary64.ofDecimal`: the nearest number to a decimal.
* `Binary64.ofScaled`: a decimal whose significand is rounded before its power of ten is applied.
-/

namespace Methodology

/-- How many values so many bits have. -/
def Width.values (bits : Nat) : Nat := Nat.pow 2 bits

/-- A finite number in its one form: the significand is below `2 ^ 53`, and at least `2 ^ 52` unless
the exponent is the least one, `-1074`. -/
structure Binary64 where
  negative : Bool
  significand : Nat
  exponent : Int
  deriving DecidableEq, Repr

namespace Binary64

/-- The least significand of 53 digits in base two. -/
def leastNormal : Nat := Width.values 52

/-- Zero, with the sign plus. -/
def zero : Binary64 := ⟨false, 0, -1074⟩

/-- Whether the number is a zero, of either sign. -/
def isZero (x : Binary64) : Bool := x.significand == 0

/-- Equality as numbers: the two zeros are the same. -/
def same (x y : Binary64) : Bool := x == y || (x.isZero && y.isZero)

/-- `num / den / 2 ^ e` as a quotient of whole numbers. -/
def shifted (num den : Nat) (e : Int) : Nat × Nat :=
  if e ≥ 0 then (num, den * Nat.pow 2 e.toNat) else (num * Nat.pow 2 (-e).toNat, den)

/-- The nearest whole number to a quotient, a half going to the even one. -/
def nearest (num den : Nat) : Nat :=
  let q := num / den
  let r := num % den
  if 2 * r > den ∨ (2 * r = den ∧ q % 2 = 1) then q + 1 else q

/-- The exponent at which the floor of the quotient has 53 digits in base two, no less than the
least exponent. -/
def exponentFor (num den : Nat) : Int :=
  let low : Int := (num.log2 : Int) - (den.log2 : Int) - 53
  let (a, b) := shifted num den low
  max (if a / b < 2 * leastNormal then low else low + 1) (-1074)

/-- **Rounding.** The nearest number to `num / den`; none when it lies beyond the largest. -/
def ofRatio (num den : Nat) : Option Binary64 :=
  if num = 0 then some zero
  else
    let e := exponentFor num den
    let (a, b) := shifted num den e
    let s := nearest a b
    let (s, e) := if s = 2 * leastNormal then (leastNormal, e + 1) else (s, e)
    if e > 971 then none else some ⟨false, s, e⟩

/-- The rounded product of the magnitudes. -/
def times (x y : Binary64) : Option Binary64 :=
  let (a, b) := shifted (x.significand * y.significand) 1 (-(x.exponent + y.exponent))
  ofRatio a b

/-- The rounded quotient of the magnitudes. -/
def dividedBy (x y : Binary64) : Option Binary64 :=
  let (a, b) := shifted x.significand y.significand (y.exponent - x.exponent)
  ofRatio a b

/-- The power of ten, rounded. -/
def powerOfTen (k : Nat) : Option Binary64 := ofRatio (Nat.pow 10 k) 1

/-- The number with the sign that is asked for. -/
def signed (negative : Bool) (x : Binary64) : Binary64 := { x with negative := negative }

/-- The nearest number to `digits · 10 ^ power`, `width` being no less than the count of digits. -/
def ofDecimal (digits width : Nat) (power : Int) : Option Binary64 :=
  if digits = 0 then some zero
  else if power > 310 then none
  else if power + width < -330 then some zero
  else if power ≥ 0 then ofRatio (digits * Nat.pow 10 power.toNat) 1
  else ofRatio digits (Nat.pow 10 (-power).toNat)

/-- Division by `10 ^ k` in steps of at most `308` places, each rounded; a zero is left alone. -/
def overPower (x : Binary64) (k : Nat) : Option Binary64 :=
  if k ≤ 308 then powerOfTen k >>= x.dividedBy
  else if x.isZero then some x
  else do
    let step ← powerOfTen 308
    let y ← x.dividedBy step
    overPower y (k - 308)
termination_by k

/-- The decimal `digits · 10 ^ power`, its digits rounded first and the product or quotient with the
rounded power of ten rounded again; none when it lies beyond the largest number. -/
def ofScaled (digits : Nat) (power : Int) : Option Binary64 := do
  let x ← ofRatio digits 1
  if power < 0 then x.overPower (-power).toNat
  else if power ≤ 308 then do
    let p ← powerOfTen power.toNat
    x.times p
  else if x.isZero then some x
  else none

end Binary64

end Methodology
