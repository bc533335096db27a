import Methodology.Instant.Calendar
import Methodology.Text.Basic

/-!
# Instants

* `Instant`: a second of universal time and the nanoseconds in it, which run to two thousand
  million in a leap second.
* `Instant.compare`: the order of instants.
* `Instant.toText`: **the text of an instant**, with no more digits after the point than needed, in
  groups of three.
-/

namespace Methodology

/-- An instant: the seconds since the start of 1970 and the nanoseconds in the second; a leap second
counts its nanoseconds on from `10 ^ 9`. -/
structure Instant where
  seconds : Int
  nanos : Nat
  deriving DecidableEq, Repr

namespace Instant

/-- The order of instants. -/
def compare (a b : Instant) : Ordering :=
  (Ord.compare a.seconds b.seconds).then (Ord.compare a.nanos b.nanos)

/-- Whether an instant is no later than another. -/
def le (a b : Instant) : Bool := a.compare b != .gt

/-- The date of an instant. -/
def date (t : Instant) : Calendar.Date :=
  Calendar.Date.ofDayNumber (t.seconds / 86400 + Calendar.epoch)

/-- The seconds since the start of the day. -/
def secondOfDay (t : Instant) : Nat := (t.seconds % 86400).toNat

/-- A number with two digits. -/
def two (n : Nat) : List Char := Text.padded 2 (Text.decimal n)

/-- A year with four digits, or with its sign where four digits do not hold it. -/
def yearText (year : Int) : List Char :=
  if 0 ≤ year ∧ year ≤ 9999 then Text.padded 4 (Text.decimal year.toNat)
  else (if year < 0 then '-' else '+') :: Text.padded 4 (Text.decimal year.natAbs)

/-- The nanoseconds as three, six or nine digits behind a point, or nothing. -/
def fractionText (nanos : Nat) : List Char :=
  if nanos = 0 then []
  else if nanos % 1000000 = 0 then '.' :: Text.padded 3 (Text.decimal (nanos / 1000000))
  else if nanos % 1000 = 0 then '.' :: Text.padded 6 (Text.decimal (nanos / 1000))
  else '.' :: Text.padded 9 (Text.decimal nanos)

/-- The characters of an instant's text. -/
def toChars (t : Instant) : List Char :=
  let d := t.date
  let s := t.secondOfDay
  let leap := t.nanos ≥ 1000000000
  let second := if leap then s % 60 + 1 else s % 60
  let nanos := if leap then t.nanos - 1000000000 else t.nanos
  yearText d.year ++ '-' :: two d.month ++ '-' :: two d.day ++ 'T' :: two (s / 3600) ++
    ':' :: two (s / 60 % 60) ++ ':' :: two second ++ fractionText nanos ++ ['Z']

/-- **The text of an instant.** -/
def toText (t : Instant) : String := String.ofList t.toChars

end Instant

end Methodology
