/-!
# The calendar

The proleptic Gregorian calendar, its days numbered from the first day of the year 1, which is 0.

* `daysBeforeYear`, `daysBeforeMonth`, `dayNumber`: from a date to its number.
* `Date`, `Date.ofDayNumber`: from a number to its date.
-/

namespace Methodology.Calendar

/-- A year with a twenty-ninth of February. -/
def isLeap (year : Int) : Bool := (year % 4 == 0 && year % 100 != 0) || year % 400 == 0

/-- The days of a month. -/
def daysInMonth (year : Int) (month : Nat) : Nat :=
  if month = 2 then (if isLeap year then 29 else 28)
  else if month = 4 ∨ month = 6 ∨ month = 9 ∨ month = 11 then 30
  else 31

/-- The days from the first day of the year 1 to the first day of a year. -/
def daysBeforeYear (year : Int) : Int :=
  let y := year - 1
  365 * y + y / 4 - y / 100 + y / 400

/-- The days of the first months of a year. -/
def daysOfMonths (year : Int) : Nat → Nat
  | 0 => 0
  | months + 1 => daysOfMonths year months + daysInMonth year (months + 1)

/-- The days of the months of a year before a month. -/
def daysBeforeMonth (year : Int) (month : Nat) : Nat := daysOfMonths year (month - 1)

/-- A day of the calendar. -/
structure Date where
  year : Int
  month : Nat
  day : Nat
  deriving DecidableEq, Repr

/-- Whether the calendar has the day. -/
def Date.isValid (d : Date) : Bool :=
  1 ≤ d.month && d.month ≤ 12 && 1 ≤ d.day && d.day ≤ daysInMonth d.year d.month

/-- **The number of a day.** -/
def dayNumber (d : Date) : Int :=
  daysBeforeYear d.year + daysBeforeMonth d.year d.month + d.day - 1

/-- The year a day lies in: its cycles of 400, of 100, of 4 and of single years. -/
def yearOf (n : Int) : Int :=
  let cycle := n / 146097
  let r := n % 146097
  let century := min (r / 36524) 3
  let r := r - 36524 * century
  let olympiad := r / 1461
  let r := r % 1461
  400 * cycle + 100 * century + 4 * olympiad + min (r / 365) 3 + 1

/-- The month and the day of a day counted from the start of its year, the months being tried from
`month` on. -/
def monthFrom (year : Int) (month : Nat) (rest : Nat) : Nat → Nat × Nat
  | 0 => (month, rest + 1)
  | more + 1 =>
    if rest < daysInMonth year month then (month, rest + 1)
    else monthFrom year (month + 1) (rest - daysInMonth year month) more

/-- **The date of a day number.** -/
def Date.ofDayNumber (n : Int) : Date :=
  let year := yearOf n
  let (month, day) := monthFrom year 1 (n - daysBeforeYear year).toNat 11
  ⟨year, month, day⟩

/-- The number of the day on which the count of seconds starts, the first of January 1970. -/
def epoch : Int := 719162

end Methodology.Calendar
