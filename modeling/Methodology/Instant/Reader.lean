import Methodology.Instant.Basic
import Methodology.Text.Basic
import Methodology.ValueError

/-!
# Reading instants

A date, a time and an offset: `2026-01-15T12:00:00.250+05:30`. The offset is taken off, so what is
kept is the instant alone.

* `Instant.Malformed`: why a text names no instant.
* `Instant.ofChars`: **reading** a text.
* `Instant.read`: reading a field, whose blanks at the ends are ignored.
-/

namespace Methodology.Instant

/-- Why a text names no instant. -/
inductive Malformed
  | tooShort
  | invalid
  | outOfRange
  | tooLong
  deriving DecidableEq, Repr

/-- The wording of the reason. -/
def Malformed.message : Malformed → String
  | tooShort => "premature end of input"
  | invalid => "input contains invalid characters"
  | outOfRange => "input is out of range"
  | tooLong => "trailing input"

/-- A number of so many digits. -/
def number (soFar : Nat) : Nat → List Char → Except Malformed (Nat × List Char)
  | 0, cs => .ok (soFar, cs)
  | _ + 1, [] => .error .invalid
  | n + 1, c :: cs =>
    match Text.digitValue? c with
    | some d => number (10 * soFar + d) n cs
    | none => .error .invalid

/-- One of the characters that may stand at a place. -/
def mark (allowed : Char → Bool) : List Char → Except Malformed (List Char)
  | c :: cs => if allowed c then .ok cs else .error .invalid
  | [] => .error .invalid

/-- A date that the calendar has. -/
def dateFrom (cs : List Char) : Except Malformed (Calendar.Date × List Char) := do
  let (year, cs) ← number 0 4 cs
  let cs ← mark (· == '-') cs
  let (month, cs) ← number 0 2 cs
  let cs ← mark (· == '-') cs
  let (day, cs) ← number 0 2 cs
  let date : Calendar.Date := ⟨year, month, day⟩
  if date.isValid then .ok (date, cs) else .error .outOfRange

/-- A time of the day as it is written. -/
structure Clock where
  hour : Nat
  minute : Nat
  second : Nat
  fraction : Nat
  deriving DecidableEq, Repr

/-- A number whose digits, nine places of them, follow a point: so many digits were read. -/
def scaled (digits places : Nat) : Nat := digits * Nat.pow 10 (9 - places)

/-- The digits after a point: nine of them count, and what follows them is passed over. -/
def fractionFrom (cs : List Char) : Except Malformed (Nat × List Char) :=
  let digits := cs.takeWhile Text.isDigit
  let kept := digits.take 9
  if cs.isEmpty then .error .tooShort
  else if digits.isEmpty then .error .invalid
  else
    let value := kept.foldl (fun n c => 10 * n + (Text.digitValue? c).getD 0) 0
    .ok (scaled value kept.length, cs.drop digits.length)

/-- A time of the day. -/
def clockFrom (cs : List Char) : Except Malformed (Clock × List Char) := do
  let (hour, cs) ← number 0 2 cs
  let cs ← mark (· == ':') cs
  let (minute, cs) ← number 0 2 cs
  let cs ← mark (· == ':') cs
  let (second, cs) ← number 0 2 cs
  let (fraction, cs) ← match cs with
    | '.' :: cs => fractionFrom cs
    | cs => pure (0, cs)
  if hour < 24 ∧ minute < 60 ∧ second ≤ 60 then .ok (⟨hour, minute, second, fraction⟩, cs)
  else .error .outOfRange

/-- Two digits of an offset. -/
def pairFrom (cs : List Char) : Except Malformed (Nat × List Char) :=
  if Text.byteSize cs < 2 then .error .tooShort else number 0 2 cs

/-- The offset in minutes, east of universal time being positive. -/
def offsetFrom (cs : List Char) : Except Malformed (Int × List Char) := do
  let (sign, cs) ← match cs with
    | [] => .error .tooShort
    | '+' :: cs => .ok (1, cs)
    | '-' :: cs => .ok (-1, cs)
    | '\u2212' :: cs => .ok (-1, cs)
    | 'Z' :: cs => .ok (0, cs)
    | 'z' :: cs => .ok (0, cs)
    | _ => .error Malformed.invalid
  if sign = 0 then .ok (0, cs)
  else
    let (hours, cs) ← pairFrom cs
    let cs ← if cs.isEmpty then .error .tooShort else mark (· == ':') cs
    let (minutes, cs) ← pairFrom cs
    if minutes < 60 then .ok (sign * (60 * hours + minutes : Int), cs) else .error .outOfRange

/-- The instant that a date, a time and an offset name. -/
def ofParts (date : Calendar.Date) (time : Clock) (offset : Int) : Instant :=
  ⟨86400 * (Calendar.dayNumber date - Calendar.epoch) + 3600 * time.hour + 60 * time.minute +
      min time.second 59 - 60 * offset,
    time.fraction + if time.second = 60 then 1000000000 else 0⟩

/-- **Reading a text.** -/
def ofChars (cs : List Char) : Except Malformed Instant := do
  if Text.byteSize cs < 19 then .error .tooShort
  else
    let (date, cs) ← dateFrom cs
    let cs ← mark (fun c => c == 'T' || c == 't' || c == ' ') cs
    let (time, cs) ← clockFrom cs
    let (offset, cs) ← offsetFrom cs
    if !cs.isEmpty then .error .tooLong
    else if offset.natAbs ≥ 1440 then .error .outOfRange
    else .ok (ofParts date time offset)

/-- **Reading a field** that holds an instant. -/
def read (s : String) : Except FieldError Instant :=
  (ofChars (Text.trimBlanks s.toList)).mapError fun e => .instant .updated s e.message

end Methodology.Instant
