import Methodology.Instant.Reader
import Methodology.Record.Basic
import Methodology.Uuid.Reader

/-!
# Records from data values

* `Field.ofValue`: what a field holds.
* `Record.ofFields`: a record from the fields of a mapping, met in their order.
* `Record.ofItems`: a record from the list of its values.
* `Record.ofValue`: **a record** from a data value.
-/

namespace Methodology

/-- A text. -/
def textOfValue : Json → Except Misread String
  | .string s => .ok s
  | v => .error (.wrongType (.ofJson v) "a string")

/-- How messages call a term. -/
def Term.noun : String := "name: a boolean or a string"

/-- A term. -/
def Term.ofValue : Json → Except Misread Term
  | .bool b => .ok (.flag b)
  | .string s => .ok (.text s)
  | v => .error (.wrongType (.ofJson v) Term.noun)

/-- A uuid. -/
def Uuid.ofValue (v : Json) : Except Misread Uuid :=
  textOfValue v >>= fun s => (Uuid.read s).mapError .field

/-- An instant. -/
def Instant.ofValue (v : Json) : Except Misread Instant :=
  textOfValue v >>= fun s => (Instant.read s).mapError .field

/-- A value of a kind of field. -/
def Field.Kind.ofValue : (k : Field.Kind) → Json → Except Misread k.Carrier
  | text => textOfValue
  | term => Term.ofValue
  | uuid => Uuid.ofValue
  | instant => Instant.ofValue

/-- **What a field holds.** -/
def Field.ofValue : (f : Field) → Json → Except Misread f.Slot
  | ⟨_, _, true⟩, .null => .ok none
  | ⟨_, k, true⟩, v => (k.ofValue v).map some
  | ⟨_, k, false⟩, v => k.ofValue v

namespace Record

/-- The row after the fields of a mapping, met in their order. -/
def rowOfFields (s : Schema) : Row s.fields → List (String × Json) → Except Misread (Row s.fields)
  | row, [] => .ok row
  | row, (key, value) :: rest =>
    match row.put (fun f => .duplicateField f.name)
        (fun f => (f.ofValue value).map fun v => (v, ())) key s.fields with
    | none => .error (.unknownField key s.names)
    | some (.error e) => .error e
    | some (.ok (row, _)) => rowOfFields s row rest

/-- A record from the fields of a mapping. -/
def ofFields (s : Schema) (fields : List (String × Json)) : Except Misread (Filled s.fields) :=
  rowOfFields s (Row.empty s.fields) fields >>= Row.complete s.fields

/-- The slots of the fields from the values in their order, with the values that are left; `place`
is the number of fields in front of these. -/
def ofItems (noun : String) (place : Nat) :
    (fs : List Field) → List Json → Except Misread (Filled fs × List Json)
  | [], items => .ok ((), items)
  | f :: fs, [] =>
    match f.absent? with
    | some v => (ofItems noun (place + 1) fs []).map fun (row, items) => ((v, row), items)
    | none => .error (.wrongLength place noun)
  | f :: fs, item :: items => do
    let v ← f.ofValue item
    let (row, items) ← ofItems noun (place + 1) fs items
    .ok ((v, row), items)

/-- **A record** from a data value. -/
def ofValue (s : Schema) : Json → Except Misread (Filled s.fields)
  | .object fields => ofFields s fields
  | .array items => do
    let (row, left) ← ofItems s.listNoun 0 s.fields items
    if left.isEmpty then .ok row
    else .error (.wrongLength items.length "fewer elements in array")
  | v => .error (.wrongType (.ofJson v) s.noun)

end Record

end Methodology
