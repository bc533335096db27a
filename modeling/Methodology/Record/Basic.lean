import Methodology.Entry.Term
import Methodology.Instant.Basic
import Methodology.Record.Misread
import Methodology.Uuid.Basic

/-!
# Records

An entry is read from a record: a mapping with declared fields, or the list of their values.

* `Field`, `Field.Slot`: a declared field, and what is read from it.
* `Filled`: the slots of all fields; `Row`: the slots while the record is read.
* `Row.put`, `Row.complete`: a field that is met, and the end of the record.
* `Schema`: a record and its name in messages.
-/

namespace Methodology

/-- What a field holds. -/
inductive Field.Kind
  | text
  | term
  | uuid
  | instant
  deriving DecidableEq, Repr

/-- The values of a kind of field. -/
abbrev Field.Kind.Carrier : Field.Kind → Type
  | text => String
  | term => Term
  | uuid => Uuid
  | instant => Instant

/-- A declared field; an optional one may be null or left out. -/
structure Field where
  name : String
  kind : Field.Kind
  optional : Bool
  deriving DecidableEq, Repr

/-- What is read from a field. -/
abbrev Field.Slot (f : Field) : Type :=
  match f.optional with
  | true => Option f.kind.Carrier
  | false => f.kind.Carrier

/-- The slots of all fields. -/
abbrev Filled : List Field → Type
  | [] => Unit
  | f :: fs => f.Slot × Filled fs

/-- The slots of all fields while some are still empty. -/
abbrev Row : List Field → Type
  | [] => Unit
  | f :: fs => Option f.Slot × Row fs

/-- The slot of a field that is left out, if it may be. -/
def Field.absent? : (f : Field) → Option f.Slot
  | ⟨_, _, true⟩ => some none
  | ⟨_, _, false⟩ => none

namespace Row

/-- No slot is filled. -/
def empty : (fs : List Field) → Row fs
  | [] => ()
  | _ :: fs => (none, empty fs)

/-- **A field that is met.** The slot of the field with its name is filled with what `read` gives,
which is asked for the field; a slot that is full stays, and the answer is none for a name that is
not declared. -/
def put {ε σ : Type} (duplicate : Field → ε) (read : (f : Field) → Except ε (f.Slot × σ))
    (name : String) : (fs : List Field) → Row fs → Option (Except ε (Row fs × σ))
  | [], _ => none
  | f :: fs, (slot, row) =>
    if f.name = name then
      match slot with
      | some _ => some (.error (duplicate f))
      | none => some ((read f).map fun (v, rest) => ((some v, row), rest))
    else (put duplicate read name fs row).map fun r => r.map fun (row, rest) => ((slot, row), rest)

/-- **The end of the record.** The first field that is neither met nor optional is missing. -/
def complete : (fs : List Field) → Row fs → Except Misread (Filled fs)
  | [], _ => .ok ()
  | f :: fs, (slot, row) =>
    match slot.or f.absent? with
    | some v => (complete fs row).map fun rest => (v, rest)
    | none => .error (.missingField f.name)

end Row

/-- The declared fields of a record, and how messages call it. -/
structure Schema where
  noun : String
  fields : List Field

namespace Schema

/-- The names of the fields. -/
def names (s : Schema) : List String := s.fields.map Field.name

/-- How a message calls the list of the fields' values. -/
def listNoun (s : Schema) : String :=
  s.noun ++ " with " ++ Text.number s.fields.length ++
    (if s.fields.length = 1 then " element" else " elements")

end Schema

end Methodology
