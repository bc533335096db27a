import Methodology.Record.OfValue
import Methodology.Yaml.Value.OfNode

/-!
# Records from YAML

A record is read from the nodes of a document; where a text is expected, every scalar gives its own
text.

* `Field.fromNode`: what a field holds.
* `Record.fromNode`: **a record** from a mapping.
-/

namespace Methodology

open Yaml

/-- The text of a scalar, whatever it stands for. -/
def textFromNode (d : Document) : Reading String := fun jumps node => do
  match ← d.follow jumps node with
  | (.scalar _ _ _ text, jumps) => some (text, jumps)
  | _ => none

/-- A text that has to be of a certain form. -/
def checkedFromNode {α ε : Type} (read : String → Except ε α) (d : Document) : Reading α :=
  fun jumps node => do
    let (s, jumps) ← textFromNode d jumps node
    match read s with
    | .ok a => some (a, jumps)
    | .error _ => none

/-- The term that a scalar value stands for. -/
def Term.ofScalar : Value → Option Term
  | .bool b => some (.flag b)
  | .string s => some (.text s)
  | _ => none

/-- A term; a tag of the document's own is refused. -/
def Term.fromNode (d : Document) : Reading Term := fun jumps node => do
  match ← d.follow jumps node with
  | (.scalar _ tag style s, jumps) =>
    if (localTag? tag).isSome then none
    else (scalarValue tag style s).bind Term.ofScalar |>.map fun t => (t, jumps)
  | _ => none

/-- A value of a kind of field. -/
def Field.Kind.fromNode (d : Document) : (k : Field.Kind) → Reading k.Carrier
  | .text => textFromNode d
  | .term => Term.fromNode d
  | .uuid => checkedFromNode Uuid.read d
  | .instant => checkedFromNode Instant.read d

/-- Whether a scalar stands for null where null may stand; none when its tag says so and its text
does not. -/
def isNullScalar (tag : Option TagText) (style : Style) (text : String) : Option Bool :=
  match style, tag with
  | .quoted, _ => some false
  | .plain, none => some (text.isEmpty || isNullWord text.toList)
  | .plain, some t =>
    if t = standardTag "null" then (if isNullWord text.toList then some true else none)
    else some false

/-- A value that may be null. -/
def optionalFromNode {α : Type} (read : Reading α) (d : Document) : Reading (Option α) :=
  fun jumps node => do
    let (n, jumps) ← d.follow jumps node
    let null ← match n with
      | .scalar _ tag style text => isNullScalar tag style text
      | _ => some false
    if null then some (none, jumps) else (read jumps n).map fun (a, jumps) => (some a, jumps)

/-- **What a field holds.** -/
def Field.fromNode (d : Document) : (f : Field) → Reading f.Slot
  | ⟨_, k, false⟩ => k.fromNode d
  | ⟨_, k, true⟩ => optionalFromNode (k.fromNode d) d

namespace Record

/-- The row after the entries of a mapping. -/
def rowFromEntries (d : Document) (s : Schema) :
    Row s.fields → Nat → List (Node Nat × Node Nat) → Option (Row s.fields)
  | row, _, [] => some row
  | row, jumps, (k, v) :: rest => do
    let (key, jumps) ← textFromNode d jumps k
    let read (f : Field) : Except Unit (f.Slot × Nat) :=
      match f.fromNode d jumps v with
      | some r => .ok r
      | none => .error ()
    match row.put (fun _ => ()) read key s.fields with
    | some (.ok (row, jumps)) => rowFromEntries d s row jumps rest
    | _ => none

/-- The entries of a mapping, or of nothing where nothing is written. -/
def entriesOf : Node Nat → Option (List (Node Nat × Node Nat))
  | .mapping _ _ entries => some entries
  | .scalar _ _ .plain "" => some []
  | _ => none

/-- **A record** from the root of a document. -/
def fromNode (d : Document) (s : Schema) : Option (Filled s.fields) := do
  let (root, jumps) ← d.follow d.jumps d.root
  let entries ← entriesOf root
  let row ← rowFromEntries d s (Row.empty s.fields) jumps entries
  (Row.complete s.fields row).toOption

/-- A record from a text; one without a document is a record without fields. -/
def fromYaml (s : Schema) (text : String) : Option (Filled s.fields) := do
  match ← documentOf text with
  | none => (Row.complete s.fields (Row.empty s.fields)).toOption
  | some d => fromNode d s

end Record

end Methodology
