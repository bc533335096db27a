import Methodology.Yaml.Node.Reader
import Methodology.Yaml.Resolve

/-!
# From nodes to values

* `Tag`, `localTag?`: the tags that say what a scalar is, and those that are kept with a value.
* `scalarValue`: what a scalar stands for.
* `valueAt`: what a node stands for, references followed.
* `read`: **the value of a text**.
-/

namespace Methodology.Yaml

/-- A tag of the standard. -/
def standardTag (name : String) : TagText := ("tag:yaml.org,2002:".toList ++ name.toList).map some

/-- A tag of the document's own, without its exclamation mark unless it is all there is; one with a
character missing does not count. -/
def localTag? : Option TagText → Option (List Char)
  | some [some '!'] => some ['!']
  | some (some '!' :: rest) => rest.mapM id
  | _ => none

/-- What a plain scalar stands for as a value; a whole number of more than 64 bits has none. -/
def Plain.value (scalar : String) : Plain → Option Value
  | null => some .null
  | bool b => some (.bool b)
  | number n => some (.number n)
  | wide => none
  | text => some (.string scalar)

/-- What a scalar stands for whose tag says nothing. -/
def untaggedValue (style : Style) (text : String) : Option Value :=
  match style with
  | .plain => (resolve text.toList).value text
  | .quoted => some (.string text)

/-- **What a scalar stands for.** A tag of the standard overrides the look of it. -/
def scalarValue (tag : Option TagText) (style : Style) (text : String) : Option Value :=
  match tag with
  | none => untaggedValue style text
  | some t =>
    if t.head? = some (some '!') then untaggedValue style text
    else if t = standardTag "bool" then (boolWord? text.toList).map .bool
    else if t = standardTag "int" then
      match (integerWord? text.toList).bind integerOf with
      | some (.number n) => some (.number n)
      | _ => none
    else if t = standardTag "float" then (realWord? text.toList).map .number
    else if t = standardTag "null" then (if isNullWord text.toList then some .null else none)
    else some (.string text)

/-- What can be read from one node; the number is how many references may still be followed. -/
abbrev Reading (α : Type) := Nat → Node Nat → Option (α × Nat)

/-- The values of all items. -/
def eachItem {α : Type} (read : Reading α) : Nat → List (Node Nat) → Option (List α × Nat)
  | jumps, [] => some ([], jumps)
  | jumps, n :: rest => do
    let (v, jumps) ← read jumps n
    let (vs, jumps) ← eachItem read jumps rest
    some (v :: vs, jumps)

/-- The values of all entries; a key must not equal one of those met. -/
def eachEntry (read : Reading Value) (met : List Value) :
    Nat → List (Node Nat × Node Nat) → Option (List (Value × Value) × Nat)
  | jumps, [] => some ([], jumps)
  | jumps, (k, v) :: rest => do
    let (k, jumps) ← read jumps k
    if met.any k.same then none
    else
      let (v, jumps) ← read jumps v
      let (entries, jumps) ← eachEntry read (k :: met) jumps rest
      some ((k, v) :: entries, jumps)

/-- The value of a node that is no reference, its own tag apart; `inner` reads what stands in it,
and is missing where nothing may. -/
def contentOf (inner : Option (Reading Value)) (jumps : Nat) : Node Nat → Option (Value × Nat)
  | .scalar _ tag style text => (scalarValue tag style text).map fun v => (v, jumps)
  | .sequence _ _ items => do
    let (items, jumps) ← eachItem (← inner) jumps items
    some (.sequence items, jumps)
  | .mapping _ _ entries => do
    let (entries, jumps) ← eachEntry (← inner) [] jumps entries
    some (.mapping entries, jumps)
  | .reference _ => none

/-- The tag of a node. -/
def Node.tag? {α : Type} : Node α → Option TagText
  | scalar _ tag _ _ => tag
  | sequence _ tag _ => tag
  | mapping _ tag _ => tag
  | reference _ => none

/-- The value of a node, its references followed and its own tag kept. -/
def valueWith (d : Document) (inner : Option (Reading Value)) : Reading Value :=
  fun jumps node => do
    let (n, jumps) ← d.follow jumps node
    let (v, jumps) ← contentOf inner jumps n
    match localTag? n.tag? with
    | none => some (v, jumps)
    | some tag => some (.tagged tag v, jumps)

/-- **What a node stands for**, collections nesting no deeper than a number says. -/
def valueAt (d : Document) : Nat → Reading Value
  | 0 => valueWith d none
  | depth + 1 => valueWith d (some (valueAt d depth))

/-- How deep collections may nest. -/
def depthLimit : Nat := 128

/-- **The value of a text**; a text without a document has the value null. -/
def read (text : String) : Option Value := do
  match ← documentOf text with
  | none => some .null
  | some d => (valueAt d depthLimit d.jumps d.root).map Prod.fst

end Methodology.Yaml
