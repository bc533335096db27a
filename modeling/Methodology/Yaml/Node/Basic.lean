import Methodology.Yaml.Token

/-!
# Nodes of a YAML document

* `Node`: a scalar, a sequence, a mapping or a reference to a node with an anchor.
* `Node.numbered`: the names of the anchors replaced by numbers.
* `Node.anchored`: the nodes with an anchor.
* `Document`: a document, in which every reference leads to a node.
-/

namespace Methodology.Yaml

/-- A node; `α` is what anchors are called. -/
inductive Node (α : Type)
  | scalar (anchor : Option α) (tag : Option TagText) (style : Style) (text : String)
  | sequence (anchor : Option α) (tag : Option TagText) (items : List (Node α))
  | mapping (anchor : Option α) (tag : Option TagText) (entries : List (Node α × Node α))
  | reference (target : α)
  deriving Repr

namespace Node

variable {α : Type}

/-- The scalar that stands where nothing is written. -/
def empty : Node α := .scalar none none .plain ""

mutual

/-- How many events the node is made of: collections have a start and an end. -/
def events : Node α → Nat
  | scalar .. => 1
  | sequence _ _ items => 2 + itemEvents items
  | mapping _ _ entries => 2 + entryEvents entries
  | reference _ => 1

/-- The events of all items. -/
def itemEvents : List (Node α) → Nat
  | [] => 0
  | n :: rest => events n + itemEvents rest

/-- The events of all entries. -/
def entryEvents : List (Node α × Node α) → Nat
  | [] => 0
  | (k, v) :: rest => events k + events v + entryEvents rest

end

/-- The numbers that the names of anchors stand for. -/
abbrev Names := List (List Char × Nat)

/-- The names with one more anchor. Its number is how many names there were, so a name that is given
again may share its number with a later one. -/
def Names.add (names : Names) (name : List Char) : Nat × Names :=
  (names.length, (name, names.length) :: names.filter fun entry => entry.1 ≠ name)

/-- The number of an anchor, if there is one, and the names with it. -/
def Names.addAnchor (names : Names) : Option (List Char) → Option Nat × Names
  | none => (none, names)
  | some name => (some (names.add name).1, (names.add name).2)

mutual

/-- The node with numbers for names; none when a reference stands in front of its anchor. -/
def numbered : Node (List Char) → Names → Option (Node Nat × Names)
  | scalar anchor tag style text, names =>
    let (anchor, names) := names.addAnchor anchor
    some (scalar anchor tag style text, names)
  | sequence anchor tag items, names =>
    let (anchor, names) := names.addAnchor anchor
    (numberedItems items names).map fun (items, names) => (sequence anchor tag items, names)
  | mapping anchor tag entries, names =>
    let (anchor, names) := names.addAnchor anchor
    (numberedEntries entries names).map fun (entries, names) => (mapping anchor tag entries, names)
  | reference name, names => (names.lookup name).map fun number => (reference number, names)

/-- The items with numbers for names. -/
def numberedItems : List (Node (List Char)) → Names → Option (List (Node Nat) × Names)
  | [], names => some ([], names)
  | n :: rest, names => do
    let (n, names) ← numbered n names
    let (rest, names) ← numberedItems rest names
    some (n :: rest, names)

/-- The entries with numbers for names. -/
def numberedEntries :
    List (Node (List Char) × Node (List Char)) → Names → Option (List (Node Nat × Node Nat) × Names)
  | [], names => some ([], names)
  | (k, v) :: rest, names => do
    let (k, names) ← numbered k names
    let (v, names) ← numbered v names
    let (rest, names) ← numberedEntries rest names
    some ((k, v) :: rest, names)

end

/-- A node under its anchor, if it has one. -/
def underAnchor (anchor : Option Nat) (n : Node Nat) : List (Nat × Node Nat) :=
  anchor.toList.map fun number => (number, n)

mutual

/-- The nodes with an anchor, in the order in which they start. -/
def anchored : Node Nat → List (Nat × Node Nat)
  | scalar anchor tag style text => underAnchor anchor (scalar anchor tag style text)
  | sequence anchor tag items =>
    underAnchor anchor (sequence anchor tag items) ++ anchoredItems items
  | mapping anchor tag entries =>
    underAnchor anchor (mapping anchor tag entries) ++ anchoredEntries entries
  | reference _ => []

/-- The nodes with an anchor inside the items. -/
def anchoredItems : List (Node Nat) → List (Nat × Node Nat)
  | [] => []
  | n :: rest => anchored n ++ anchoredItems rest

/-- The nodes with an anchor inside the entries. -/
def anchoredEntries : List (Node Nat × Node Nat) → List (Nat × Node Nat)
  | [] => []
  | (k, v) :: rest => anchored k ++ anchored v ++ anchoredEntries rest

end

end Node

/-- A document: its root, the nodes with an anchor, the latest first, and how many references may be
followed. -/
structure Document where
  root : Node Nat
  targets : List (Nat × Node Nat)
  jumps : Nat

/-- The document of a root whose references have names. -/
def Document.ofRoot (root : Node (List Char)) : Option Document :=
  (root.numbered []).map fun (root, _) => ⟨root, root.anchored.reverse, 100 * root.events⟩

/-- Follows references: the node itself or the one that it refers to, with how many more may be
followed. -/
def Document.follow (d : Document) (jumps : Nat) : Node Nat → Option (Node Nat × Nat)
  | .reference number =>
    match jumps, d.targets.lookup number with
    | left + 1, some n => some (n, left)
    | _, _ => none
  | n => some (n, jumps)

end Methodology.Yaml
