import Methodology.Model

/-!
# Vocabularies

The vocabulary of a methodology: a history of stamps, and modifiers, categories, actions and scripts
of which no two of a kind have the same identity.

* `Section`: the five parts of a vocabulary.
* `Vocabulary`, `Vocabulary.Item`, `Vocabulary.add`: **insertion**, which refuses a second item with
  an identity.
* `Vocabulary.modifier?`, `category?`, `action?`, `script?`, `categoriesNamed`: look-up.
* `Vocabulary.latest?`: the latest stamp.
* `Vocabulary.toJson`: the vocabulary as a data value.
-/

namespace Methodology

/-- A part of a vocabulary. -/
inductive Section
  | history
  | modifiers
  | categories
  | actions
  | scripts
  deriving DecidableEq, Repr

namespace Section

/-- The parts in their order. -/
def all : List Section := [history, modifiers, categories, actions, scripts]

/-- The name of a part. -/
def name : Section → String
  | history => "history"
  | modifiers => "modifiers"
  | categories => "categories"
  | actions => "actions"
  | scripts => "scripts"

/-- The names of all parts. -/
def names : List String := all.map name

/-- The name of one item of a part. -/
def itemName : Section → String
  | history => "version"
  | modifiers => "modifier"
  | categories => "category"
  | actions => "action"
  | scripts => "script"

end Section

/-- An identity that is taken. -/
structure Duplicate where
  within : Section
  key : String
  deriving DecidableEq, Repr

/-- The message about it. -/
def Duplicate.message (d : Duplicate) : String :=
  "duplicate " ++ d.within.itemName ++ " identity " ++ Text.quoted d.key

/-- A vocabulary. -/
structure Vocabulary where
  history : List Stamp
  modifiers : List Modifier
  categories : List Category
  actions : List Action
  scripts : List Script
  deriving DecidableEq, Repr

/-- The list with one more item at its end, unless the identity of the item is taken. -/
def insertUnique {α κ : Type} [DecidableEq κ] (identity : α → κ) (items : List α) (item : α) :
    Option (List α) :=
  if items.any fun other => identity other = identity item then none else some (items ++ [item])

namespace Vocabulary

/-- The vocabulary without items. -/
def empty : Vocabulary := ⟨[], [], [], [], []⟩

/-- How many items there are. -/
def size (v : Vocabulary) : Nat :=
  v.history.length + v.modifiers.length + v.categories.length + v.actions.length + v.scripts.length

/-- What can be put into a vocabulary. -/
inductive Item
  | stamp (s : Stamp)
  | modifier (m : Modifier)
  | category (c : Category)
  | action (a : Action)
  | script (s : Script)
  deriving DecidableEq, Repr

/-- The stamp put behind the others. -/
def record (v : Vocabulary) (s : Stamp) : Vocabulary := { v with history := v.history ++ [s] }

/-- The modifier put behind the others, unless its character is taken. -/
def addModifier (v : Vocabulary) (m : Modifier) : Except Duplicate Vocabulary :=
  match insertUnique Modifier.symbol v.modifiers m with
  | some ms => .ok { v with modifiers := ms }
  | none => .error ⟨.modifiers, m.symbol.toString⟩

/-- The category put behind the others, unless its uuid is taken. -/
def addCategory (v : Vocabulary) (c : Category) : Except Duplicate Vocabulary :=
  match insertUnique Category.uuid v.categories c with
  | some cs => .ok { v with categories := cs }
  | none => .error ⟨.categories, c.uuid.toText⟩

/-- The action put behind the others, unless its name is taken. -/
def addAction (v : Vocabulary) (a : Action) : Except Duplicate Vocabulary :=
  match insertUnique Action.name v.actions a with
  | some as => .ok { v with actions := as }
  | none => .error ⟨.actions, a.name⟩

/-- The script put behind the others, unless its uuid is taken. -/
def addScript (v : Vocabulary) (s : Script) : Except Duplicate Vocabulary :=
  match insertUnique Script.uuid v.scripts s with
  | some ss => .ok { v with scripts := ss }
  | none => .error ⟨.scripts, s.uuid.toText⟩

/-- **Insertion.** A stamp is always taken. -/
def add (v : Vocabulary) : Item → Except Duplicate Vocabulary
  | .stamp s => .ok (v.record s)
  | .modifier m => v.addModifier m
  | .category c => v.addCategory c
  | .action a => v.addAction a
  | .script s => v.addScript s

/-! ## Look-up -/

/-- The modifier with a character. -/
def modifier? (v : Vocabulary) (symbol : Char) : Option Modifier :=
  v.modifiers.find? fun m => m.symbol = symbol

/-- The action with a name. -/
def action? (v : Vocabulary) (name : String) : Option Action :=
  v.actions.find? fun a => a.name = name

/-- The category with a uuid. -/
def category? (v : Vocabulary) (id : Uuid) : Option Category :=
  v.categories.find? fun c => c.uuid = id

/-- The script with a uuid. -/
def script? (v : Vocabulary) (id : Uuid) : Option Script :=
  v.scripts.find? fun s => s.uuid = id

/-- The categories with a name, which may be many. -/
def categoriesNamed (v : Vocabulary) (name : Term) : List Category :=
  v.categories.filter fun c => c.name = name

/-- The later of two stamps, the second one when they are of one instant. -/
def later (best : Option Stamp) (s : Stamp) : Option Stamp :=
  match best with
  | none => some s
  | some b => if b.updated.le s.updated then some s else some b

/-- **The latest stamp**, the last one of those with the latest instant. -/
def latest? (v : Vocabulary) : Option Stamp := v.history.foldl later none

/-! ## As a data value -/

/-- A part as a field, which is left out when the part has no items. -/
def sectionField {α : Type} (s : Section) (toJson : α → Json) (items : List α) :
    List (String × Json) :=
  if items.isEmpty then [] else [(s.name, .array (items.map toJson))]

/-- **The vocabulary as a data value.** -/
def toJson (v : Vocabulary) : Json :=
  .object (sectionField .history Stamp.toJson v.history ++
    sectionField .modifiers Modifier.toJson v.modifiers ++
    sectionField .categories Category.toJson v.categories ++
    sectionField .actions Action.toJson v.actions ++
    sectionField .scripts Script.toJson v.scripts)

end Vocabulary

end Methodology
