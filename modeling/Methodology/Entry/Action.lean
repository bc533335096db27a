import Methodology.Json.Basic
import Methodology.Shape
import Methodology.Text.Basic

/-!
# Action categories

An action category declares what kind of term an action works with.

* `Action`, `Action.make`, `Action.unique`: an action, from the word for its shape or without one.
* `Action.Change`, `Action.apply`: another name, title, description or shape.
-/

namespace Methodology

/-- An action category. -/
structure Action where
  name : String
  title : String
  description : String
  shape : Shape
  deriving DecidableEq, Repr

namespace Action

/-- An action from its parts, the texts trimmed. -/
def ofParts (name title description : String) (shape : Shape) : Action :=
  ⟨Text.trim name, Text.trim title, Text.trim description, shape⟩

/-- **An action** from its parts and the word for its shape. -/
def make (name title description word : String) : Except FieldError Action :=
  (Shape.read word).map (ofParts name title description)

/-- An action of the shape `unique`. -/
def unique (name title description : String) : Action := ofParts name title description .unique

/-- A change of one field. -/
inductive Change
  | name (name : String)
  | title (title : String)
  | description (description : String)
  | shape (word : String)
  deriving DecidableEq, Repr

/-- The action with a change, built anew from its parts. -/
def apply (a : Action) : Change → Except FieldError Action
  | .name name => .ok (ofParts name a.title a.description a.shape)
  | .title title => .ok (ofParts a.name title a.description a.shape)
  | .description description => .ok (ofParts a.name a.title description a.shape)
  | .shape word => make a.name a.title a.description word

/-- The action as a data value. -/
def toJson (a : Action) : Json :=
  .object [("name", .string a.name), ("title", .string a.title),
    ("description", .string a.description), ("structure", .string a.shape.word)]

end Action

end Methodology
