import Methodology.Entry.Term
import Methodology.Fresh

/-!
# Categories

A category is a term that actions and data fields may be tagged with.

* `Category`, `Category.mint`: a category, with a uuid from a supply.
* `Category.Draft`: a category whose uuid may still be open.
* `Category.Change`, `Category.apply`: another name or description.
-/

namespace Methodology

/-- A registered term. -/
structure Category where
  uuid : Uuid
  name : Term
  description : Option String
  deriving DecidableEq, Repr

namespace Category

/-- A category as it is read, which may lack its uuid. -/
structure Draft where
  uuid : Option Uuid
  name : Term
  description : Option String
  deriving DecidableEq, Repr

/-- A draft from the parts as they are written. -/
def Draft.make (uuid : Option Uuid) (name : Term) (description : Option String) : Draft :=
  ⟨uuid, name.normalized, description.map Text.trim⟩

/-- The category of a draft, with a fresh uuid where it lacks one. -/
def Draft.settle (d : Draft) (fresh : Fresh) : Category × Fresh :=
  let (uuid, fresh) := fresh.uuid d.uuid
  (⟨uuid, d.name, d.description⟩, fresh)

/-- **A new category**, with the next uuid of a supply. -/
def mint (ids : Supply Uuid) (name : Term) (description : Option String) :
    Category × Supply Uuid :=
  (⟨ids.next.1, name.normalized, description.map Text.trim⟩, ids.next.2)

/-- A change of one field. -/
inductive Change
  | name (name : Term)
  | description (description : Option String)
  deriving DecidableEq, Repr

/-- The category with a change. -/
def apply (c : Category) : Change → Category
  | .name name => { c with name := name.normalized }
  | .description description => { c with description := description.map Text.trim }

/-- The category as a data value. -/
def toJson (c : Category) : Json :=
  .object ([("uuid", .string c.uuid.toText), ("name", c.name.toJson)] ++
    Json.textField "description" c.description)

end Category

end Methodology
