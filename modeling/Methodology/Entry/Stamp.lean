import Methodology.Fresh
import Methodology.Json.Basic
import Methodology.Text.Basic

/-!
# Provenance stamps

A stamp says who changed a definition, what changed and when.

* `Stamp`, `Stamp.make`: a stamp; a clock gives the instant that is left out.
* `Stamp.Draft`: a stamp whose instant may still be open.
* `Stamp.Change`, `Stamp.apply`: another name, description or instant.
-/

namespace Methodology

/-- A stamp. -/
structure Stamp where
  name : Option String
  description : Option String
  updated : Instant
  deriving DecidableEq, Repr

namespace Stamp

/-- A stamp as it is read, which may lack its instant. -/
structure Draft where
  name : Option String
  description : Option String
  updated : Option Instant
  deriving DecidableEq, Repr

/-- A draft from the parts as they are written. -/
def Draft.make (name description : Option String) (updated : Option Instant) : Draft :=
  ⟨name.map Text.trim, description.map Text.trim, updated⟩

/-- The stamp of a draft, with a reading of the clock where it lacks the instant. -/
def Draft.settle (d : Draft) (fresh : Fresh) : Stamp × Fresh :=
  let (updated, fresh) := fresh.instant d.updated
  (⟨d.name, d.description, updated⟩, fresh)

/-- **A stamp** from its parts, `now` being what the clock shows. -/
def make (now : Instant) (name description : Option String) (updated : Option Instant) : Stamp :=
  ⟨name.map Text.trim, description.map Text.trim, updated.getD now⟩

/-- A change of one field. -/
inductive Change
  | name (name : Option String)
  | description (description : Option String)
  | updated (updated : Instant)
  deriving DecidableEq, Repr

/-- The stamp with a change. -/
def apply (s : Stamp) : Change → Stamp
  | .name name => { s with name := name.map Text.trim }
  | .description description => { s with description := description.map Text.trim }
  | .updated updated => { s with updated := updated }

/-- The stamp as a data value; a part that is unknown is left out. -/
def toJson (s : Stamp) : Json :=
  .object (Json.textField "name" s.name ++ Json.textField "description" s.description ++
    [("updated", .string s.updated.toText)])

end Stamp

end Methodology
