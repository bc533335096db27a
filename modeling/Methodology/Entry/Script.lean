import Methodology.Fresh
import Methodology.Json.Basic

/-!
# Action scripts

A script is kept letter by letter under a uuid of its own; nothing here reads it.

* `Script`, `Script.mint`: a script, with a uuid from a supply.
* `Script.Draft`: a script whose uuid may still be open.
* `Script.Change`, `Script.apply`: another text.
-/

namespace Methodology

/-- A script with its identity. -/
structure Script where
  uuid : Uuid
  text : String
  deriving DecidableEq, Repr

namespace Script

/-- A script as it is read, which may lack its uuid. -/
structure Draft where
  uuid : Option Uuid
  text : String
  deriving DecidableEq, Repr

/-- The script of a draft, with a fresh uuid where it lacks one. -/
def Draft.settle (d : Draft) (fresh : Fresh) : Script × Fresh :=
  let (uuid, fresh) := fresh.uuid d.uuid
  (⟨uuid, d.text⟩, fresh)

/-- **A new script**, with the next uuid of a supply. -/
def mint (ids : Supply Uuid) (text : String) : Script × Supply Uuid :=
  (⟨ids.next.1, text⟩, ids.next.2)

/-- A change of the one field that changes. -/
inductive Change
  | text (text : String)
  deriving DecidableEq, Repr

/-- The script with a change. -/
def apply (s : Script) : Change → Script
  | .text text => { s with text := text }

/-- The script as a data value. -/
def toJson (s : Script) : Json :=
  .object [("uuid", .string s.uuid.toText), ("script", .string s.text)]

end Script

end Methodology
