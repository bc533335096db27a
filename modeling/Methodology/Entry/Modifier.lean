import Methodology.Json.Basic
import Methodology.Text.Basic
import Methodology.ValueError

/-!
# Modifiers

A modifier is one character that scripts combine with others, and a title for it.

* `Modifier`, `Modifier.make`: a modifier, from a name that trims to one character.
* `Modifier.symbol`: the character, which is the identity of a modifier.
* `Modifier.Change`, `Modifier.apply`: another name or title.
-/

namespace Methodology

/-- A character of the language of scripts, with its title. -/
structure Modifier where
  name : String
  title : String
  deriving DecidableEq, Repr

namespace Modifier

/-- The first character of the name, or the null character where there is none. -/
def symbol (m : Modifier) : Char := m.name.toList.head?.getD '\x00'

/-- **A modifier** from its name and title, both trimmed; the name has to be one character. -/
def make (name title : String) : Except FieldError Modifier :=
  let name := Text.trim name
  match name.toList with
  | [_] => .ok ⟨name, Text.trim title⟩
  | _ => .error (.modifierName name)

/-- A change of one field. -/
inductive Change
  | name (name : String)
  | title (title : String)
  deriving DecidableEq, Repr

/-- The modifier with a change, checked like a new one. -/
def apply (m : Modifier) : Change → Except FieldError Modifier
  | .name name => make name m.title
  | .title title => make m.name title

/-- The modifier as a data value. -/
def toJson (m : Modifier) : Json := .object [("name", .string m.name), ("title", .string m.title)]

end Modifier

end Methodology
