import Methodology.ValueError

/-!
# Shapes of action categories

* `Shape`: what kind of term an action works with.
* `Shape.word`, `Shape.ofWord?`, `Shape.read`: the word for a shape, and back.
-/

namespace Methodology

/-- What an action works with: a flag, or a term drawn from a set of distinct ones. -/
inductive Shape
  | boolean
  | unique
  deriving DecidableEq, Repr

namespace Shape

/-- The shape of an action that states none. -/
def default : Shape := unique

/-- The word for a shape. -/
def word : Shape → String
  | boolean => "boolean"
  | unique => "unique"

/-- The shape that a word stands for. -/
def ofWord? (s : String) : Option Shape :=
  if s = "boolean" then some boolean else if s = "unique" then some unique else none

/-- **Reading a field** that holds a shape. -/
def read (s : String) : Except FieldError Shape :=
  match ofWord? s with
  | some shape => .ok shape
  | none => .error (.shape s)

end Shape

end Methodology
