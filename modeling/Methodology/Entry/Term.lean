import Methodology.Json.Basic
import Methodology.Text.Basic

/-!
# Names of category terms

* `Term`: a flag or a text; the flag `true` and the text `true` are two terms.
* `Term.normalized`, `Term.display`, `Term.toJson`.
-/

namespace Methodology

/-- The name of a category term. -/
inductive Term
  | flag (b : Bool)
  | text (s : String)
  deriving DecidableEq, Repr

namespace Term

/-- The term without blanks at the ends of its text. -/
def normalized : Term → Term
  | flag b => flag b
  | text s => text (Text.trim s)

/-- How a term is shown. -/
def display : Term → String
  | flag b => if b then "true" else "false"
  | text s => s

/-- The term as a data value. -/
def toJson : Term → Json
  | flag b => .bool b
  | text s => .string s

end Term

end Methodology
