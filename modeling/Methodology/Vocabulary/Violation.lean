import Methodology.Vocabulary.Basic

/-!
# Violations

* `Place`: where in a document something is wrong.
* `Violation`: what is wrong there; `Violation.display`.
* `DocumentError`: why there is no vocabulary; `DocumentError.message`.
-/

namespace Methodology

/-- A place in a document. -/
inductive Place
  | root
  | field (key : String)
  | item (part : Section) (index : Nat)
  deriving DecidableEq, Repr

/-- The path of a place. -/
def Place.path : Place → String
  | root => ""
  | field key => key
  | item part index => part.name ++ "[" ++ Text.number index ++ "]"

/-- What is wrong at a place. -/
structure Violation where
  place : Place
  message : String
  deriving DecidableEq, Repr

namespace Violation

/-- The path of the place. -/
def path (v : Violation) : String := v.place.path

/-- The line about a violation; the empty path is shown as the root. -/
def display (v : Violation) : String :=
  "  " ++ (if v.path.isEmpty then "(root)" else v.path) ++ ": " ++ v.message

end Violation

/-- Why there is no vocabulary. -/
inductive DocumentError
  /-- The file cannot be read. -/
  | load (path reason : String)
  /-- The text is malformed. -/
  | parse (reason : String)
  /-- The extension names no format. -/
  | unsupportedFormat (path : String)
  /-- An identity is taken. -/
  | duplicate (d : Duplicate)
  /-- The document breaks rules. -/
  | invalid (violations : List Violation)
  /-- The vocabulary cannot be written. -/
  | serialize (reason : String)
  deriving DecidableEq, Repr

namespace DocumentError

/-- The lines about violations. -/
def report (violations : List Violation) : String :=
  "\n".intercalate (violations.map Violation.display)

/-- **The message.** -/
def message : DocumentError → String
  | load path reason => "document load error for '" ++ path ++ "': " ++ reason
  | parse reason => "parse error: " ++ reason
  | unsupportedFormat path =>
    "unsupported document format: " ++ Text.quoted path ++ " (expected .yaml, .yml or .json)"
  | duplicate d => d.message
  | invalid violations => "document failed validation:\n" ++ report violations
  | serialize reason => "serialization error: " ++ reason

end DocumentError

end Methodology
