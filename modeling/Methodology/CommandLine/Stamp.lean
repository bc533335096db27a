import Methodology.CommandLine.Arguments
import Methodology.Vocabulary.Format

/-!
# The command that writes stamps

* `StampCommand`, `StampCommand.parse`: its arguments.
* `StampCommand.run`: **the stamp** and its text.
-/

namespace Methodology.CommandLine

/-- The arguments of the command. -/
structure StampCommand where
  name : Option String
  description : Option String
  format : Format
  deriving DecidableEq, Repr

namespace StampCommand

/-- The format that a word names. -/
def format? (s : String) : Option Format :=
  if s = "yaml" then some .yaml else if s = "json" then some .json else none

/-- The grammar of the arguments. -/
def grammar : Grammar :=
  ⟨[], [("name", fun _ => true), ("description", fun _ => true),
    ("format", fun s => (format? s).isSome)], .none, fun _ => true, false⟩

/-- The command of its arguments; the format is YAML unless another is named. -/
def parse (args : List String) : Except UsageError StampCommand := do
  let a ← grammar.parse args
  .ok ⟨a.value? "name", a.value? "description",
    ((a.value? "format").bind format?).getD .yaml⟩

/-- The text of a stamp. -/
def render (stamp : Stamp) : Format → String
  | .yaml => Model.toYaml stamp
  | .json => Model.toPretty stamp ++ "\n"

/-- **The stamp** of the instant that the clock shows, and its text. -/
def run (c : StampCommand) (now : Instant) : Stamp × String :=
  let stamp := Stamp.make now c.name c.description none
  (stamp, render stamp c.format)

end StampCommand

end Methodology.CommandLine
