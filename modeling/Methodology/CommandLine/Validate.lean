import Methodology.CommandLine.Arguments
import Methodology.Vocabulary.Format

/-!
# The command that validates documents

* `ValidateCommand`, `ValidateCommand.parse`: its arguments.
* `block`: the lines about one document.
* `ValidateCommand.run`: **the report**, and how many documents failed.
-/

namespace Methodology.CommandLine

/-- The arguments of the command. -/
structure ValidateCommand where
  paths : List String
  deriving DecidableEq, Repr

/-- The lines about a document, and whether it failed. -/
def block (path : String) : Except DocumentError Vocabulary → Bool × String
  | .ok v => (false, "OK   " ++ path ++ " (" ++ Text.number v.size ++ " entries)\n")
  | .error (.invalid violations) =>
    (true, "FAIL " ++ path ++ " (" ++ Text.number violations.length ++ " violations)\n" ++
      DocumentError.report violations ++ "\n")
  | .error e => (true, "FAIL " ++ path ++ ": " ++ e.message ++ "\n")

/-- A report: how many documents failed, and its lines. -/
structure Report where
  failed : Nat
  text : String
  deriving DecidableEq, Repr

namespace Report

/-- The report without documents. -/
def empty : Report := ⟨0, ""⟩

/-- The report with one more document. -/
def add (r : Report) (entry : Bool × String) : Report :=
  ⟨if entry.1 then r.failed + 1 else r.failed, r.text ++ entry.2⟩

end Report

/-- The report on the documents, one after the other. -/
def reportFrom (files : Files) : Report → List String → Fresh → Report × Fresh
  | r, [], fresh => (r, fresh)
  | r, path :: rest, fresh =>
    let (result, fresh) := Vocabulary.load files path fresh
    reportFrom files (r.add (block path result)) rest fresh

namespace ValidateCommand

/-- The grammar of the arguments; a path is not empty. -/
def grammar : Grammar := ⟨[], [], .many, fun s => !s.isEmpty, false⟩

/-- The command of its arguments, one path at least. -/
def parse (args : List String) : Except UsageError ValidateCommand := do
  let a ← grammar.parse args
  if a.positionals.isEmpty then .error .missingRequiredArgument else .ok ⟨a.positionals⟩

/-- **The report** on the documents. -/
def run (c : ValidateCommand) (files : Files) (fresh : Fresh) : Report :=
  (reportFrom files .empty c.paths fresh).1

end ValidateCommand

end Methodology.CommandLine
