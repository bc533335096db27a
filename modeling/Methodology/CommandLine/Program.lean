import Methodology.CommandLine.Mime
import Methodology.CommandLine.Stamp
import Methodology.CommandLine.Validate

/-!
# The program

* `Command`, `Command.parse`: the command that the arguments name.
* `Outcome`: the exit status and what is written.
* `run`: **a run** of the program.
-/

namespace Methodology.CommandLine

/-- A command. -/
inductive Command
  | validate (c : ValidateCommand)
  | mime (c : MimeCommand)
  | stamp (c : StampCommand)
  deriving DecidableEq, Repr

namespace Command

/-- The names of the commands. -/
def names : List String := ["validate", "mime", "stamp", "help"]

/-- What is asked for in front of the name of a command; it has no positional arguments. -/
def grammar : Grammar := ⟨[], [], .none, fun _ => true, true⟩

/-- The commands whose help is asked for have to exist. -/
def help : List String → UsageError
  | [] => .displayHelp
  | [name] => if names.contains name then .displayHelp else .unknownSubcommand
  | _ => .unknownSubcommand

/-- **The command** that the arguments name. -/
def parse : List String → Except UsageError Command
  | [] => .error .missingSubcommand
  | "validate" :: args => (ValidateCommand.parse args).map validate
  | "mime" :: args => (MimeCommand.parse args).map mime
  | "stamp" :: args => (StampCommand.parse args).map stamp
  | "help" :: args => .error (help args)
  | arg :: args =>
    match grammar.parse (arg :: args) with
    | .error e => .error e
    | .ok _ => .error .missingSubcommand

end Command

/-- What a run comes to: the exit status, and what it writes to its two outputs. -/
structure Outcome where
  exit : Nat
  stdout : String
  stderr : String
  deriving DecidableEq, Repr

/-- The line about the version. -/
def versionLine : String := "xwalk 0.1.0\n"

/-- The outcome of arguments that name no command. -/
def refused : UsageError → Outcome
  | .displayHelp => ⟨0, "", ""⟩
  | .displayVersion => ⟨0, versionLine, ""⟩
  | e => ⟨2, "", "error: " ++ e.name ++ "\n"⟩

/-- The failure when documents failed. -/
def failedDocuments (failed total : Nat) : Failure :=
  ⟨Text.number failed ++ " of " ++ Text.number total ++ " documents failed validation", none⟩

/-- The outcome of a command. -/
def Command.run (files : Files) (fresh : Fresh) : Command → Outcome
  | .validate c =>
    let r := c.run files fresh
    if r.failed = 0 then ⟨0, r.text, ""⟩
    else ⟨1, r.text, (failedDocuments r.failed c.paths.length).report⟩
  | .mime c =>
    match c.run with
    | .ok text => ⟨0, text, ""⟩
    | .error f => ⟨1, "", f.report⟩
  | .stamp c => ⟨0, (c.run fresh.clock.next.1).2, ""⟩

/-- **A run** of the program. -/
def run (args : List String) (files : Files) (fresh : Fresh) : Outcome :=
  match Command.parse args with
  | .ok c => c.run files fresh
  | .error e => refused e

end Methodology.CommandLine
