import Methodology.CommandLine.Arguments
import Methodology.MimeType

/-!
# The command that resolves content types

* `MimeCommand`, `MimeCommand.parse`: its arguments.
* `MimeCommand.run`: **the line** about the type of a path or content type, or all lines.
-/

namespace Methodology.CommandLine

/-- Why a command fails: what it could not do, and why not. -/
structure Failure where
  message : String
  cause : Option String
  deriving DecidableEq, Repr

namespace Failure

/-- The failure on one line. -/
def inline (f : Failure) : String :=
  match f.cause with
  | some cause => f.message ++ ": " ++ cause
  | none => f.message

/-- The failure over several lines. -/
def report (f : Failure) : String :=
  match f.cause with
  | some cause => "Error: " ++ f.message ++ "\n\nCaused by:\n    " ++ cause ++ "\n"
  | none => "Error: " ++ f.message ++ "\n"

end Failure

/-- The arguments of the command. -/
structure MimeCommand where
  input : Option String
  contentType : Bool
  list : Bool
  deriving DecidableEq, Repr

namespace MimeCommand

/-- The grammar of the arguments. -/
def grammar : Grammar := ⟨["content-type", "list"], [], .one, fun _ => true, false⟩

/-- The command of its arguments: either a list or an input, which may be a content type. -/
def parse (args : List String) : Except UsageError MimeCommand := do
  let a ← grammar.parse args
  if a.has "list" && a.has "content-type" then .error .argumentConflict
  else if !a.has "list" && a.positionals.isEmpty then .error .missingRequiredArgument
  else .ok ⟨a.positionals.head?, a.has "content-type", a.has "list"⟩

/-- The line about a type. -/
def line (m : MimeType) : String := m.tag ++ "\t" ++ m.contentType ++ "\n"

/-- The lines about all types, with their extensions. -/
def listing : String :=
  String.join (MimeType.all.map fun m =>
    m.tag ++ "\t" ++ m.contentType ++ "\t" ++ ",".intercalate m.extensions ++ "\n")

/-- The type of an input. -/
def resolve (contentType : Bool) (input : String) : Except UnsupportedMime MimeType :=
  if contentType then MimeType.ofContentType input else MimeType.ofPath input

/-- **The lines that are written.** -/
def run (c : MimeCommand) : Except Failure String :=
  if c.list then .ok listing
  else match c.input with
    | none => .error ⟨"no input to resolve", none⟩
    | some input =>
      match resolve c.contentType input with
      | .ok m => .ok (line m)
      | .error e => .error ⟨"cannot resolve " ++ Text.quoted input, some e.message⟩

end MimeCommand

end Methodology.CommandLine
