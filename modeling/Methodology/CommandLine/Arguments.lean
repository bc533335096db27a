/-!
# Arguments

* `UsageError`: why arguments are refused.
* `Grammar`: the flags, options and positional arguments of a command.
* `Arguments`: what was given.
* `Grammar.parse`: **reading** the arguments of a command.
-/

namespace Methodology.CommandLine

/-- Why arguments are refused, or what is shown in place of a run. -/
inductive UsageError
  | unknownArgument
  | argumentConflict
  | invalidValue
  | missingRequiredArgument
  | tooManyValues
  | missingSubcommand
  | unknownSubcommand
  | displayHelp
  | displayVersion
  deriving DecidableEq, Repr

/-- The name of the kind of refusal. -/
def UsageError.name : UsageError → String
  | unknownArgument => "UnknownArgument"
  | argumentConflict => "ArgumentConflict"
  | invalidValue => "InvalidValue"
  | missingRequiredArgument => "MissingRequiredArgument"
  | tooManyValues => "TooManyValues"
  | missingSubcommand => "DisplayHelpOnMissingArgumentOrSubcommand"
  | unknownSubcommand => "InvalidSubcommand"
  | displayHelp => "DisplayHelp"
  | displayVersion => "DisplayVersion"

/-- How many positional arguments a command takes. -/
inductive Positionals
  | none
  | one
  | many
  deriving DecidableEq, Repr

/-- The arguments that a command knows. -/
structure Grammar where
  flags : List String
  /-- The options with a value, and the values that each accepts. -/
  options : List (String × (String → Bool))
  positionals : Positionals
  /-- The positional values that are accepted. -/
  accepts : String → Bool
  /-- Whether the version can be asked for. -/
  versioned : Bool

/-- What was given. -/
structure Arguments where
  flags : List String
  values : List (String × String)
  positionals : List String
  deriving DecidableEq, Repr

namespace Arguments

/-- Nothing given. -/
def empty : Arguments := ⟨[], [], []⟩

/-- Whether a flag was given. -/
def has (a : Arguments) (flag : String) : Bool := a.flags.contains flag

/-- The value that an option was given. -/
def value? (a : Arguments) (option : String) : Option String := a.values.lookup option

end Arguments

/-- An argument that is met and not yet checked. -/
inductive Pending
  | option (name : String) (value : Option String)
  | positionals (values : List String)
  deriving DecidableEq, Repr

/-- The state of reading arguments. -/
structure ArgumentState where
  given : Arguments
  pending : Option Pending
  /-- Whether the option that is pending waits for its value. -/
  waiting : Bool
  /-- Whether two hyphens were met, after which all arguments are positional. -/
  trailing : Bool
  deriving Repr

namespace Grammar

variable (g : Grammar)

/-- An option with its value, which is given once and has to be accepted. -/
def takeOption (a : Arguments) (name : String) : Option String → Except UsageError Arguments
  | .none => .error .invalidValue
  | some value =>
    if (a.value? name).isSome then .error .argumentConflict
    else if (g.options.lookup name).any (· value) then
      .ok { a with values := (name, value) :: a.values }
    else .error .invalidValue

/-- The argument that is pending is checked and taken. -/
def settle (s : ArgumentState) : Except UsageError ArgumentState :=
  match s.pending with
  | .none => .ok s
  | some (.option name value) =>
    (g.takeOption s.given name value).map fun given => ⟨given, .none, false, s.trailing⟩
  | some (.positionals values) =>
    if values.all g.accepts then
      .ok ⟨{ s.given with positionals := s.given.positionals ++ values }, .none, false, s.trailing⟩
    else .error .invalidValue

/-- A flag, which is given once. -/
def takeFlag (s : ArgumentState) (name : String) : Except UsageError ArgumentState := do
  let s ← g.settle s
  if name = "help" then .error .displayHelp
  else if name = "version" then .error .displayVersion
  else if s.given.has name then .error .argumentConflict
  else .ok { s with given := { s.given with flags := name :: s.given.flags } }

/-- Whether there is such a flag. -/
def knowsFlag (name : String) : Bool :=
  g.flags.contains name || name == "help" || (name == "version" && g.versioned)

/-- An argument that starts with two hyphens. -/
def takeLong (s : ArgumentState) (name : String) (value : Option String) :
    Except UsageError ArgumentState :=
  if g.knowsFlag name then
    if value.isSome then .error .tooManyValues else g.takeFlag s name
  else if (g.options.lookup name).isSome then do
    let s ← g.settle s
    match value with
    | some value =>
      let given ← g.takeOption s.given name (some value)
      .ok { s with given := given }
    | .none => .ok { s with pending := some (.option name .none), waiting := true }
  else .error .unknownArgument

/-- An argument that starts with one hyphen: the letter behind it. -/
def takeShort (s : ArgumentState) (letter : Char) : Except UsageError ArgumentState :=
  if letter = 'h' then g.takeFlag s "help"
  else if letter = 'V' ∧ g.versioned then g.takeFlag s "version"
  else .error .unknownArgument

/-- A positional argument. -/
def takePositional (s : ArgumentState) (value : String) : Except UsageError ArgumentState :=
  match g.positionals, s.pending with
  | .none, _ => .error .unknownArgument
  | .many, some (.positionals values) =>
    .ok { s with pending := some (.positionals (values ++ [value])) }
  | .one, some (.positionals _) => .error .unknownArgument
  | count, _ =>
    if count = .one ∧ !s.given.positionals.isEmpty then .error .unknownArgument
    else (g.settle s).map fun s => { s with pending := some (.positionals [value]) }

/-- The name behind two hyphens, and the value behind an equals sign. -/
def longParts (body : List Char) : String × Option String :=
  let name := body.takeWhile (· != '=')
  (String.ofList name,
    if name.length < body.length then some (String.ofList (body.drop (name.length + 1))) else .none)

/-- The next argument. -/
def step (s : ArgumentState) (arg : String) : Except UsageError ArgumentState :=
  if s.trailing then g.takePositional s arg
  else match arg.toList with
    | ['-', '-'] => .ok { s with trailing := true }
    | '-' :: '-' :: body => g.takeLong s (longParts body).1 (longParts body).2
    | '-' :: letter :: _ => g.takeShort s letter
    | _ =>
      match s.waiting, s.pending with
      | true, some (.option name _) =>
        .ok { s with pending := some (.option name (some arg)), waiting := false }
      | _, _ => g.takePositional s arg

/-- **Reading** the arguments of a command. -/
def parse (args : List String) : Except UsageError Arguments := do
  let s ← args.foldlM g.step ⟨.empty, .none, false, false⟩
  let s ← g.settle s
  .ok s.given

end Grammar

end Methodology.CommandLine
