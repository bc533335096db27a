import Methodology.FilePath

/-!
# Files

What can be read, as a value.

* `Files`: what reading gives for every path.
* `ReadFault`: why nothing is read from a path; `ReadFault.message`.
* `FileTree`, `FileTree.read`: a file or a directory, and **the text of the file** at a path below
  it.
-/

namespace Methodology

/-- A file with its bytes, or a directory with its entries. -/
inductive FileTree
  | file (bytes : List UInt8)
  | directory (entries : List (String × FileTree))

/-- Why nothing is read. -/
inductive ReadFault
  | notFound
  | notADirectory
  | isADirectory
  | nameTooLong
  | nulInName
  | notText
  | other (reason : String)
  deriving DecidableEq, Repr

/-- The wording. -/
def ReadFault.message : ReadFault → String
  | notFound => "No such file or directory (os error 2)"
  | notADirectory => "Not a directory (os error 20)"
  | isADirectory => "Is a directory (os error 21)"
  | nameTooLong => "File name too long (os error 36)"
  | nulInName => "file name contained an unexpected NUL byte"
  | notText => "stream did not contain valid UTF-8"
  | other reason => reason

/-- What reading gives for every path: the text of a file, or why there is none. -/
abbrev Files := String → Except ReadFault String

/-- The text that bytes spell. -/
def textOf (bytes : List UInt8) : Except ReadFault String :=
  match String.fromUTF8? ⟨bytes.toArray⟩ with
  | some s => .ok s
  | none => .error .notText

namespace FileTree

/-- What is left when an entry takes the place of another one; a directory stays as it is when an
empty one is made in its place. -/
def replace : FileTree → FileTree → FileTree
  | .directory [], .directory entries => .directory entries
  | entry, _ => entry

/-- The directory with an entry put in, into directories that are made where they are missing; a
file in the way gives way. -/
def insert (entry : FileTree) : List String → FileTree → FileTree
  | [], t => replace entry t
  | name :: path, .directory entries =>
    .directory ((name, insert entry path ((entries.lookup name).getD (.directory []))) ::
      entries.filter fun e => e.1 != name)
  | name :: path, .file _ => .directory [(name, insert entry path (.directory []))]

/-- The longest name, in bytes. -/
def longestName : Nat := 255

/-- The longest path, in bytes. -/
def longestPath : Nat := 4095

/-- What lies at the end of a path of names, `above` being the directories that lead here, the
nearest first. -/
def walk (above : List FileTree) : FileTree → List String → Except ReadFault FileTree
  | t, [] => .ok t
  | .file _, _ :: _ => .error .notADirectory
  | .directory entries, name :: path =>
    if name = "" ∨ name = "." then walk above (.directory entries) path
    else if name = ".." then
      match above with
      | [] => .error .notFound
      | t :: above => walk above t path
    else if name.utf8ByteSize > longestName then .error .nameTooLong
    else match entries.lookup name with
      | none => .error .notFound
      | some t => walk (.directory entries :: above) t path

/-- The names of a path, the empty ones kept. -/
def names (path : String) : List String := (FilePath.cut '/' path.toList).map String.ofList

/-- **The text of the file** at a path that starts in the directory. A path that starts with a slash
leads out of it, to nothing. -/
def read (t : FileTree) : Files := fun path =>
  if path.toList.contains '\x00' then .error .nulInName
  else if path.utf8ByteSize > longestPath then .error .nameTooLong
  else if path.toList.head? = some '/' then .error .notFound
  else match walk [] t (names path) with
    | .error e => .error e
    | .ok (.directory _) => .error .isADirectory
    | .ok (.file bytes) => textOf bytes

end FileTree

end Methodology
