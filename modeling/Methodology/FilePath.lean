/-!
# File paths

Paths are texts whose components are divided by `/`.

* `FilePath.components`: the components, without the empty ones and those that stay in place.
* `FilePath.fileName?`, `FilePath.extension?`: the name a path ends in, and what follows its last
  dot.
-/

namespace Methodology.FilePath

/-- A text cut at every character of one kind. -/
def cut (sep : Char) : List Char → List (List Char)
  | [] => [[]]
  | c :: rest =>
    if c = sep then [] :: cut sep rest
    else match cut sep rest with
      | [] => [[c]]
      | first :: more => (c :: first) :: more

/-- The components of a path; an empty one or a single dot leads nowhere and is left out. -/
def components (path : String) : List (List Char) :=
  (cut '/' path.toList).filter fun c => c != [] && c != ['.']

/-- The name that the path ends in; going up has no name. -/
def fileName? (path : String) : Option (List Char) :=
  match (components path).getLast? with
  | some name => if name = ['.', '.'] then none else some name
  | none => none

/-- What follows the last dot of a name; a dot in front of it all starts no extension. -/
def extensionOf? (name : List Char) : Option (List Char) :=
  let tail := name.reverse.takeWhile (· != '.')
  if tail.length + 1 < name.length then some tail.reverse else none

/-- **The extension of a path.** -/
def extension? (path : String) : Option String :=
  ((fileName? path).bind extensionOf?).map String.ofList

end Methodology.FilePath
