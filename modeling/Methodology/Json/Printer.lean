import Methodology.Decimal.Shortest
import Methodology.Json.Basic
import Methodology.Text.Basic

/-!
# Writing data values

* `Json.quotedChars`: a text between quotes.
* `Json.compact`: a value on one line, without blanks.
* `Json.pretty`: a value spread over lines, two spaces further in at every level.
-/

namespace Methodology.Json

/-- A character as it stands between the quotes. -/
def escaped (c : Char) : List Char :=
  if c = '"' then ['\\', '"']
  else if c = '\\' then ['\\', '\\']
  else if c = '\n' then ['\\', 'n']
  else if c = '\r' then ['\\', 'r']
  else if c = '\t' then ['\\', 't']
  else if c = '\x08' then ['\\', 'b']
  else if c = '\x0c' then ['\\', 'f']
  else if c.toNat < 0x20 then ['\\', 'u'] ++ Text.padded 4 (Text.hex c.toNat)
  else [c]

/-- A text between quotes. -/
def quotedChars (s : String) : List Char := '"' :: s.toList.flatMap escaped ++ ['"']

/-- How the notation writes a real number. -/
def realStyle : DecimalStyle := ⟨true⟩

/-- A number. -/
def Number.text : Number → String
  | integer n => Text.integer n
  | real x => x.written realStyle

/-- The parts with a comma between them. -/
def commaJoined : List (List Char) → List Char
  | [] => []
  | [x] => x
  | x :: y :: rest => x ++ ',' :: commaJoined (y :: rest)

mutual

/-- The characters of a value on one line. -/
def compactChars : Json → List Char
  | null => ['n', 'u', 'l', 'l']
  | bool true => ['t', 'r', 'u', 'e']
  | bool false => ['f', 'a', 'l', 's', 'e']
  | number n => n.text.toList
  | string s => quotedChars s
  | array items => '[' :: commaJoined (compactItems items) ++ [']']
  | object fields => '\x7b' :: commaJoined (compactFields fields) ++ ['\x7d']

/-- The items of a list, each on its own. -/
def compactItems : List Json → List (List Char)
  | [] => []
  | v :: rest => compactChars v :: compactItems rest

/-- The fields of a mapping, each on its own. -/
def compactFields : List (String × Json) → List (List Char)
  | [] => []
  | (k, v) :: rest => (quotedChars k ++ ':' :: compactChars v) :: compactFields rest

end

/-- **The text of a value on one line.** -/
def compact (v : Json) : String := String.ofList (compactChars v)

/-- The start of a line so many levels in. -/
def newline (level : Nat) : List Char := '\n' :: List.replicate (2 * level) ' '

mutual

/-- The characters of a value that starts so many levels in. -/
def prettyChars (level : Nat) : Json → List Char
  | null => ['n', 'u', 'l', 'l']
  | bool true => ['t', 'r', 'u', 'e']
  | bool false => ['f', 'a', 'l', 's', 'e']
  | number n => n.text.toList
  | string s => quotedChars s
  | array [] => ['[', ']']
  | array (v :: rest) =>
    '[' :: commaJoined (prettyItems (level + 1) (v :: rest)) ++ newline level ++ [']']
  | object [] => ['\x7b', '\x7d']
  | object (f :: rest) =>
    '\x7b' :: commaJoined (prettyFields (level + 1) (f :: rest)) ++ newline level ++ ['\x7d']

/-- The items of a list, each on a line of its own. -/
def prettyItems (level : Nat) : List Json → List (List Char)
  | [] => []
  | v :: rest => (newline level ++ prettyChars level v) :: prettyItems level rest

/-- The fields of a mapping, each on a line of its own. -/
def prettyFields (level : Nat) : List (String × Json) → List (List Char)
  | [] => []
  | (k, v) :: rest =>
    (newline level ++ quotedChars k ++ [':', ' '] ++ prettyChars level v) :: prettyFields level rest

end

/-- **The text of a value spread over lines.** -/
def pretty (v : Json) : String := String.ofList (prettyChars 0 v)

end Methodology.Json
