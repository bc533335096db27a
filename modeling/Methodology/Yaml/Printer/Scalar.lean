import Methodology.Yaml.Cursor
import Methodology.Yaml.Resolve

/-!
# Writing texts as YAML scalars

A text with a line feed is written as a literal block, one that would not read back as a text
between single quotes, any other one plainly; a text that cannot be written so is written in the
next style that can hold it, double quotes at last.

* `Survey`: what a text holds that a style may not.
* `ScalarStyle`, `styleOf`: **the style of a text**.
* `scalarChars`: the text in its style.
-/

namespace Methodology.Yaml

/-- A character that is written as it is. -/
def isPrintable (c : Char) : Bool :=
  let n := c.toNat
  n == 0x0A || (0x20 ≤ n && n ≤ 0x7E) || (0xA0 ≤ n && n ≤ 0xFFFD && n != 0xFEFF) || 0x10000 ≤ n

/-- What a text holds that a style may not. -/
structure Survey where
  /-- A part that reads as a mark of a block. -/
  marks : Bool
  /-- A line break. -/
  breaks : Bool
  /-- A space or a line break at the start or the end. -/
  bareEnds : Bool
  /-- A space at the end. -/
  spaceAtEnd : Bool
  /-- A space behind a line break. -/
  spaceAfterBreak : Bool
  /-- A space in front of a line break, or a character that does not print. -/
  special : Bool
  deriving DecidableEq, Repr

/-- The characters that no plain text starts with. -/
def isLeadingMark (c : Char) : Bool :=
  ['#', ',', '[', ']', '\x7b', '\x7d', '&', '*', '!', '|', '>', '\'', '"', '%', '@',
    '\x60'].contains c

/-- Whether the first character reads as a mark, `next` being the one behind it. -/
def marksAtStart (c : Char) (next : Option Char) : Bool :=
  isLeadingMark c || ((c == '?' || c == ':' || c == '-') && endsWord next)

/-- Whether marks stand behind the first character, `before` being the one in front. -/
def marksWithin (before : Char) : List Char → Bool
  | [] => false
  | c :: rest =>
    (c == ':' && endsWord rest.head?) || (c == '#' && endsWord (some before)) || marksWithin c rest

/-- Whether the text starts like a line between documents. -/
def startsLikeMarker (s : List Char) : Bool :=
  s.take 3 == ['-', '-', '-'] || s.take 3 == ['.', '.', '.']

/-- Whether a character with one property is followed by one with another. -/
def hasPair (p q : Char → Bool) : List Char → Bool
  | a :: b :: rest => (p a && q b) || hasPair p q (b :: rest)
  | _ => false

/-- Whether a character is a space. -/
def isSpace (c : Char) : Bool := c == ' '

/-- **What a text holds.** -/
def survey (s : List Char) : Survey where
  marks := startsLikeMarker s || (match s with
    | [] => false
    | c :: rest => marksAtStart c rest.head? || marksWithin c rest)
  breaks := s.any isBreak
  bareEnds := s.head?.any (fun c => isSpace c || isBreak c) ||
    s.getLast?.any fun c => isSpace c || isBreak c
  spaceAtEnd := s.getLast?.any isSpace
  spaceAfterBreak := hasPair isBreak isSpace s
  special := hasPair isSpace isBreak s || s.any fun c => !isPrintable c

/-- How a text is written. -/
inductive ScalarStyle
  | plain
  | single
  | double
  | literal
  deriving DecidableEq, Repr

/-- Whether a text would read back as something else, or may be taken for it. -/
def needsQuotes (s : List Char) : Bool := resolve s != .text || hasLeadingZero s

/-- The style that the content of a text asks for. -/
def wantedStyle (s : List Char) : ScalarStyle :=
  if s.contains '\n' then .literal else if needsQuotes s then .single else .plain

/-- Single quotes, or double ones where they cannot hold the text. -/
def singleOrDouble (v : Survey) : ScalarStyle :=
  if v.spaceAfterBreak || v.special then .double else .single

/-- **The style of a text.** -/
def styleOf (s : List Char) : ScalarStyle :=
  let v := survey s
  match wantedStyle s with
  | .literal => if v.spaceAtEnd || v.special then .double else .literal
  | .plain =>
    if v.bareEnds || v.breaks || v.marks || v.spaceAfterBreak || v.special then singleOrDouble v
    else .plain
  | _ => singleOrDouble v

/-! ## The styles -/

/-- A hexadecimal number with capitals, so many digits wide. -/
def capitalHex (width n : Nat) : List Char :=
  (Text.padded width (Text.hex n)).map Char.toUpper

/-- A character behind a backslash. -/
def escapeOf (c : Char) : List Char :=
  let n := c.toNat
  if n = 0 then ['0']
  else if n = 0x07 then ['a']
  else if n = 0x08 then ['b']
  else if n = 0x09 then ['t']
  else if n = 0x0A then ['n']
  else if n = 0x0B then ['v']
  else if n = 0x0C then ['f']
  else if n = 0x0D then ['r']
  else if n = 0x1B then ['e']
  else if n = 0x22 then ['"']
  else if n = 0x5C then ['\\']
  else if n = 0x85 then ['N']
  else if n = 0xA0 then ['_']
  else if n = 0x2028 then ['L']
  else if n = 0x2029 then ['P']
  else if n ≤ 0xFF then 'x' :: capitalHex 2 n
  else if n ≤ 0xFFFF then 'u' :: capitalHex 4 n
  else 'U' :: capitalHex 8 n

/-- A character between double quotes. -/
def doubleChar (c : Char) : List Char :=
  if !isPrintable c || isBreak c || c == '"' || c == '\\' then '\\' :: escapeOf c else [c]

/-- So many spaces. -/
def spaces (n : Nat) : List Char := List.replicate n ' '

/-- The characters between single quotes; behind a line break the indentation is written again. -/
def singleChars (indent : Nat) (afterBreak : Bool) : List Char → List Char
  | [] => if afterBreak then spaces indent else []
  | c :: rest =>
    if isBreak c then c :: singleChars indent true rest
    else (if afterBreak then spaces indent else []) ++ (if c = '\'' then ['\'', '\''] else [c]) ++
      singleChars indent false rest

/-- The lines of a literal block; an empty line has no indentation. -/
def literalChars (indent : Nat) (afterBreak : Bool) : List Char → List Char
  | [] => []
  | c :: rest =>
    if isBreak c then c :: literalChars indent true rest
    else (if afterBreak then spaces indent else []) ++ c :: literalChars indent false rest

/-- The digit that a literal block needs whose text starts with a blank. -/
def literalIndent (s : List Char) : List Char :=
  if s.head?.any fun c => isSpace c || isBreak c then ['2'] else []

/-- The sign that says what becomes of the line breaks at the end. -/
def literalChomp (s : List Char) : List Char :=
  match s.reverse with
  | [] => ['-']
  | [c] => if isBreak c then ['+'] else ['-']
  | c :: d :: _ => if !isBreak c then ['-'] else if isBreak d then ['+'] else []

/-- **The text in its style**; the lines of the text after the first are so far in. -/
def scalarChars (indent : Nat) (s : List Char) : List Char :=
  match styleOf s with
  | .plain => s
  | .single => '\'' :: singleChars indent false s ++ ['\'']
  | .double => '"' :: s.flatMap doubleChar ++ ['"']
  | .literal => '|' :: literalIndent s ++ literalChomp s ++ '\n' :: literalChars indent true s

end Methodology.Yaml
