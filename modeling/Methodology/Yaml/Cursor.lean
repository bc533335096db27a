import Methodology.Text.Basic

/-!
# Places in a YAML text

* `isBreak`, `isBlank`, `isWordChar`, `isFlowMark`: the characters that divide a text.
* `Cursor`: the text that is left, with how far into the text it starts; `skip`, `skipLine`,
  `skipWhile`.
* `Cursor.atMarker`: a line that opens with `---` or `...`.
-/

namespace Methodology.Yaml

/-- A character that breaks lines. -/
def isBreak (c : Char) : Bool :=
  c == '\n' || c == '\r' || c == '\u0085' || c == '\u2028' || c == '\u2029'

/-- A blank within a line. -/
def isBlank (c : Char) : Bool := c == ' ' || c == '\t'

/-- A character of names: an ASCII letter or digit, a hyphen or an underscore. -/
def isWordChar (c : Char) : Bool := c.isAlphanum || c == '-' || c == '_'

/-- A bracket or a comma, which mark the parts of a flow collection. -/
def isFlowMark (c : Char) : Bool :=
  c == ',' || c == '[' || c == ']' || c == '\x7b' || c == '\x7d'

/-- Whether a line ends here. -/
def endsLine : Option Char → Bool
  | none => true
  | some c => isBreak c

/-- Whether a word ends here. -/
def endsWord : Option Char → Bool
  | none => true
  | some c => isBlank c || isBreak c

/-- What a line break counts as: a line feed, or itself when it is one of the two separators. -/
def breakChar (c : Char) : Char := if c == '\u2028' || c == '\u2029' then c else '\n'

/-- A place in a text: what is left, the bytes and lines in front of it, and the characters of its
line in front of it. -/
structure Cursor where
  rest : List Char
  index : Nat
  line : Nat
  column : Nat
  deriving DecidableEq, Repr

namespace Cursor

/-- The start of a text. -/
def start (text : List Char) : Cursor := ⟨text, 0, 0, 0⟩

/-- The character here. -/
def peek (c : Cursor) : Option Char := c.rest.head?

/-- The character so many places further on. -/
def peekAt (c : Cursor) (n : Nat) : Option Char := c.rest[n]?

/-- Past so many characters of the line. -/
def skip (c : Cursor) (n : Nat) : Cursor :=
  ⟨c.rest.drop n, c.index + Text.byteSize (c.rest.take n), c.line, c.column + n⟩

/-- Past the characters of the line that have a property. -/
def skipWhile (p : Char → Bool) (c : Cursor) : Cursor := c.skip (c.rest.takeWhile p).length

/-- Past a line break; elsewhere the cursor stays. -/
def skipLine (c : Cursor) : Cursor :=
  match c.rest with
  | [] => c
  | x :: rest =>
    if x = '\r' ∧ rest.head? = some '\n' then ⟨rest.tail, c.index + 2, c.line + 1, 0⟩
    else if isBreak x then ⟨rest, c.index + x.utf8Size, c.line + 1, 0⟩
    else c

/-- Past the rest of the line, its break left in place. -/
def toLineEnd (c : Cursor) : Cursor := c.skipWhile fun x => !isBreak x

/-- Whether the line opens with three times the character, and nothing else in the word. -/
def atMarker (c : Cursor) (mark : Char) : Bool :=
  c.column == 0 && c.peek == some mark && c.peekAt 1 == some mark && c.peekAt 2 == some mark &&
    endsWord (c.peekAt 3)

/-- Whether a marker of either kind opens the line. -/
def atAnyMarker (c : Cursor) : Bool := c.atMarker '-' || c.atMarker '.'

/-- Past the blanks and the comment that may end a line, and past its break. -/
def endLine? (c : Cursor) : Option Cursor :=
  let c := c.skipWhile isBlank
  let c := if c.peek = some '#' then c.toLineEnd else c
  if endsLine c.peek then some c.skipLine else none

end Cursor

/-- Whether a text may stand in a YAML stream at all. -/
def isStreamChar (c : Char) : Bool :=
  let n := c.toNat
  n == 0x09 || n == 0x0A || n == 0x0D || (0x20 ≤ n && n ≤ 0x7E) || n == 0x85 ||
    (0xA0 ≤ n && n ≤ 0xFFFD) || 0x10000 ≤ n

end Methodology.Yaml
