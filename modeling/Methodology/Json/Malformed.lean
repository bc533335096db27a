import Methodology.Text.Basic

/-!
# Texts that are no data values

* `Json.Malformed`: what is wrong, and its wording.
* `Json.Position`, `Json.positionAt`: the line and the column of a place in a text, the columns
  counted in bytes.
* `Json.Fault`: what is wrong, and how many bytes are left behind the place where it shows.
-/

namespace Methodology.Json

/-- What is wrong with a text. -/
inductive Malformed
  | endInList
  | endInObject
  | endInString
  | endInValue
  | expectedColon
  | expectedListEnd
  | expectedObjectEnd
  | expectedWord
  | expectedValue
  | invalidEscape
  | invalidNumber
  | numberOutOfRange
  | controlCharacter
  | keyNotString
  | loneSurrogate
  | trailingComma
  | trailingCharacters
  | brokenEscapePair
  | tooDeep
  deriving DecidableEq, Repr

/-- The wording. -/
def Malformed.message : Malformed → String
  | endInList => "EOF while parsing a list"
  | endInObject => "EOF while parsing an object"
  | endInString => "EOF while parsing a string"
  | endInValue => "EOF while parsing a value"
  | expectedColon => "expected `:`"
  | expectedListEnd => "expected `,` or `]`"
  | expectedObjectEnd => "expected `,` or `\x7d`"
  | expectedWord => "expected ident"
  | expectedValue => "expected value"
  | invalidEscape => "invalid escape"
  | invalidNumber => "invalid number"
  | numberOutOfRange => "number out of range"
  | controlCharacter => "control character (\\u0000-\\u001F) found while parsing a string"
  | keyNotString => "key must be a string"
  | loneSurrogate => "lone leading surrogate in hex escape"
  | trailingComma => "trailing comma"
  | trailingCharacters => "trailing characters"
  | brokenEscapePair => "unexpected end of hex escape"
  | tooDeep => "recursion limit exceeded"

/-- What is wrong, and the bytes that are left behind the place where it shows. -/
structure Fault where
  cause : Malformed
  left : Nat
  deriving DecidableEq, Repr

/-- A fault that shows so many bytes into a rest of the text, or at its end. -/
def fault (cause : Malformed) (rest : List Char) (ahead : Nat) : Fault :=
  ⟨cause, Text.byteSize rest - ahead⟩

/-- A line, counted from 1, and the bytes of the line that come before a place. -/
structure Position where
  line : Nat
  column : Nat
  deriving DecidableEq, Repr

/-- The position so many bytes after another one. -/
def Position.advance (p : Position) : List Char → Nat → Position
  | [], _ => p
  | c :: rest, bytes =>
    if bytes = 0 then p
    else if c = '\n' then (⟨p.line + 1, 0⟩ : Position).advance rest (bytes - 1)
    else if bytes < c.utf8Size then { p with column := p.column + bytes }
    else ({ p with column := p.column + c.utf8Size } : Position).advance rest (bytes - c.utf8Size)

/-- The position in a text behind which so many bytes are left. -/
def positionAt (text : List Char) (left : Nat) : Position :=
  (⟨1, 0⟩ : Position).advance text (Text.byteSize text - left)

/-- A message with the position it speaks of. -/
def located (message : String) (text : List Char) (left : Nat) : String :=
  let p := positionAt text left
  message ++ " at line " ++ Text.number p.line ++ " column " ++ Text.number p.column

/-- The message about a fault in a text. -/
def Fault.message (text : List Char) (f : Fault) : String := located f.cause.message text f.left

end Methodology.Json
