import Methodology.Text.Basic
import Methodology.Yaml.Cursor
import Methodology.Yaml.Token

/-!
# Tags, names and directives

* `wordAt`: a name of letters, digits, hyphens and underscores.
* `uriChars`: the characters of a tag, with the escaped ones.
* `tagToken`, `anchorName`, `directiveToken`: **the tokens** that start with `!`, with `&` or `*`,
  and with `%`.
-/

namespace Methodology.Yaml

/-- A name, which may be empty. -/
def wordAt (c : Cursor) : List Char × Cursor :=
  let word := c.rest.takeWhile isWordChar
  (word, c.skip word.length)

/-- A byte written as a percent sign and two digits. -/
def escapedByte (c : Cursor) : Option (Nat × Cursor) := do
  let high ← (c.peekAt 1).bind Text.hexValue?
  let low ← (c.peekAt 2).bind Text.hexValue?
  if c.peek = some '%' then some (16 * high + low, c.skip 3) else none

/-- The bytes that go on with a character, each adding six bits to its number. -/
def trailingBytes : Nat → Nat → Cursor → Option (Nat × Cursor)
  | 0, code, c => some (code, c)
  | n + 1, code, c => do
    let (byte, c) ← escapedByte c
    if byte / 64 = 2 then trailingBytes n (64 * code + byte % 64) c else none

/-- The character of a number that takes `size` bytes to write; a number that takes fewer bytes, or
is that of no character, has none. -/
def charOfBytes? (size code : Nat) : Option Char :=
  if h : code.isValidChar then
    let c := Char.ofNatAux code h
    if c.utf8Size = size then some c else none
  else none

/-- A character written as escaped bytes; the bytes say how many they are, and may spell none. -/
def escapedUriChar (c : Cursor) : Option (Option Char × Cursor) := do
  let (byte, c) ← escapedByte c
  let (size, start) ←
    if byte < 128 then some (1, byte)
    else if byte / 32 = 6 then some (2, byte % 32)
    else if byte / 16 = 14 then some (3, byte % 16)
    else if byte / 8 = 30 then some (4, byte % 8)
    else none
  let (code, c) ← trailingBytes (size - 1) start c
  some (charOfBytes? size code, c)

/-- A character of a tag; commas and square brackets belong to verbatim ones only. -/
def isUriChar (verbatim : Bool) (c : Char) : Bool :=
  isWordChar c || [';', '/', '?', ':', '@', '&', '=', '+', '$', '.', '%', '!', '~', '*', '\'', '(',
    ')'].contains c || (verbatim && (c == ',' || c == '[' || c == ']'))

/-- The characters of a tag up to the first that is none. -/
def uriChars (verbatim : Bool) : Nat → Cursor → Option (TagText × Cursor)
  | 0, c => some ([], c)
  | fuel + 1, c =>
    match c.peek with
    | none => some ([], c)
    | some x =>
      if !isUriChar verbatim x then some ([], c)
      else do
        let (x, c) ← if x = '%' then escapedUriChar c else some (some x, c.skip 1)
        let (more, c) ← uriChars verbatim fuel c
        some (x :: more, c)

/-- What counts of the characters of a tag: those in front of a null character. -/
def upToNull (chars : TagText) : TagText := chars.takeWhile (· ≠ some '\x00')

/-- The characters of a tag, at least one. -/
def uri (verbatim : Bool) (c : Cursor) : Option (TagText × Cursor) := do
  let (chars, c) ← uriChars verbatim c.rest.length c
  if chars.isEmpty then none else some (upToNull chars, c)

/-- A handle: an exclamation mark, a name and perhaps another exclamation mark. -/
def tagHandle (c : Cursor) : Option (List Char × Cursor) :=
  if c.peek ≠ some '!' then none
  else
    let (word, c) := wordAt (c.skip 1)
    if c.peek = some '!' then some ('!' :: word ++ ['!'], c.skip 1) else some ('!' :: word, c)

/-- A tag up to its end. -/
def tagParts (c : Cursor) : Option (Token × Cursor) :=
  if c.peekAt 1 = some '<' then do
    let (suffix, c) ← uri true (c.skip 2)
    if c.peek = some '>' then some (.tag [] suffix, c.skip 1) else none
  else do
    let (handle, c) ← tagHandle c
    if handle.length > 1 ∧ handle.getLast? = some '!' then do
      let (suffix, c) ← uri false c
      some (.tag handle suffix, c)
    else do
      let (more, c) ← uriChars false c.rest.length c
      let suffix := upToNull (handle.tail.map some ++ more)
      some (if suffix.isEmpty then .tag [] [some '!'] else .tag ['!'] suffix, c)

/-- **A tag**, which ends a word or, in a flow collection, stands in front of a comma. -/
def tagToken (flow : Bool) (c : Cursor) : Option (Token × Cursor) := do
  let (token, c) ← tagParts c
  if endsWord c.peek || (flow && c.peek == some ',') then some (token, c) else none

/-- **The name of an anchor** or a reference, behind its mark. -/
def anchorName (c : Cursor) : Option (List Char × Cursor) :=
  let (name, c) := wordAt c
  let ends := endsWord c.peek ||
    c.peek.any fun x => ['?', ':', ',', ']', '\x7d', '%', '@', '\x60'].contains x
  if !name.isEmpty && ends then some (name, c) else none

/-- A number of at most nine digits. -/
def versionNumber (c : Cursor) : Option (Nat × Cursor) :=
  let digits := c.rest.takeWhile Text.isDigit
  if digits.isEmpty ∨ digits.length > 9 then none
  else some (digits.foldl (fun n d => 10 * n + (Text.digitValue? d).getD 0) 0, c.skip digits.length)

/-- The directive that states a version, behind its name. -/
def versionDirective (c : Cursor) : Option (Token × Cursor) := do
  let (major, c) ← versionNumber (c.skipWhile isBlank)
  if c.peek ≠ some '.' then none
  else
    let (minor, c) ← versionNumber (c.skip 1)
    some (.version major minor, c)

/-- The directive that gives a handle its meaning, behind its name. -/
def handleDirective (c : Cursor) : Option (Token × Cursor) := do
  let (handle, c) ← tagHandle (c.skipWhile isBlank)
  if handle.length > 1 ∧ handle.getLast? ≠ some '!' then none
  else if !c.peek.any isBlank then none
  else
    let (meaning, c) ← uri true (c.skipWhile isBlank)
    if endsWord c.peek then some (.handle handle meaning, c) else none

/-- **A directive**, from its percent sign to the end of its line. -/
def directiveToken (c : Cursor) : Option (Token × Cursor) := do
  let (name, c) := wordAt (c.skip 1)
  if !endsWord c.peek then none
  else
    let (token, c) ←
      if name = ['Y', 'A', 'M', 'L'] then versionDirective c
      else if name = ['T', 'A', 'G'] then handleDirective c
      else none
    let c ← c.endLine?
    some (token, c)

end Methodology.Yaml
