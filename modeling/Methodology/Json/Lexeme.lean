import Methodology.Json.Basic
import Methodology.Json.Malformed

/-!
# Words, numbers and texts of the notation

Each reader takes the rest of the text and gives what it read with what is left.

* `Json.skipBlanks`: past the blanks of the notation.
* `Json.word`: the letters of `null`, `true` and `false`.
* `Json.stringFrom`: **a text**, behind its opening quote.
* `Json.numberFrom`: **a number**, behind its sign.
-/

namespace Methodology.Json

/-- A blank of the notation. -/
def isBlank (c : Char) : Bool := c == ' ' || c == '\n' || c == '\t' || c == '\r'

/-- The text behind the blanks at its start. -/
def skipBlanks (cs : List Char) : List Char := cs.dropWhile isBlank

/-- The letters that complete a word. -/
def word : List Char → List Char → Except Fault (List Char)
  | [], cs => .ok cs
  | _ :: _, [] => .error (fault .endInValue [] 0)
  | w :: ws, c :: cs => if c = w then word ws cs else .error (fault .expectedWord (c :: cs) 1)

/-! ## Texts -/

/-- Four hexadecimal digits. -/
def hexFour (cs : List Char) : Except Fault (Nat × List Char) :=
  if Text.byteSize cs < 4 then .error (fault .endInString [] 0)
  else
    match (cs.take 4).mapM Text.hexValue? with
    | some ds => .ok (ds.foldl (fun n d => 16 * n + d) 0, cs.drop 4)
    | none => .error (fault .invalidEscape cs 4)

/-- One character, as a fault when the text ends. -/
def oneOf (cs : List Char) : Except Fault (Char × List Char) :=
  match cs with
  | [] => .error (fault .endInString [] 0)
  | c :: rest => .ok (c, rest)

/-- The second half of a pair of escapes, behind the first half. -/
def lowSurrogate (high : Nat) (cs : List Char) : Except Fault (Char × List Char) := do
  let (c, rest) ← oneOf cs
  if c ≠ '\\' then .error (fault .brokenEscapePair cs 1)
  else
    let (c, rest') ← oneOf rest
    if c ≠ 'u' then .error (fault .brokenEscapePair rest 1)
    else
      let (low, rest) ← hexFour rest'
      if 0xDC00 ≤ low ∧ low ≤ 0xDFFF then
        .ok (Char.ofNat (0x10000 + (high - 0xD800) * 0x400 + (low - 0xDC00)), rest)
      else .error (fault .loneSurrogate rest 0)

/-- The character of an escape, behind the backslash. -/
def escape (cs : List Char) : Except Fault (Char × List Char) := do
  let (c, rest) ← oneOf cs
  match c with
  | '"' => .ok ('"', rest)
  | '\\' => .ok ('\\', rest)
  | '/' => .ok ('/', rest)
  | 'b' => .ok ('\x08', rest)
  | 'f' => .ok ('\x0c', rest)
  | 'n' => .ok ('\n', rest)
  | 'r' => .ok ('\r', rest)
  | 't' => .ok ('\t', rest)
  | 'u' =>
    let (n, rest) ← hexFour rest
    if 0xDC00 ≤ n ∧ n ≤ 0xDFFF then .error (fault .loneSurrogate rest 0)
    else if 0xD800 ≤ n ∧ n ≤ 0xDBFF then lowSurrogate n rest
    else .ok (Char.ofNat n, rest)
  | _ => .error (fault .invalidEscape cs 1)

/-- The characters of a text up to its closing quote; `fuel` bounds their number. -/
def charsFrom : Nat → List Char → Except Fault (List Char × List Char)
  | 0, _ => .error (fault .endInString [] 0)
  | _ + 1, [] => .error (fault .endInString [] 0)
  | fuel + 1, c :: cs =>
    if c = '"' then .ok ([], cs)
    else if c = '\\' then do
      let (e, cs) ← escape cs
      let (s, rest) ← charsFrom fuel cs
      .ok (e :: s, rest)
    else if c.toNat < 0x20 then .error (fault .controlCharacter (c :: cs) 1)
    else do
      let (s, rest) ← charsFrom fuel cs
      .ok (c :: s, rest)

/-- **A text**, behind its opening quote. -/
def stringFrom (cs : List Char) : Except Fault (String × List Char) := do
  let (s, rest) ← charsFrom (cs.length + 1) cs
  .ok (String.ofList s, rest)

/-! ## Numbers -/

/-- The digits taken into a significand while it keeps below `2 ^ 64`: the significand, how many
digits were taken, and the rest. -/
def significand (soFar taken : Nat) : List Char → Nat × Nat × List Char
  | [] => (soFar, taken, [])
  | c :: cs =>
    match Text.digitValue? c with
    | some d =>
      if 10 * soFar + d < Width.values 64 then significand (10 * soFar + d) (taken + 1) cs
      else (soFar, taken, c :: cs)
    | none => (soFar, taken, c :: cs)

/-- The text behind the digits at its start, and how many they are. -/
def skipDigits (cs : List Char) : Nat × List Char :=
  ((cs.takeWhile Text.isDigit).length, cs.dropWhile Text.isDigit)

/-- The real number of a significand and a power of ten. -/
def realFrom (negative : Bool) (digits : Nat) (power : Int) (cs : List Char) :
    Except Fault (Number × List Char) :=
  match Binary64.ofScaled digits power with
  | some x => .ok (.real (x.signed negative), cs)
  | none => .error (fault .numberOutOfRange cs 0)

/-- The digits of an exponent, while it keeps within 32 bits: whether it did, the exponent and the
rest. -/
def exponentDigits (soFar : Nat) : List Char → Bool × Nat × List Char
  | [] => (true, soFar, [])
  | c :: cs =>
    match Text.digitValue? c with
    | some d =>
      if 10 * soFar + d < Width.values 31 then exponentDigits (10 * soFar + d) cs
      else (false, soFar, cs)
    | none => (true, soFar, c :: cs)

/-- An exponent within 32 bits. -/
def clamped (e : Int) : Int := max (-(Width.values 31 : Int)) (min e ((Width.values 31 : Int) - 1))

/-- A number behind the letter of its exponent. -/
def exponentFrom (negative : Bool) (digits : Nat) (power : Int) (cs : List Char) :
    Except Fault (Number × List Char) :=
  let (down, cs) := match cs with
    | '+' :: rest => (false, rest)
    | '-' :: rest => (true, rest)
    | _ => (false, cs)
  match cs with
  | [] => .error (fault .endInValue [] 0)
  | c :: _ =>
    if Text.isDigit c then
      match exponentDigits 0 cs with
      | (true, e, rest) =>
        realFrom negative digits (clamped (if down then power - e else power + e)) rest
      | (false, _, rest) =>
        if digits ≠ 0 ∧ !down then .error (fault .numberOutOfRange rest 0)
        else .ok (.real (Binary64.zero.signed negative), (skipDigits rest).2)
    else .error (fault .invalidNumber cs 1)

/-- What may follow the digits of a real number: an exponent, or nothing. -/
def realTail (negative : Bool) (digits : Nat) (power : Int) :
    List Char → Except Fault (Number × List Char)
  | 'e' :: cs => exponentFrom negative digits power cs
  | 'E' :: cs => exponentFrom negative digits power cs
  | cs => realFrom negative digits power cs

/-- A number behind its point; `power` is that of the digits in front of it. -/
def pointFrom (negative : Bool) (digits : Nat) (power : Int) (cs : List Char) :
    Except Fault (Number × List Char) :=
  match cs with
  | [] => .error (fault .endInValue [] 0)
  | c :: _ =>
    if Text.isDigit c then
      let (digits, taken, rest) := significand digits 0 cs
      realTail negative digits (power - taken) (skipDigits rest).2
    else .error (fault .invalidNumber cs 1)

/-- A number whose digits in front of the point are a significand and so many more digits. -/
def numberTail (negative : Bool) (digits more : Nat) (cs : List Char) :
    Except Fault (Number × List Char) :=
  match cs with
  | '.' :: rest => pointFrom negative digits more rest
  | 'e' :: rest => exponentFrom negative digits more rest
  | 'E' :: rest => exponentFrom negative digits more rest
  | _ =>
    if more > 0 then realFrom negative digits more cs
    else if !negative then .ok (.integer digits, cs)
    else if digits = 0 ∨ digits > Width.values 63 then realFrom negative digits 0 cs
    else .ok (.integer (-digits), cs)

/-- **A number**, behind its sign. -/
def numberFrom (negative : Bool) (cs : List Char) : Except Fault (Number × List Char) :=
  match cs with
  | [] => .error (fault .endInValue [] 0)
  | '0' :: rest =>
    if (rest.head?.map Text.isDigit).getD false then .error (fault .invalidNumber rest 1)
    else numberTail negative 0 0 rest
  | c :: _ =>
    if Text.isDigit c then
      let (digits, _, rest) := significand 0 0 cs
      let (more, rest) := skipDigits rest
      numberTail negative digits more rest
    else .error (fault .invalidNumber cs 1)

end Methodology.Json
