/-!
# Blanks and digits

* `isBlank`: the characters with the Unicode property `White_Space`.
* `trimBlanks`, `trim`: a text without the blanks at its two ends.
* `foldCase`: a text with its ASCII capitals made small.
* `digitValue?`, `hexValue?`: the number a digit stands for.
* `decimal`, `padded`: a number in decimal, and with leading zeros up to a width.
* `hex`: a number in hexadecimal with small letters.
* `number`: the text of a number in decimal.
* `byteSize`: the size of a text in bytes.
-/

namespace Methodology.Text

/-! ## Blanks -/

/-- A character with the Unicode property `White_Space`. -/
def isBlank (c : Char) : Bool :=
  let n := c.toNat
  (9 ≤ n && n ≤ 13) || n == 0x20 || n == 0x85 || n == 0xA0 || n == 0x1680 ||
    (0x2000 ≤ n && n ≤ 0x200A) || n == 0x2028 || n == 0x2029 || n == 0x202F ||
    n == 0x205F || n == 0x3000

/-- The characters without the blanks at either end. -/
def trimBlanks (cs : List Char) : List Char :=
  ((cs.dropWhile isBlank).reverse.dropWhile isBlank).reverse

/-- **Trimming.** The text without the blanks at either end; a text that loses nothing, which its
size in bytes tells, is kept as it is. -/
@[irreducible] def trim (s : String) : String :=
  let kept := String.ofList (trimBlanks s.toList)
  if kept.utf8ByteSize = s.utf8ByteSize then s else kept

/-- The text with its ASCII capitals made small and every other character kept. -/
def foldCase (s : String) : String := s.map Char.toLower

/-! ## Digits -/

/-- The value of an ASCII decimal digit. -/
def digitValue? (c : Char) : Option Nat :=
  if '0' ≤ c ∧ c ≤ '9' then some (c.toNat - '0'.toNat) else none

/-- The value of an ASCII hexadecimal digit, of either case. -/
def hexValue? (c : Char) : Option Nat :=
  if '0' ≤ c ∧ c ≤ '9' then some (c.toNat - '0'.toNat)
  else if 'a' ≤ c ∧ c ≤ 'f' then some (c.toNat - 'a'.toNat + 10)
  else if 'A' ≤ c ∧ c ≤ 'F' then some (c.toNat - 'A'.toNat + 10)
  else none

/-- Whether the character is an ASCII decimal digit. -/
def isDigit (c : Char) : Bool := (digitValue? c).isSome

/-- The digits of a number in decimal. -/
def decimal (n : Nat) : List Char := Nat.toDigits 10 n

/-- The digits of a number in hexadecimal, with small letters. -/
def hex (n : Nat) : List Char := Nat.toDigits 16 n

/-- The text with as many zeros in front as make it `width` long. -/
def padded (width : Nat) (digits : List Char) : List Char :=
  List.replicate (width - digits.length) '0' ++ digits

/-- The text of a number in decimal. -/
def number (n : Nat) : String := String.ofList (decimal n)

/-- The text of a whole number in decimal. -/
def integer (n : Int) : String :=
  String.ofList (if n < 0 then '-' :: decimal n.natAbs else decimal n.natAbs)

/-- The size of a text in bytes. -/
def byteSize : List Char → Nat
  | [] => 0
  | c :: cs => c.utf8Size + byteSize cs

end Methodology.Text
