import Methodology.Text.Basic

/-!
# Uuids

* `Uuid`: an identifier of 128 bits; `Uuid.nil`, `Uuid.version`.
* `Uuid.digits`, `Uuid.ofDigits`: its thirty-two hexadecimal digits, the highest first.
* `Uuid.toText`: **the text of a uuid**, five groups of small digits joined by hyphens.
* `Uuid.ofRandomBytes`: sixteen bytes with the version and the variant of a random uuid.
-/

namespace Methodology

/-- An identifier of 128 bits. -/
structure Uuid where
  bits : BitVec 128
  deriving DecidableEq, Repr

namespace Uuid

/-- The uuid without a bit set. -/
def nil : Uuid := ⟨0⟩

/-- The digit at a place, counted from the left. -/
def digit (u : Uuid) (i : Nat) : Nat := u.bits.toNat / Nat.pow 16 (31 - i) % 16

/-- The thirty-two digits. -/
def digits (u : Uuid) : List Nat := (List.range 32).map u.digit

/-- The uuid with these digits. -/
def ofDigits (ds : List Nat) : Uuid := ⟨BitVec.ofNat 128 (ds.foldl (fun n d => 16 * n + d) 0)⟩

/-- The version number, which stands in the thirteenth digit. -/
def version (u : Uuid) : Nat := u.digit 12

/-- The small hexadecimal digit of a number below sixteen. -/
def digitChar (d : Nat) : Char := Nat.digitChar d

/-- Five groups of digits joined by hyphens. -/
def grouped (cs : List Char) : List Char :=
  cs.take 8 ++ '-' :: (cs.drop 8).take 4 ++ '-' :: (cs.drop 12).take 4 ++
    '-' :: (cs.drop 16).take 4 ++ '-' :: cs.drop 20

/-- **The text of a uuid.** -/
def toText (u : Uuid) : String := String.ofList (grouped (u.digits.map digitChar))

/-- The bits with the version 4 and the variant of the standard in place. -/
def asRandom (bits : BitVec 128) : BitVec 128 :=
  (bits &&& 0xFFFFFFFFFFFF0FFF3FFFFFFFFFFFFFFF#128) ||| 0x00000000000040008000000000000000#128

/-- The random uuid made of sixteen bytes. -/
def ofRandomBytes (bytes : List Nat) : Uuid :=
  ⟨asRandom (BitVec.ofNat 128 (bytes.foldl (fun n b => 256 * n + b % 256) 0))⟩

end Uuid

end Methodology
