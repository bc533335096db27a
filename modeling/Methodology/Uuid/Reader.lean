import Methodology.Text.Basic
import Methodology.Uuid.Basic
import Methodology.ValueError

/-!
# Reading uuids

A uuid is spelled by its thirty-two digits, plain or in five groups joined by hyphens; the grouped
spelling may stand between braces or behind `urn:uuid:`, small or capital.

* `Uuid.Malformed`: why a text spells no uuid.
* `Uuid.ofChars`: **reading** a spelling.
* `Uuid.read`: reading a field, whose blanks at the ends are ignored.
-/

namespace Methodology.Uuid

/-- Why a text spells no uuid. -/
inductive Malformed
  /-- A character that no spelling has, and the byte it starts at; in a text of a spelling's size
  the bytes are counted behind what the spelling puts in front of its digits. -/
  | character (c : Char) (index : Nat)
  /-- Digits only, but not thirty-two of them, or more bytes than any spelling has. -/
  | length (found : Nat)
  /-- Groups, but not five of them. -/
  | groupCount (found : Nat)
  /-- Five groups, one of which is too short or too long. -/
  | groupLength (group expected found : Nat)
  deriving DecidableEq, Repr

/-- The wording of the reason. -/
def Malformed.message : Malformed → String
  | character c index =>
    "invalid character: found `" ++ c.toString ++ "` at " ++ Text.number index
  | length found => "invalid length: found " ++ Text.number found
  | groupCount found => "invalid group count: expected 5, found " ++ Text.number found
  | groupLength group expected found =>
    "invalid group length in group " ++ Text.number group ++ ": expected " ++
      Text.number expected ++ ", found " ++ Text.number found

/-- The uuid of thirty-two digits. -/
def plain? (cs : List Char) : Option Uuid :=
  if cs.length = 32 then (cs.mapM Text.hexValue?).map ofDigits else none

/-- The uuid of five groups of digits joined by hyphens. -/
def grouped? (cs : List Char) : Option Uuid :=
  if cs.length = 36 ∧ cs[8]? = some '-' ∧ cs[13]? = some '-' ∧ cs[18]? = some '-' ∧
      cs[23]? = some '-' then
    plain? (cs.take 8 ++ (cs.drop 9).take 4 ++ (cs.drop 14).take 4 ++ (cs.drop 19).take 4 ++
      cs.drop 24)
  else none

/-- The places of the hyphens, or the first character that is neither a hyphen nor a digit. -/
def hyphensFrom (offset index : Nat) : List Char → Except Malformed (List Nat)
  | [] => .ok []
  | c :: rest =>
    if c = '-' then (hyphensFrom offset (index + 1) rest).map (index :: ·)
    else if (Text.hexValue? c).isSome then hyphensFrom offset (index + c.utf8Size) rest
    else .error (.character c (offset + index))

/-- The reason for five groups of which one has the wrong length, `size` being the size in bytes of
the whole text. -/
def groupFault (size : Nat) : List Nat → Malformed
  | [a, b, c, d] =>
    if a ≠ 8 then .groupLength 0 8 a
    else if b ≠ 13 then .groupLength 1 4 (b - 9)
    else if c ≠ 18 then .groupLength 2 4 (c - 14)
    else if d ≠ 23 then .groupLength 3 4 (d - 19)
    else .groupLength 4 12 (size - 24)
  | hyphens => .groupCount (hyphens.length + 1)

/-- The mark of the spelling as a name. -/
def urn : List Char := ['u', 'r', 'n', ':', 'u', 'u', 'i', 'd', ':']

/-- The text between braces. -/
def unbraced? (cs : List Char) : Option (List Char) :=
  match cs with
  | '\x7b' :: rest => if rest.getLast? = some '\x7d' then some rest.dropLast else none
  | _ => none

/-- The text behind the mark of a name, whose letters may be capitals. -/
def named? (cs : List Char) : Option (List Char) :=
  if (cs.take 9).map Char.toLower = urn then some (cs.drop 9) else none

/-- Why a text that may hold nothing but digits and hyphens spells no uuid. -/
def groupedFault (cs : List Char) : Malformed :=
  match hyphensFrom 0 0 cs with
  | .error e => e
  | .ok hyphens => groupFault (Text.byteSize cs) hyphens

/-- **Why a text that has no spelling's size or no spelling's frame spells no uuid.** Braces and the
mark of a name are looked behind; a text longer than every spelling is not looked into. -/
def diagnose (cs : List Char) : Malformed :=
  let size := Text.byteSize cs
  let (inner, offset, bare) :=
    match unbraced? cs, named? cs with
    | some inner, _ => (inner, 1, false)
    | none, some inner => (inner, 9, false)
    | none, none => (cs, 0, true)
  if size > 45 then .length size
  else match hyphensFrom offset 0 inner with
    | .error e => e
    | .ok hyphens => if hyphens.isEmpty ∧ bare then .length size else groupFault size hyphens

/-- Reading the grouped spelling. -/
def ofGrouped (cs : List Char) : Except Malformed Uuid :=
  match grouped? cs with
  | some u => .ok u
  | none => .error (groupedFault cs)

/-- **Reading a spelling.** The size of the text in bytes says which spelling it has to be. -/
def ofChars (cs : List Char) : Except Malformed Uuid :=
  match Text.byteSize cs with
  | 32 =>
    match plain? cs with
    | some u => .ok u
    | none => .error (groupedFault cs)
  | 36 => ofGrouped cs
  | 38 =>
    match unbraced? cs with
    | some body => ofGrouped body
    | none => .error (diagnose cs)
  | 45 =>
    match named? cs with
    | some body => ofGrouped body
    | none => .error (diagnose cs)
  | _ => .error (diagnose cs)

/-- **Reading a field** that holds a uuid. -/
def read (s : String) : Except FieldError Uuid :=
  (ofChars (Text.trimBlanks s.toList)).mapError fun e => .uuid .uuid s e.message

end Methodology.Uuid
