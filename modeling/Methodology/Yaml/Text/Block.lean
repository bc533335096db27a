import Methodology.Text.Basic
import Methodology.Yaml.Cursor

/-!
# Block scalars

* `Chomp`, `BlockHeader`: what the first line of a block scalar says.
* `blockBreaks`: the indentation and the empty lines in front of a line of text.
* `blockScalar`: **a block scalar**, from behind its indicator.
-/

namespace Methodology.Yaml

/-- What becomes of the line breaks at the end. -/
inductive Chomp
  | strip
  | clip
  | keep
  deriving DecidableEq, Repr

/-- What the first line says: the fate of the last line breaks, and the indentation of the text
against what is around it, or 0 when the text itself shows it. -/
structure BlockHeader where
  chomp : Chomp
  increment : Nat
  deriving DecidableEq, Repr

/-- The indentation that a header states for a block that stands in `around`, or 0. -/
def BlockHeader.stated (h : BlockHeader) (around : Int) : Nat :=
  if h.increment = 0 then 0 else (max around 0).toNat + h.increment

/-- The fate that a sign asks for. -/
def chompSign? : Option Char → Option Chomp
  | some '+' => some .keep
  | some '-' => some .strip
  | _ => none

/-- The digit that states an indentation; a zero is refused. -/
def increment? (c : Cursor) : Option (Nat × Cursor) :=
  match c.peek.bind Text.digitValue? with
  | none => some (0, c)
  | some 0 => none
  | some d => some (d, c.skip 1)

/-- The header: a sign and a digit in either order, each of which may be missing. -/
def blockHeader (c : Cursor) : Option (BlockHeader × Cursor) :=
  match chompSign? c.peek with
  | some chomp => (increment? (c.skip 1)).map fun (n, c) => (⟨chomp, n⟩, c)
  | none => do
    let (n, c) ← increment? c
    match (if n = 0 then none else chompSign? c.peek) with
    | some chomp => some (⟨chomp, n⟩, c.skip 1)
    | none => some (⟨.clip, n⟩, c)

/-- Past the spaces of the indentation, which ends at `indent` unless that is still open. -/
def indentation (indent : Nat) (c : Cursor) : Cursor :=
  let spaces := (c.rest.takeWhile (· == ' ')).length
  c.skip (if indent = 0 then spaces else min spaces (indent - c.column))

/-- Past the empty lines and the indentation in front of a line of text: the line breaks, the place
behind them and the widest indentation seen. A tab in the indentation is refused. -/
def blockBreaks (indent : Nat) : Nat → Nat → Cursor → Option (List Char × Cursor × Nat)
  | 0, _, _ => none
  | fuel + 1, widest, c =>
    let c := indentation indent c
    let widest := max widest c.column
    match c.peek with
    | none => some ([], c, widest)
    | some x =>
      if x = '\t' ∧ (indent = 0 ∨ c.column < indent) then none
      else if isBreak x then
        (blockBreaks indent fuel widest c.skipLine).map fun (breaks, more) =>
          (breakChar x :: breaks, more)
      else some ([], c, widest)

/-- A block scalar while its lines are read: the text, the break of the last line and the empty
lines behind it. -/
structure BlockText where
  text : List Char
  lastBreak : List Char
  emptyLines : List Char
  /-- Whether the last line starts with a blank. -/
  indented : Bool

/-- The text with the line breaks in front of a new line, which folding may turn into a space. -/
def BlockText.joined (b : BlockText) (literal startsBlank : Bool) : List Char :=
  if !literal && b.lastBreak == ['\n'] && !b.indented && !startsBlank then
    b.text ++ (if b.emptyLines.isEmpty then [' '] else b.emptyLines)
  else b.text ++ b.lastBreak ++ b.emptyLines

/-- The lines of text at the indentation. -/
def blockLines (literal : Bool) (indent : Nat) :
    Nat → BlockText → Cursor → Option (BlockText × Cursor)
  | 0, _, _ => none
  | fuel + 1, b, c =>
    match c.peek with
    | none => some (b, c)
    | some x =>
      if c.column ≠ indent then some (b, c)
      else do
        let startsBlank := isBlank x
        let line := c.rest.takeWhile fun y => !isBreak y
        let text := b.joined literal startsBlank ++ line
        let c := c.skip line.length
        let lastBreak := (c.peek.map breakChar).toList
        let (emptyLines, c, _) ← blockBreaks indent (c.rest.length + 1) 0 c.skipLine
        blockLines literal indent fuel ⟨text, lastBreak, emptyLines, startsBlank⟩ c

/-- The text of a block scalar with its last line breaks. -/
def BlockText.chomped (b : BlockText) : Chomp → List Char
  | .strip => b.text
  | .clip => b.text ++ b.lastBreak
  | .keep => b.text ++ b.lastBreak ++ b.emptyLines

/-- **A block scalar**, from behind its indicator; `around` is the indentation of what it stands in,
or -1. -/
def blockScalar (literal : Bool) (around : Int) (c : Cursor) : Option (List Char × Cursor) := do
  let (header, c) ← blockHeader c
  let c ← c.endLine?
  let stated := header.stated around
  let (breaks, c, widest) ← blockBreaks stated (c.rest.length + 1) 0 c
  let indent := if stated = 0 then max widest (max (around + 1) 1).toNat else stated
  let (b, c) ← blockLines literal indent (c.rest.length + 1) ⟨[], [], breaks, false⟩ c
  some (b.chomped header.chomp, c)

end Methodology.Yaml
