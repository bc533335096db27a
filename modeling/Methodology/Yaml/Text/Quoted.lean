import Methodology.Text.Basic
import Methodology.Yaml.Text.Gap

/-!
# Quoted scalars

* `escape`: an escape sequence, behind its backslash.
* `quotedRun`: a run of characters without blanks.
* `quotedScalar`: **a quoted scalar**, runs with gaps between them, from behind its opening quote.
-/

namespace Methodology.Yaml

/-- How a scalar is quoted. -/
inductive Quote
  | single
  | double
  deriving DecidableEq, Repr

/-- The mark of a way of quoting. -/
def Quote.mark : Quote → Char
  | single => '\''
  | double => '"'

/-- A character given by so many hexadecimal digits; surrogates are none. -/
def hexChar (n : Nat) (c : Cursor) : Option (Char × Cursor) := do
  let ds ← (c.rest.take n).mapM Text.hexValue?
  let code := ds.foldl (fun m d => 16 * m + d) 0
  if ds.length = n ∧ (code < 0xD800 ∨ (0xDFFF < code ∧ code ≤ 0x10FFFF)) then
    some (Char.ofNat code, c.skip n)
  else none

/-- The character that a letter behind a backslash stands for. -/
def escapedChar? : Char → Option Char
  | '0' => some '\x00'
  | 'a' => some '\x07'
  | 'b' => some '\x08'
  | 't' => some '\t'
  | '\t' => some '\t'
  | 'n' => some '\n'
  | 'v' => some '\x0b'
  | 'f' => some '\x0c'
  | 'r' => some '\r'
  | 'e' => some '\x1b'
  | ' ' => some ' '
  | '"' => some '"'
  | '/' => some '/'
  | '\\' => some '\\'
  | 'N' => some '\u0085'
  | '_' => some '\u00a0'
  | 'L' => some '\u2028'
  | 'P' => some '\u2029'
  | _ => none

/-- The character of an escape, behind its backslash. -/
def escape (c : Cursor) : Option (Char × Cursor) :=
  match c.peek with
  | none => none
  | some 'x' => hexChar 2 (c.skip 1)
  | some 'u' => hexChar 4 (c.skip 1)
  | some 'U' => hexChar 8 (c.skip 1)
  | some x => (escapedChar? x).map fun e => (e, c.skip 1)

/-- A run of characters up to a blank, a break or the closing quote; an escaped line break ends it
too, and then the answer says so. -/
def quotedRun (q : Quote) : Nat → Cursor → Option (List Char × Cursor × Bool)
  | 0, _ => none
  | fuel + 1, c =>
    match c.rest with
    | [] => some ([], c, false)
    | x :: rest =>
      if isBlank x || isBreak x then some ([], c, false)
      else if x = q.mark then
        if q = .single ∧ rest.head? = some x then
          (quotedRun q fuel (c.skip 2)).map fun (run, more) => (x :: run, more)
        else some ([], c, false)
      else if q = .double ∧ x = '\\' then
        if rest.head?.any isBreak then some ([], (c.skip 1).skipLine, true)
        else do
          let (e, c) ← escape (c.skip 1)
          let (run, more) ← quotedRun q fuel c
          some (e :: run, more)
      else (quotedRun q fuel (c.skip 1)).map fun (run, more) => (x :: run, more)

/-- A quoted scalar whose text so far is `text`. -/
def quotedFrom (q : Quote) : Nat → List Char → Cursor → Option (List Char × Cursor)
  | 0, _, _ => none
  | fuel + 1, text, c =>
    if c.atAnyMarker || c.peek.isNone then none
    else do
      let (run, c, escapedBreak) ← quotedRun q (c.rest.length + 1) c
      if c.peek = some q.mark then some (text ++ run, c.skip 1)
      else if escapedBreak then do
        let g ← gapFrom 0 (c.rest.length + 1) { Gap.start c with breaks := ['\n'] }
        quotedFrom q fuel (text ++ run ++ g.breaks.tail) g.next
      else do
        let g ← gapFrom 0 (c.rest.length + 1) (Gap.start c)
        quotedFrom q fuel (text ++ run ++ g.folded) g.next

/-- **A quoted scalar**, from behind its opening quote. -/
def quotedScalar (q : Quote) (c : Cursor) : Option (List Char × Cursor) :=
  quotedFrom q (c.rest.length + 1) [] c

end Methodology.Yaml
