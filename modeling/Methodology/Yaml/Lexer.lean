import Methodology.Yaml.Tag
import Methodology.Yaml.Text.Block
import Methodology.Yaml.Text.Plain
import Methodology.Yaml.Text.Quoted

/-!
# From a text to its tokens

Indentation makes tokens of its own, and a colon makes a key of what stands in front of it, so the
lexer keeps the indentations that are open and the places where a key may have started.

* `KeyStart`, `Lexer`: the state of the lexer.
* `Lexer.roll`, `Lexer.unroll`: the start and the end of a block collection.
* `Lexer.step`: the next token.
* `tokens`: **the tokens of a text**, or none when it is malformed.
-/

namespace Methodology.Yaml

/-- A place where a key may have started: how many tokens stand in front of it, where it is, and
whether nothing but a key may stand there. -/
structure KeyStart where
  tokensBefore : Nat
  index : Nat
  line : Nat
  column : Nat
  required : Bool
  deriving Repr

/-- The state of the lexer. -/
structure Lexer where
  cursor : Cursor
  /-- The tokens so far, the last one first. -/
  tokens : List Token
  /-- The column of the innermost block collection, or -1. -/
  indent : Int
  /-- The columns of the block collections around it. -/
  outer : List Int
  /-- Whether a key may start here. -/
  keyAllowed : Bool
  /-- Where a key may have started that is still open. -/
  keyStart : Option KeyStart
  /-- The same for each of the flow collections that are open, the innermost first. -/
  flow : List (Option KeyStart)
  deriving Repr

namespace Lexer

/-- The lexer in front of a text. -/
def start (text : List Char) : Lexer := ⟨Cursor.start text, [], -1, [], true, none, []⟩

/-- Whether a flow collection is open. -/
def inFlow (l : Lexer) : Bool := !l.flow.isEmpty

/-- The lexer with one more token. -/
def emit (l : Lexer) (t : Token) : Lexer := { l with tokens := t :: l.tokens }

/-- The lexer with a token put behind the first `n`. -/
def insert (l : Lexer) (n : Nat) (t : Token) : Lexer :=
  let later := l.tokens.length - n
  { l with tokens := l.tokens.take later ++ t :: l.tokens.drop later }

/-- The lexer past so many characters. -/
def skip (l : Lexer) (n : Nat) : Lexer := { l with cursor := l.cursor.skip n }

/-- A new block collection at a column that lies further in; its token goes behind the first
`place`. -/
def roll (l : Lexer) (column place : Nat) (t : Token) : Lexer :=
  if l.inFlow || l.indent ≥ column then l
  else { l.insert place t with indent := column, outer := l.indent :: l.outer }

/-- The block collections that lie further in than a column end. -/
def unrollTo (column : Int) : List Int → Lexer → Lexer
  | [], l => l
  | around :: more, l =>
    if l.indent > column then
      unrollTo column more { l.emit .blockEnd with indent := around, outer := more }
    else l

/-- The block collections that lie further in than a column end, unless a flow collection is open.
-/
def unroll (l : Lexer) (column : Int) : Lexer :=
  if l.inFlow then l else unrollTo column l.outer l

/-- No key is open any more; one that has to be there is missed. -/
def dropKey (l : Lexer) : Option Lexer :=
  if l.keyStart.any KeyStart.required then none else some { l with keyStart := none }

/-- A key may start here. -/
def saveKey (l : Lexer) : Option Lexer :=
  if l.keyAllowed then do
    let l ← l.dropKey
    let c := l.cursor
    some { l with keyStart := some ⟨l.tokens.length, c.index, c.line, c.column,
      !l.inFlow && l.indent == c.column⟩ }
  else some l

/-- Whether a key that started there can no longer end here: it keeps to its line and to 1024
bytes. -/
def isStale (c : Cursor) (k : KeyStart) : Bool := k.line < c.line || k.index + 1024 < c.index

/-- A key start that is stale is given up; one that has to be there is missed. -/
def refreshKey (c : Cursor) : Option KeyStart → Option (Option KeyStart)
  | none => some none
  | some k => if isStale c k then (if k.required then none else some none) else some (some k)

/-- All key starts that are stale are given up. -/
def refresh (l : Lexer) : Option Lexer := do
  let keyStart ← refreshKey l.cursor l.keyStart
  let flow ← l.flow.mapM (refreshKey l.cursor)
  some { l with keyStart := keyStart, flow := flow }

/-- The mark of the byte order. -/
def byteOrderMark : Char := '\ufeff'

/-- Past the blanks, comments and line breaks in front of the next token, and past a mark of the
byte order in front of a line, which counts as a column of it. -/
def toNextToken : Nat → Lexer → Lexer
  | 0, l => l
  | fuel + 1, l =>
    let c := l.cursor
    let c := if c.column = 0 ∧ c.peek = some byteOrderMark then c.skip 1 else c
    let c := c.skipWhile fun x => x == ' ' || ((l.inFlow || !l.keyAllowed) && x == '\t')
    let c := if c.peek = some '#' then c.toLineEnd else c
    if c.peek.any isBreak then
      toNextToken fuel { l with cursor := c.skipLine, keyAllowed := l.keyAllowed || !l.inFlow }
    else { l with cursor := c }

/-- The end of the stream. -/
def streamEnd (l : Lexer) : Option Lexer := do
  let l ← (l.unroll (-1)).dropKey
  some (l.emit .streamEnd)

/-- A directive. -/
def directive (l : Lexer) : Option Lexer := do
  let l ← (l.unroll (-1)).dropKey
  let (t, c) ← directiveToken l.cursor
  some { l.emit t with cursor := c, keyAllowed := false }

/-- A marker that starts or ends a document. -/
def marker (l : Lexer) (t : Token) : Option Lexer := do
  let l ← (l.unroll (-1)).dropKey
  some { (l.emit t).skip 3 with keyAllowed := false }

/-- The start of a flow collection. -/
def flowStart (l : Lexer) (t : Token) : Option Lexer := do
  let l ← l.saveKey
  some { (l.emit t).skip 1 with flow := l.keyStart :: l.flow, keyStart := none, keyAllowed := true }

/-- The end of a flow collection. -/
def flowEnd (l : Lexer) (t : Token) : Option Lexer := do
  let l ← l.dropKey
  let l := match l.flow with
    | [] => l
    | k :: flow => { l with keyStart := k, flow := flow }
  some { (l.emit t).skip 1 with keyAllowed := false }

/-- A comma between the parts of a flow collection. -/
def flowEntry (l : Lexer) : Option Lexer := do
  let l ← l.dropKey
  some { (l.emit .flowEntry).skip 1 with keyAllowed := true }

/-- The hyphen in front of an item of a block sequence. -/
def blockEntry (l : Lexer) : Option Lexer := do
  if !l.inFlow && !l.keyAllowed then none
  else
    let l := l.roll l.cursor.column l.tokens.length .blockSequenceStart
    let l ← l.dropKey
    some { (l.emit .blockEntry).skip 1 with keyAllowed := true }

/-- The question mark in front of a key. -/
def explicitKey (l : Lexer) : Option Lexer := do
  if !l.inFlow && !l.keyAllowed then none
  else
    let l := l.roll l.cursor.column l.tokens.length .blockMappingStart
    let l ← l.dropKey
    some { (l.emit .key).skip 1 with keyAllowed := !l.inFlow }

/-- The colon in front of a value, which makes a key of what the open key start points at. -/
def value (l : Lexer) : Option Lexer :=
  match l.keyStart with
  | some k =>
    let l := (l.insert k.tokensBefore .key).roll k.column k.tokensBefore .blockMappingStart
    some { (l.emit .value).skip 1 with keyStart := none, keyAllowed := false }
  | none =>
    if !l.inFlow && !l.keyAllowed then none
    else
      let l := l.roll l.cursor.column l.tokens.length .blockMappingStart
      some { (l.emit .value).skip 1 with keyAllowed := !l.inFlow }

/-- An anchor or a reference. -/
def named (l : Lexer) (t : List Char → Token) : Option Lexer := do
  let l ← l.saveKey
  let (name, c) ← anchorName (l.cursor.skip 1)
  some { l.emit (t name) with cursor := c, keyAllowed := false }

/-- A tag. -/
def tag (l : Lexer) : Option Lexer := do
  let l ← l.saveKey
  let (t, c) ← tagToken l.inFlow l.cursor
  some { l.emit t with cursor := c, keyAllowed := false }

/-- A block scalar. -/
def block (l : Lexer) (literal : Bool) : Option Lexer := do
  let l ← l.dropKey
  let (text, c) ← blockScalar literal l.indent (l.cursor.skip 1)
  some { l.emit (.scalar .quoted text) with cursor := c, keyAllowed := true }

/-- A quoted scalar. -/
def quoted (l : Lexer) (q : Quote) : Option Lexer := do
  let l ← l.saveKey
  let (text, c) ← quotedScalar q (l.cursor.skip 1)
  some { l.emit (.scalar .quoted text) with cursor := c, keyAllowed := false }

/-- A plain scalar; a line break behind it lets a key start. -/
def plain (l : Lexer) : Option Lexer := do
  let l ← l.saveKey
  let s ← plainScalar l.inFlow (l.indent + 1) l.cursor
  some { l.emit (.scalar .plain s.text) with cursor := s.next, keyAllowed := s.broken }

/-- A character that no plain scalar starts with. -/
def isIndicator (c : Char) : Bool :=
  ['-', '?', ':', ',', '[', ']', '\x7b', '\x7d', '#', '&', '*', '!', '|', '>', '\'', '"', '%', '@',
    '\x60'].contains c

/-- Whether a plain scalar starts with `c`, the character behind it being `next`. -/
def startsPlain (flow : Bool) (c : Char) (next : Option Char) : Bool :=
  !(isBlank c || isBreak c || isIndicator c) || (c == '-' && !next.any isBlank) ||
    (!flow && (c == '?' || c == ':') && !endsWord next)

/-- The token that starts with a character, the line being past its blanks. -/
def stepAt (l : Lexer) (x : Char) : Option Lexer :=
  let c := l.cursor
  let apart := endsWord (c.peekAt 1)
  if c.column = 0 ∧ x = '%' then l.directive
  else if c.atMarker '-' then l.marker .documentStart
  else if c.atMarker '.' then l.marker .documentEnd
  else if x = '[' then l.flowStart .flowSequenceStart
  else if x = '\x7b' then l.flowStart .flowMappingStart
  else if x = ']' then l.flowEnd .flowSequenceEnd
  else if x = '\x7d' then l.flowEnd .flowMappingEnd
  else if x = ',' then l.flowEntry
  else if x = '-' ∧ apart then l.blockEntry
  else if x = '?' ∧ (l.inFlow ∨ apart) then l.explicitKey
  else if x = ':' ∧ (l.inFlow ∨ apart) then l.value
  else if x = '*' then l.named .reference
  else if x = '&' then l.named .anchor
  else if x = '!' then l.tag
  else if x = '|' ∧ !l.inFlow then l.block true
  else if x = '>' ∧ !l.inFlow then l.block false
  else if x = '\'' then l.quoted .single
  else if x = '"' then l.quoted .double
  else if startsPlain l.inFlow x (c.peekAt 1) then l.plain
  else none

/-- **The next token**, with the tokens that it completes. -/
def step (l : Lexer) : Option Lexer := do
  let l := toNextToken (l.cursor.rest.length + 1) l
  let l ← l.refresh
  let l := l.unroll l.cursor.column
  match l.cursor.peek with
  | none => l.streamEnd
  | some x => l.stepAt x

/-- The lexer at the end of the stream; `fuel` bounds the tokens. -/
def run : Nat → Lexer → Option Lexer
  | 0, _ => none
  | fuel + 1, l => do
    let l ← l.step
    if l.tokens.head? = some .streamEnd then some l else run fuel l

end Lexer

/-- **The tokens of a text.** -/
def tokens (text : String) : Option (List Token) :=
  let chars := text.toList
  if chars.all isStreamChar then
    ((Lexer.start chars).run (chars.length + 2)).map fun l => l.tokens.reverse
  else none

end Methodology.Yaml
