import Methodology.Json.Reader
import Methodology.Record.OfValue

/-!
# Records from text

A record is read from the text of a data value field by field, without the value being built; a
fault is placed where the reader stands.

* `TextFault`: a malformed text, or data that does not fit, with its place once it has one.
* `Field.fromText`: what a field holds.
* `Record.fromText`: **a record** at the start of a text.
-/

namespace Methodology

/-- Why nothing is read from a text. -/
inductive TextFault
  /-- The text is malformed. -/
  | malformed (f : Json.Fault)
  /-- Data does not fit, with the bytes left behind the place where it shows. -/
  | placed (m : Misread) (left : Nat)
  /-- Data does not fit, which showed with this much of the text left; it has no place yet. -/
  | loose (m : Misread) (rest : List Char)
  deriving DecidableEq, Repr

namespace TextFault

/-- The message about a fault in a text. -/
def message (text : List Char) : TextFault → String
  | malformed f => f.message text
  | placed m left => Json.located m.message text left
  | loose m _ => m.message

/-- A fault inside a list or a mapping gets its place at the end of it, which `past` looks for. -/
def enclosed (past : List Char → List Char) : TextFault → TextFault
  | loose m rest => placed m (Text.byteSize (past rest))
  | f => f

end TextFault

namespace Json

/-- What a reader of typed data gives: a value with the rest of the text, or a fault. -/
abbrev Typed (α : Type) := Except TextFault (α × List Char)

/-- A reader of the notation among the readers of typed data. -/
def lift {α : Type} (r : Except Fault α) : Except TextFault α := r.mapError .malformed

/-- The fault of data of another type; a list or a mapping is not looked into. -/
def mistyped (expected : String) (cs : List Char) : TextFault :=
  match cs with
  | '[' :: _ => .placed (.wrongType .list expected) (Text.byteSize cs)
  | '\x7b' :: _ => .placed (.wrongType .mapping expected) (Text.byteSize cs)
  | _ =>
    match valueFrom 1 depthLimit cs with
    | .ok (v, rest) => .placed (.wrongType (.ofJson v) expected) (Text.byteSize rest)
    | .error f => .malformed f

/-- Past the end of a list. -/
def listEnd (cs : List Char) : Except Fault (List Char) :=
  match skipBlanks cs with
  | [] => .error (fault .endInList [] 0)
  | c :: rest =>
    if c = ']' then .ok rest
    else if c = ',' then
      match skipBlanks rest with
      | [] => .error (fault .trailingCharacters [] 0)
      | d :: more =>
        .error (fault (if d = ']' then .trailingComma else .trailingCharacters) (d :: more) 1)
    else .error (fault .trailingCharacters (c :: rest) 1)

/-- As far as the search for the end of a list goes. -/
def pastList (cs : List Char) : List Char :=
  match skipBlanks cs with
  | ']' :: rest => rest
  | ',' :: rest => skipBlanks rest
  | rest => rest

/-- Past the end of a mapping. -/
def mappingEnd (cs : List Char) : Except Fault (List Char) :=
  match skipBlanks cs with
  | [] => .error (fault .endInObject [] 0)
  | c :: rest =>
    if c = '\x7d' then .ok rest
    else .error (fault (if c = ',' then .trailingComma else .trailingCharacters) (c :: rest) 1)

/-- As far as the search for the end of a mapping goes. -/
def pastMapping (cs : List Char) : List Char :=
  match skipBlanks cs with
  | '\x7d' :: rest => rest
  | rest => rest

end Json

open Json

/-- A text. -/
def textFromText (cs : List Char) : Except TextFault (String × List Char) :=
  match skipBlanks cs with
  | [] => .error (.malformed (fault .endInValue [] 0))
  | '"' :: rest => lift (stringFrom rest)
  | cs => .error (mistyped "a string" cs)

/-- A text that has to be of a certain form. -/
def checkedFromText {α ε : Type} (read : String → Except ε α) (misread : ε → Misread)
    (cs : List Char) : Except TextFault (α × List Char) := do
  let (s, rest) ← textFromText cs
  match read s with
  | .ok a => .ok (a, rest)
  | .error e => .error (.loose (misread e) rest)

/-- A term. -/
def Term.fromText (cs : List Char) : Except TextFault (Term × List Char) :=
  match skipBlanks cs with
  | [] => .error (.malformed (fault .endInValue [] 0))
  | '"' :: rest => lift ((stringFrom rest).map fun (s, rest) => (.text s, rest))
  | 't' :: rest => lift ((word ['r', 'u', 'e'] rest).map fun rest => (.flag true, rest))
  | 'f' :: rest => lift ((word ['a', 'l', 's', 'e'] rest).map fun rest => (.flag false, rest))
  | '[' :: rest =>
    .error (TextFault.enclosed pastList (.loose (.wrongType .list Term.noun) rest))
  | '\x7b' :: rest =>
    .error (TextFault.enclosed pastMapping (.loose (.wrongType .mapping Term.noun) rest))
  | cs => .error (mistyped Term.noun cs)

/-- A value of a kind of field. -/
def Field.Kind.fromText : (k : Field.Kind) → List Char → Except TextFault (k.Carrier × List Char)
  | text => textFromText
  | term => Term.fromText
  | uuid => checkedFromText Uuid.read .field
  | instant => checkedFromText Instant.read .field

/-- **What a field holds.** -/
def Field.fromText : (f : Field) → List Char → Except TextFault (f.Slot × List Char)
  | ⟨_, k, false⟩, cs => k.fromText cs
  | ⟨_, k, true⟩, cs =>
    match skipBlanks cs with
    | 'n' :: rest => lift ((word ['u', 'l', 'l'] rest).map fun rest => (none, rest))
    | cs => (k.fromText cs).map fun (v, rest) => (some v, rest)

namespace Record

/-- The row after the fields of a mapping, with the text from its end on. `fuel` bounds the number
of fields. -/
def rowFromText (s : Schema) :
    Nat → Bool → Row s.fields → List Char → Except TextFault (Row s.fields × List Char)
  | 0, _, _, _ => .error (.malformed (fault .endInObject [] 0))
  | fuel + 1, first, row, cs => do
    match ← lift (nextKey first cs) with
    | none => .ok (row, skipBlanks cs)
    | some cs =>
      let (key, cs) ← lift (stringFrom cs)
      let read (f : Field) : Except TextFault (f.Slot × List Char) :=
        lift (colon cs) >>= f.fromText
      match row.put (fun f => .loose (.duplicateField f.name) cs) read key s.fields with
      | none => .error (.loose (.unknownField key s.names) cs)
      | some (.error e) => .error e
      | some (.ok (row, cs)) => rowFromText s fuel false row cs

/-- The slots of the fields from a list of values, up to the first value that is left; `place` is
the number of fields in front of these. -/
def itemsFromText (noun : String) :
    Nat → (fs : List Field) → List Char → Except TextFault (Filled fs × List Char)
  | _, [], cs => .ok ((), cs)
  | place, f :: fs, cs => do
    match ← lift (nextItem (place == 0) cs) with
    | some cs =>
      let (v, cs) ← f.fromText cs
      let (row, cs) ← itemsFromText noun (place + 1) fs cs
      .ok ((v, row), cs)
    | none =>
      match f.absent? with
      | none => .error (.loose (.wrongLength place noun) (skipBlanks cs))
      | some v =>
        let (row, cs) ← itemsFromText noun (place + 1) fs (skipBlanks cs)
        .ok ((v, row), cs)

/-- The fields of a mapping, without its end. -/
def fieldsFromText (s : Schema) (cs : List Char) :
    Except TextFault (Filled s.fields × List Char) := do
  let (row, cs) ← rowFromText s (cs.length + 1) true (Row.empty s.fields) cs
  match Row.complete s.fields row with
  | .ok row => .ok (row, cs)
  | .error m => .error (.loose m cs)

/-- **A record** at the start of a text. -/
def fromText (s : Schema) (cs : List Char) : Except TextFault (Filled s.fields × List Char) :=
  match skipBlanks cs with
  | [] => .error (.malformed (fault .endInValue [] 0))
  | '[' :: rest => do
    let (row, rest) ← (itemsFromText s.listNoun 0 s.fields rest).mapError (·.enclosed pastList)
    let rest ← lift (listEnd rest)
    .ok (row, rest)
  | '\x7b' :: rest => do
    let (row, rest) ← (fieldsFromText s rest).mapError (·.enclosed pastMapping)
    let rest ← lift (mappingEnd rest)
    .ok (row, rest)
  | cs => .error (mistyped s.noun cs)

end Record

end Methodology
