import Methodology.Record.OfText
import Methodology.Record.OfYaml
import Methodology.Shape

/-!
# Shapes and content types from data

A shape is read from its word, or from a mapping that has the word as its one key and null as its
value; in YAML, the word may be a tag of an empty scalar.

* `Shape.ofValue`, `Shape.fromText`, `Shape.fromYaml`.
* `MimeType.ofValue`.
-/

namespace Methodology

open Json

namespace Shape

/-- The words for the shapes. -/
def words : List String := ["boolean", "unique"]

/-- The shape that a word stands for. -/
def ofWord (s : String) : Except Misread Shape :=
  match ofWord? s with
  | some shape => .ok shape
  | none => .error (.unknownVariant s words)

/-- **A shape** from a data value. -/
def ofValue : Json → Except Misread Shape
  | .string s => ofWord s
  | .object [(key, value)] => do
    let shape ← ofWord key
    match value with
    | .null => .ok shape
    | v => .error (.wrongType (.ofJson v) "unit")
  | .object _ => .error (.wrongValue .mapping "map with a single key")
  | v => .error (.wrongType (.ofJson v) "string or map")

/-- The word for a shape behind its opening quote; another word is at fault where it ends. -/
def wordFromText (cs : List Char) : Except TextFault (Shape × List Char) := do
  let (s, rest) ← lift (stringFrom cs)
  match ofWord s with
  | .ok shape => .ok (shape, rest)
  | .error m => .error (.placed m (Text.byteSize rest))

/-- Past a null. -/
def nullFromText (cs : List Char) : Except TextFault (List Char) :=
  match skipBlanks cs with
  | [] => .error (.malformed (fault .endInValue [] 0))
  | 'n' :: rest => lift (Json.word ['u', 'l', 'l'] rest)
  | cs => .error (mistyped "unit" cs)

/-- **A shape** at the start of a text. -/
def fromText (cs : List Char) : Except TextFault (Shape × List Char) :=
  match skipBlanks cs with
  | [] => .error (.malformed (fault .endInValue [] 0))
  | '"' :: rest => wordFromText rest
  | '\x7b' :: rest => do
    match ← lift (nextKey true rest) with
    | none => .error (.malformed (fault .expectedValue (skipBlanks rest) 1))
    | some cs =>
      let (shape, cs) ← wordFromText cs
      let cs ← lift (colon cs)
      let cs ← nullFromText cs
      match skipBlanks cs with
      | [] => .error (.malformed (fault .endInObject [] 0))
      | c :: rest =>
        if c = '\x7d' then .ok (shape, rest)
        else .error (.malformed (fault .expectedValue (c :: rest) 0))
  | cs => .error (.malformed (fault .expectedValue cs 1))

/-- **A shape** from the root of a document: a scalar with the word, or one without content whose
tag is the word. -/
def fromNode (d : Yaml.Document) : Option Shape := do
  match ← d.follow d.jumps d.root with
  | (.scalar _ tag style s, _) =>
    match Yaml.localTag? tag with
    | none => ofWord? s
    | some word =>
      let shape ← ofWord? (String.ofList word)
      if style = .plain ∧ (s.isEmpty ∨ Yaml.isNullWord s.toList) then some shape else none
  | _ => none

end Shape

/-- **A content type** from a data value. -/
def MimeType.ofValue (v : Json) : Except Misread MimeType :=
  textOfValue v >>= fun s => (MimeType.ofContentType s).mapError .mime

end Methodology
