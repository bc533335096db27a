import Methodology.Json.Printer
import Methodology.Record.Entries
import Methodology.Record.Shape
import Methodology.Yaml.Printer

/-!
# Models

What can stand in a document or in a part of one, with its readers and its data value.

* `Model`: a kind of model; the instances for the entries and their parts.
* `Model.readValue`, `Model.readText`, `Model.readYaml`: **reading** a model.
* `Model.toCompact`, `Model.toPretty`, `Model.toYaml`: **writing** one.
-/

namespace Methodology

/-- A kind of model. A reader gives a draft, which may leave values open that are drawn afresh. -/
class Model (α : Type) where
  Draft : Type
  ofValue : Json → Except Misread Draft
  fromText : List Char → Except TextFault (Draft × List Char)
  fromYaml : String → Option Draft
  settle : Draft → Fresh → α × Fresh
  toJson : α → Json

namespace Model

variable {α : Type} [Model α]

/-- A draft from a data value. -/
def readValue (α : Type) [Model α] (v : Json) : Except Misread (Draft α) := ofValue v

/-- A draft from the text of a data value, nothing being left. -/
def readText (α : Type) [Model α] (text : String) : Except TextFault (Draft α) := do
  let (draft, rest) ← fromText text.toList
  Json.lift (Json.finish rest)
  .ok draft

/-- A draft from a YAML text. -/
def readYaml (α : Type) [Model α] (text : String) : Option (Draft α) := fromYaml text

/-- The text of a model on one line. -/
def toCompact (a : α) : String := (toJson a).compact

/-- The text of a model over several lines. -/
def toPretty (a : α) : String := (toJson a).pretty

/-- The YAML text of a model. -/
def toYaml (a : α) : String := Yaml.print (toJson a)

end Model

/-- The draft of an entry from a data value. -/
def Entry.ofValue (α : Type) [Entry α] (v : Json) : Except Misread (Entry.Draft α) := do
  let record ← Record.ofValue (Entry.schema α) v
  (Entry.build record).mapError .field

/-- The draft of an entry at the start of a text. -/
def Entry.fromText (α : Type) [Entry α] (cs : List Char) :
    Except TextFault (Entry.Draft α × List Char) := do
  let (record, rest) ← Record.fromText (Entry.schema α) cs
  match Entry.build record with
  | .ok draft => .ok (draft, rest)
  | .error e => .error (.loose (.field e) rest)

/-- The draft of an entry from a YAML text. -/
def Entry.fromYaml (α : Type) [Entry α] (text : String) : Option (Entry.Draft α) := do
  let record ← Record.fromYaml (Entry.schema α) text
  (Entry.build record).toOption

instance {α : Type} [Entry α] : Model α where
  Draft := Entry.Draft α
  ofValue := Entry.ofValue α
  fromText := Entry.fromText α
  fromYaml := Entry.fromYaml α
  settle := Entry.settle
  toJson := Entry.toJson

/-- What is read from the root of the document in a YAML text. -/
def fromRoot {α : Type} (read : Yaml.Document → Yaml.Reading α) (text : String) : Option α := do
  let d ← (← Yaml.documentOf text)
  (read d d.jumps d.root).map Prod.fst

instance : Model Term where
  Draft := Term
  ofValue := Term.ofValue
  fromText := Term.fromText
  fromYaml := fromRoot Term.fromNode
  settle t fresh := (t, fresh)
  toJson := Term.toJson

instance : Model Instant where
  Draft := Instant
  ofValue := Instant.ofValue
  fromText := checkedFromText Instant.read .field
  fromYaml := fromRoot (checkedFromNode Instant.read)
  settle t fresh := (t, fresh)
  toJson t := .string t.toText

instance : Model Uuid where
  Draft := Uuid
  ofValue := Uuid.ofValue
  fromText := checkedFromText Uuid.read .field
  fromYaml := fromRoot (checkedFromNode Uuid.read)
  settle u fresh := (u, fresh)
  toJson u := .string u.toText

instance : Model MimeType where
  Draft := MimeType
  ofValue := MimeType.ofValue
  fromText := checkedFromText MimeType.ofContentType .mime
  fromYaml := fromRoot (checkedFromNode MimeType.ofContentType)
  settle m fresh := (m, fresh)
  toJson m := .string m.contentType

instance : Model Shape where
  Draft := Shape
  ofValue := Shape.ofValue
  fromText := Shape.fromText
  fromYaml text := Yaml.documentOf text >>= fun d => d >>= Shape.fromNode
  settle s fresh := (s, fresh)
  toJson s := .string s.word

end Methodology
