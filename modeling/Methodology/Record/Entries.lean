import Methodology.Entry.Action
import Methodology.Entry.Category
import Methodology.Entry.Modifier
import Methodology.Entry.Script
import Methodology.Entry.Stamp
import Methodology.Record.Basic

/-!
# The records of the entries

* `Entry`: a kind of entry with its record, its draft and its data value; the instances for
  modifiers, categories, actions, scripts and stamps.
-/

namespace Methodology

/-- **A kind of entry.** A record that is filled makes a draft or fails a constraint; a draft draws
fresh values for what it leaves open. -/
class Entry (α : Type) where
  schema : Schema
  Draft : Type
  build : Filled schema.fields → Except FieldError Draft
  settle : Draft → Fresh → α × Fresh
  toJson : α → Json

/-- The record of a modifier. -/
abbrev Modifier.schema : Schema :=
  ⟨"struct RawModifier", [⟨"name", .text, false⟩, ⟨"title", .text, false⟩]⟩

/-- The modifier of a record. -/
def Modifier.ofRecord : Filled Modifier.schema.fields → Except FieldError Modifier
  | (name, title, ()) => Modifier.make name title

instance : Entry Modifier where
  schema := Modifier.schema
  Draft := Modifier
  build := Modifier.ofRecord
  settle m fresh := (m, fresh)
  toJson := Modifier.toJson

/-- The record of a category. -/
abbrev Category.schema : Schema :=
  ⟨"struct RawCategory",
    [⟨"uuid", .uuid, true⟩, ⟨"name", .term, false⟩, ⟨"description", .text, true⟩]⟩

/-- The draft of a category's record. -/
def Category.ofRecord : Filled Category.schema.fields → Except FieldError Category.Draft
  | (uuid, name, description, ()) => .ok (Category.Draft.make uuid name description)

instance : Entry Category where
  schema := Category.schema
  Draft := Category.Draft
  build := Category.ofRecord
  settle := Category.Draft.settle
  toJson := Category.toJson

/-- The record of an action. -/
abbrev Action.schema : Schema :=
  ⟨"struct RawCategoryAction",
    [⟨"name", .text, false⟩, ⟨"title", .text, false⟩, ⟨"description", .text, false⟩,
      ⟨"structure", .text, true⟩]⟩

/-- The action of a record; one that states no shape has the default one. -/
def Action.ofRecord : Filled Action.schema.fields → Except FieldError Action
  | (name, title, description, some word, ()) => Action.make name title description word
  | (name, title, description, none, ()) => .ok (Action.ofParts name title description .default)

instance : Entry Action where
  schema := Action.schema
  Draft := Action
  build := Action.ofRecord
  settle a fresh := (a, fresh)
  toJson := Action.toJson

/-- The record of a script. -/
abbrev Script.schema : Schema :=
  ⟨"struct RawActionScript", [⟨"uuid", .uuid, true⟩, ⟨"script", .text, false⟩]⟩

/-- The draft of a script's record. -/
def Script.ofRecord : Filled Script.schema.fields → Except FieldError Script.Draft
  | (uuid, text, ()) => .ok ⟨uuid, text⟩

instance : Entry Script where
  schema := Script.schema
  Draft := Script.Draft
  build := Script.ofRecord
  settle := Script.Draft.settle
  toJson := Script.toJson

/-- The record of a stamp. -/
abbrev Stamp.schema : Schema :=
  ⟨"struct RawVersion",
    [⟨"name", .text, true⟩, ⟨"description", .text, true⟩, ⟨"updated", .instant, true⟩]⟩

/-- The draft of a stamp's record. -/
def Stamp.ofRecord : Filled Stamp.schema.fields → Except FieldError Stamp.Draft
  | (name, description, updated, ()) => .ok (Stamp.Draft.make name description updated)

instance : Entry Stamp where
  schema := Stamp.schema
  Draft := Stamp.Draft
  build := Stamp.ofRecord
  settle := Stamp.Draft.settle
  toJson := Stamp.toJson

end Methodology
