import Methodology.Vocabulary.Violation

/-!
# Validation

A data value is checked as a whole: every unknown section, every section that is no list, every item
that does not read and every item whose identity is taken is a violation, and a value without
violations is a vocabulary.

* `readItems`: the drafts of the items of a section, under their indices.
* `settleAll`: the items of the drafts, with fresh values for what they leave open.
* `insertAll`: the items in turn, with a violation for each that is refused.
* `validate`: **validation**.
-/

namespace Methodology

/-- A violation at an item of a section. -/
def violationAt (part : Section) (index : Nat) (message : String) : Violation :=
  ⟨.item part index, message⟩

/-- The drafts of the items from an index on, and the violations of those that do not read. -/
def readItems (α : Type) [Entry α] (part : Section) (index : Nat) :
    List Json → List Violation × List (Nat × Entry.Draft α)
  | [] => ([], [])
  | v :: rest =>
    let (violations, drafts) := readItems α part (index + 1) rest
    match Entry.ofValue α v with
    | .ok draft => (violations, (index, draft) :: drafts)
    | .error m => (violationAt part index m.message :: violations, drafts)

/-- The drafts of a section; one that is missing or null has no items. -/
def readSection (α : Type) [Entry α] (part : Section) (fields : List (String × Json)) :
    List Violation × List (Nat × Entry.Draft α) :=
  match Json.field? part.name fields with
  | none => ([], [])
  | some .null => ([], [])
  | some (.array items) => readItems α part 0 items
  | some v => ([⟨.field part.name, "section must be a list, got " ++ v.kind⟩], [])

/-- The items of drafts, with fresh values for what they leave open. -/
def settleAll {α : Type} [Entry α] :
    List (Nat × Entry.Draft α) → Fresh → List (Nat × α) × Fresh
  | [], fresh => ([], fresh)
  | (index, draft) :: rest, fresh =>
    let (item, fresh) := Entry.settle draft fresh
    let (items, fresh) := settleAll rest fresh
    ((index, item) :: items, fresh)

/-- The items put in one after the other, and the violations of those that are refused. -/
def insertAll {α : Type} (part : Section) (insert : Vocabulary → α → Except Duplicate Vocabulary) :
    Vocabulary → List (Nat × α) → Vocabulary × List Violation
  | v, [] => (v, [])
  | v, (index, item) :: rest =>
    match insert v item with
    | .ok v => insertAll part insert v rest
    | .error d =>
      let (v, violations) := insertAll part insert v rest
      (v, violationAt part index d.message :: violations)

/-- The state of a validation. -/
structure Validation where
  vocabulary : Vocabulary
  violations : List Violation
  fresh : Fresh

/-- A section read, its open values drawn and its items put in. -/
def Validation.takeSection (α : Type) [Entry α] (part : Section)
    (insert : Vocabulary → α → Except Duplicate Vocabulary) (fields : List (String × Json))
    (s : Validation) : Validation :=
  let (unread, drafts) := readSection α part fields
  let (items, fresh) := settleAll drafts s.fresh
  let (vocabulary, refused) := insertAll part insert s.vocabulary items
  ⟨vocabulary, s.violations ++ unread ++ refused, fresh⟩

/-- The violations of the keys that name no section. -/
def unknownSections (fields : List (String × Json)) : List Violation :=
  (fields.filter fun f => !Section.names.contains f.1).map fun f =>
    ⟨.field f.1, "unknown section (expected one of: " ++ ", ".intercalate Section.names ++ ")"⟩

/-- The sections of a mapping in turn. -/
def validateFields (fields : List (String × Json)) (fresh : Fresh) : Validation :=
  (⟨.empty, unknownSections fields, fresh⟩ : Validation)
    |>.takeSection Stamp .history (fun v s => .ok (v.record s)) fields
    |>.takeSection Modifier .modifiers Vocabulary.addModifier fields
    |>.takeSection Category .categories Vocabulary.addCategory fields
    |>.takeSection Action .actions Vocabulary.addAction fields
    |>.takeSection Script .scripts Vocabulary.addScript fields

/-- **Validation** of a data value: its vocabulary, or all its violations. Null is a document
without items. -/
def validate (value : Json) (fresh : Fresh) : Except DocumentError Vocabulary × Fresh :=
  match value with
  | .null => (.ok .empty, fresh)
  | .object fields =>
    let s := validateFields fields fresh
    (if s.violations.isEmpty then .ok s.vocabulary else .error (.invalid s.violations), s.fresh)
  | v =>
    (.error (.invalid [⟨.root, "document must be a mapping of sections, got " ++ v.kind⟩]), fresh)

end Methodology
