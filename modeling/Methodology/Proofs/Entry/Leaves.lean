import Methodology.Proofs.Yaml.Value
import Methodology.Record.Entries
import Methodology.Vocabulary.Basic

/-!
# Entries as flags and texts

* `isKey_of_mem`: the names of fields and sections may stand in front of a colon.
* `Entry.Written`: a kind of entry whose data value is a mapping of flags and texts, under names of
  its declared fields.
* `Entry.hasKeys_leaves`, `Entry.nodup_leaves`: the mapping is printed and read with every key.
-/

namespace Methodology

open Yaml

/-! ## Keys -/

/-- The names of all fields and sections. -/
def knownKeys : List String :=
  ["name", "title", "uuid", "description", "structure", "script", "updated"] ++ Section.names

theorem isKey_of_mem : ∀ k ∈ knownKeys, Lexer.IsKey k.toList := by
  have hne : ∀ k ∈ knownKeys, k.toList ≠ [] := by decide
  have hword : ∀ k ∈ knownKeys, k.toList.all (fun c => isPrintable c && !isSpace c && !isBreak c) =
      true := by decide +kernel
  have hmarks : ∀ k ∈ knownKeys, (survey k.toList).marks = false := by decide +kernel
  have htext : ∀ k ∈ knownKeys, resolve k.toList = .text := by decide +kernel
  have hsize : ∀ k ∈ knownKeys, Text.byteSize k.toList ≤ 1024 := by decide +kernel
  intro k h
  refine ⟨isPlain_of_word (hne k h) (hword k h) (hmarks k h), fun c hc => ?_, htext k h, hsize k h⟩
  have hc' := List.all_eq_true.mp (hword k h) c hc
  simp only [Bool.and_eq_true, Bool.not_eq_true'] at hc'
  exact hc'.1.2

/-- A text that may be missing, under its key. -/
def textLeaf (key : String) (s : Option String) : Leaves := s.toList.map fun s => (key, .text s)

theorem toFields_textLeaf (key : String) (s : Option String) :
    (textLeaf key s).toFields = Json.textField key s := by
  cases s <;> rfl

theorem sublist_textLeaf (key : String) (s : Option String) :
    ((textLeaf key s).map Prod.fst).Sublist [key] := by
  cases s with
  | none => exact List.nil_sublist _
  | some s => exact List.Sublist.refl _

/-! ## Entries -/

/-- **A kind of entry** whose data value is a mapping of flags and texts. -/
class Entry.Written (α : Type) [Entry α] where
  leaves : α → Leaves
  toJson_eq : ∀ a, Entry.toJson a = .object (leaves a).toFields
  ne_nil : ∀ a, leaves a ≠ []
  /-- The keys are names of declared fields, in their order. -/
  sublist : ∀ a, ((leaves a).map Prod.fst).Sublist (Entry.schema α).names
  known : ∀ k ∈ (Entry.schema α).names, k ∈ knownKeys
  nodup : (Entry.schema α).names.Nodup

namespace Entry

variable {α : Type} [Entry α] [Written α]

theorem hasKeys_leaves (a : α) : (Written.leaves a).HasKeys := fun f hf =>
  isKey_of_mem f.1 (Written.known f.1 ((Written.sublist a).subset (List.mem_map_of_mem hf)))

theorem nodup_leaves (a : α) : ((Written.leaves a).map Prod.fst).Nodup :=
  Written.nodup.sublist (Written.sublist a)

end Entry

/-- The fields of a modifier. -/
def Modifier.leaves (m : Modifier) : Leaves := [("name", .text m.name), ("title", .text m.title)]

instance : Entry.Written Modifier where
  leaves := Modifier.leaves
  toJson_eq _ := rfl
  ne_nil _ := by simp [Modifier.leaves]
  sublist _ := List.Sublist.refl _
  known := by decide
  nodup := by decide

/-- The term as a flag or a text. -/
def Term.leaf : Term → Leaf
  | flag b => .flag b
  | text s => .text s

theorem Term.toJson_leaf (t : Term) : t.leaf.toJson = t.toJson := by
  cases t <;> rfl

/-- The fields of a category. -/
def Category.leaves (c : Category) : Leaves :=
  [("uuid", .text c.uuid.toText), ("name", c.name.leaf)] ++ textLeaf "description" c.description

instance : Entry.Written Category where
  leaves := Category.leaves
  toJson_eq c := by
    change c.toJson = _
    simp only [Category.toJson, Category.leaves, ← toFields_textLeaf, ← Term.toJson_leaf]
    rfl
  ne_nil _ := by simp [Category.leaves]
  sublist c := (sublist_textLeaf "description" c.description).append_left ["uuid", "name"]
  known := by decide
  nodup := by decide

/-- The fields of an action. -/
def Action.leaves (a : Action) : Leaves :=
  [("name", .text a.name), ("title", .text a.title), ("description", .text a.description),
    ("structure", .text a.shape.word)]

instance : Entry.Written Action where
  leaves := Action.leaves
  toJson_eq _ := rfl
  ne_nil _ := by simp [Action.leaves]
  sublist _ := List.Sublist.refl _
  known := by decide
  nodup := by decide

/-- The fields of a script. -/
def Script.leaves (s : Script) : Leaves :=
  [("uuid", .text s.uuid.toText), ("script", .text s.text)]

instance : Entry.Written Script where
  leaves := Script.leaves
  toJson_eq _ := rfl
  ne_nil _ := by simp [Script.leaves]
  sublist _ := List.Sublist.refl _
  known := by decide
  nodup := by decide

/-- The fields of a stamp. -/
def Stamp.leaves (s : Stamp) : Leaves :=
  textLeaf "name" s.name ++ textLeaf "description" s.description ++
    [("updated", .text s.updated.toText)]

instance : Entry.Written Stamp where
  leaves := Stamp.leaves
  toJson_eq s := by
    change s.toJson = _
    simp only [Stamp.toJson, Stamp.leaves, Leaves.toFields, List.map_append, ← toFields_textLeaf]
    rfl
  ne_nil _ := by simp [Stamp.leaves]
  sublist s := by
    rw [Stamp.leaves, List.map_append, List.map_append]
    exact ((sublist_textLeaf "name" s.name).append (sublist_textLeaf "description" s.description)
      ).append (List.Sublist.refl _)
  known := by decide
  nodup := by decide

end Methodology
