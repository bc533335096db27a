import Mathlib.Data.List.Basic
import Methodology.Proofs.Text.Lines
import Methodology.Yaml.ToJson

/-!
# How messages show YAML values

A text in a value is quoted where a message shows the value; a tag is not.

* `Value.tags`: the tags in a value.
* `Value.hasBreak_shown_iff`: what is shown of a value has a line break exactly if one of its tags
  has; by induction on the value, its items and its entries.
* **`Unsuitable.hasBreak_message_iff`**: the message about a value that no data value can hold.
-/

namespace Methodology.Yaml

open Text

theorem Number.not_hasBreak_text (n : Number) : ¬ HasBreak n.text := by
  unfold text
  cases n with
  | integer n => exact not_hasBreak_integer n
  | real x => exact x.not_hasBreak_written _
  | infinity negative => cases negative <;> decide
  | notANumber => decide

theorem mem_bareTag_iff {tag : List Char} : '\n' ∈ bareTag tag ↔ '\n' ∈ tag := by
  unfold bareTag
  split <;> simp

namespace Value

mutual

/-- **The tags in a value.** -/
def tags : Value → List (List Char)
  | sequence items => tagsOfItems items
  | mapping entries => tagsOfEntries entries
  | tagged tag v => tag :: tags v
  | _ => []

/-- The tags in the items of a sequence. -/
def tagsOfItems : List Value → List (List Char)
  | [] => []
  | v :: rest => tags v ++ tagsOfItems rest

/-- The tags in the entries of a mapping. -/
def tagsOfEntries : List (Value × Value) → List (List Char)
  | [] => []
  | (k, v) :: rest => tags k ++ tags v ++ tagsOfEntries rest

end

theorem hasBreak_joined_iff {parts : List String} :
    HasBreak (joined parts) ↔ ∃ part ∈ parts, HasBreak part :=
  hasBreak_intercalate (by decide)

theorem shown_number (n : Number) : (number n).shown = "Number(" ++ n.text ++ ")" := rfl

theorem shown_string (s : String) : (string s).shown = "String(" ++ quoted s ++ ")" := rfl

theorem shown_sequence (items : List Value) :
    (sequence items).shown = "Sequence [" ++ joined (shownItems items) ++ "]" := rfl

theorem shown_mapping (entries : List (Value × Value)) :
    (mapping entries).shown = "Mapping \x7b" ++ joined (shownEntries entries) ++ "\x7d" := rfl

theorem shown_tagged (tag : List Char) (v : Value) : (tagged tag v).shown =
    "TaggedValue \x7b tag: !" ++ String.ofList (bareTag tag) ++ ", value: " ++ v.shown ++
      " \x7d" := rfl

theorem hasBreak_bareKey {k : Value} {shown : String} (h : k.bareKey? = some shown) :
    ¬ HasBreak shown ∧ k.tags = [] := by
  cases k with
  | bool b =>
    cases h
    exact ⟨by cases b <;> decide, rfl⟩
  | number n =>
    cases h
    exact ⟨n.not_hasBreak_text, rfl⟩
  | string s =>
    cases h
    exact ⟨not_hasBreak_quoted s, rfl⟩
  | _ => cases h

mutual

/-- **What is shown of a value** has a line break exactly if one of its tags has. -/
theorem hasBreak_shown_iff : (v : Value) → (HasBreak v.shown ↔ ∃ tag ∈ v.tags, '\n' ∈ tag)
  | null => iff_of_false (by decide) nofun
  | bool b => iff_of_false (by cases b <;> decide) nofun
  | number n => by
    have hwords : ¬ HasBreak "Number(" ∧ ¬ HasBreak ")" := by simp [HasBreak]
    refine iff_of_false ?_ nofun
    simp [shown_number, hwords, n.not_hasBreak_text]
  | string s => by
    have hwords : ¬ HasBreak "String(" ∧ ¬ HasBreak ")" := by simp [HasBreak]
    refine iff_of_false ?_ nofun
    simp [shown_string, hwords]
  | sequence items => by
    have hwords : ¬ HasBreak "Sequence [" ∧ ¬ HasBreak "]" := by simp [HasBreak]
    rw [tags, ← hasBreak_shownItems_iff items, ← hasBreak_joined_iff]
    simp [shown_sequence, hwords]
  | mapping entries => by
    have hwords : ¬ HasBreak "Mapping \x7b" ∧ ¬ HasBreak "\x7d" := by simp [HasBreak]
    rw [tags, ← hasBreak_shownEntries_iff entries, ← hasBreak_joined_iff]
    simp [shown_mapping, hwords]
  | tagged tag v => by
    have hwords : ¬ HasBreak "TaggedValue \x7b tag: !" ∧ ¬ HasBreak ", value: " ∧
        ¬ HasBreak " \x7d" := by simp [HasBreak]
    rw [shown_tagged, tags, List.exists_mem_cons_iff, ← hasBreak_shown_iff v]
    simp [hwords, mem_bareTag_iff]

theorem hasBreak_shownItems_iff : (items : List Value) →
    ((∃ part ∈ shownItems items, HasBreak part) ↔ ∃ tag ∈ tagsOfItems items, '\n' ∈ tag)
  | [] => by simp [shownItems, tagsOfItems]
  | v :: rest => by
    rw [shownItems, tagsOfItems, List.exists_mem_cons_iff, hasBreak_shown_iff v,
      hasBreak_shownItems_iff rest]
    simp only [List.mem_append, or_and_right, exists_or]

theorem hasBreak_shownEntries_iff : (entries : List (Value × Value)) →
    ((∃ part ∈ shownEntries entries, HasBreak part) ↔ ∃ tag ∈ tagsOfEntries entries, '\n' ∈ tag)
  | [] => by simp [shownEntries, tagsOfEntries]
  | (k, v) :: rest => by
    have hword : ¬ HasBreak ": " := by simp [HasBreak]
    have hkey : HasBreak (k.bareKey?.getD k.shown) ↔ ∃ tag ∈ k.tags, '\n' ∈ tag := by
      cases h : k.bareKey? with
      | none => exact hasBreak_shown_iff k
      | some shown =>
        obtain ⟨hshown, htags⟩ := hasBreak_bareKey h
        rw [htags]
        exact iff_of_false hshown nofun
    rw [shownEntries, tagsOfEntries, List.exists_mem_cons_iff, hasBreak_shownEntries_iff rest,
      hasBreak_append, hasBreak_append, hkey, hasBreak_shown_iff v, or_iff_left hword]
    simp only [List.mem_append, or_and_right, exists_or]

end

end Value

/-- **The message about a value that no data value can hold** has a line break exactly if it shows a
tag with one. -/
theorem Unsuitable.hasBreak_message_iff (u : Unsuitable) : HasBreak u.message ↔
    ∃ k tag, u = .key k ∧ tag ∈ k.tags ∧ '\n' ∈ tag := by
  have hwords : ¬ HasBreak "mapping keys must be strings, got " ∧
      ¬ HasBreak "cannot represent number " ∧ ¬ HasBreak " in JSON" := by simp [HasBreak]
  unfold message
  cases u with
  | key k => simp [hwords, k.hasBreak_shown_iff]
  | number n => simp [hwords, n.not_hasBreak_text]

end Methodology.Yaml
