import Methodology.Proofs.Vocabulary.Outcome

/-!
# Documents that are accepted

Whatever the uuids that are drawn, a document without violations is read section by section and item
by item.

* `forall₂_readSection`: the items of a section without violations.
* `takeMember_eq`: **one section** that is accepted.
* **`isReadOf_of_validate`**: an accepted mapping has no unknown section, and each part of its
  vocabulary is the list under its name, read item by item.
-/

namespace Methodology

section

variable {α : Type} [Entry α] {fields : List (String × Json)}

theorem forall₂_readSection {part : Section} (h : (readSection α part fields).1 = [])
    (fresh : Fresh) : List.Forall₂ IsReadFrom (itemsOf (Json.field? part.name fields))
      ((settleAll (readSection α part fields).2 fresh).1.map Prod.snd) := by
  rw [readSection] at h ⊢
  cases hfield : Json.field? part.name fields with
  | none => exact .nil
  | some value =>
    rw [hfield] at h
    cases value with
    | null => exact .nil
    | array items => exact forall₂_settleAll h fresh
    | _ => cases h

variable [Member α]

theorem violations_of_takeMember {s : Validation} (h : (s.takeMember α fields).violations = []) :
    s.violations = [] :=
  (List.append_eq_nil_iff.mp (List.append_eq_nil_iff.mp h).1).1

/-- **One section** that is accepted puts in its items, which are read one by one. -/
theorem takeMember_eq {s : Validation} (hempty : Member.items (α := α) s.vocabulary = [])
    (h : (s.takeMember α fields).violations = []) : ∃ xs : List α,
      (s.takeMember α fields).vocabulary = Member.withItems s.vocabulary xs ∧
      List.Forall₂ IsReadFrom (itemsOf (Json.field? (Member.part α).name fields)) xs := by
  obtain ⟨hfront, hrefused⟩ := List.append_eq_nil_iff.mp h
  obtain ⟨-, hunread⟩ := List.append_eq_nil_iff.mp hfront
  obtain ⟨xs, hxs, hall⟩ := exists_insertAll_eq s.vocabulary
    (settleAll (readSection α (Member.part α) fields).2 s.fresh).1
  rw [hall hrefused, hempty, List.nil_append] at hxs
  exact ⟨_, hxs, forall₂_readSection hunread s.fresh⟩

end

theorem isReadOf_of_validateFields {fields : List (String × Json)} {fresh : Fresh}
    (h : (validateFields fields fresh).violations = []) : unknownSections fields = [] ∧
      (validateFields fields fresh).vocabulary.IsReadOf fields := by
  rw [validateFields_eq] at h ⊢
  have h₄ := violations_of_takeMember h
  have h₃ := violations_of_takeMember h₄
  have h₂ := violations_of_takeMember h₃
  have h₁ := violations_of_takeMember h₂
  -- no section has items of another kind
  obtain ⟨stamps, heq₁, hstamps⟩ := takeMember_eq (α := Stamp) rfl h₁
  obtain ⟨modifiers, heq₂, hmodifiers⟩ := takeMember_eq (α := Modifier) (by rw [heq₁]; rfl) h₂
  rw [heq₁] at heq₂
  obtain ⟨categories, heq₃, hcategories⟩ :=
    takeMember_eq (α := Category) (by rw [heq₂]; rfl) h₃
  rw [heq₂] at heq₃
  obtain ⟨actions, heq₄, hactions⟩ := takeMember_eq (α := Action) (by rw [heq₃]; rfl) h₄
  rw [heq₃] at heq₄
  obtain ⟨scripts, heq₅, hscripts⟩ := takeMember_eq (α := Script) (by rw [heq₄]; rfl) h
  rw [heq₄] at heq₅
  refine ⟨violations_of_takeMember h₁, ?_⟩
  rw [heq₅]
  exact ⟨hstamps, hmodifiers, hcategories, hactions, hscripts⟩

/-- **An accepted mapping** has no unknown section, and each part of its vocabulary is the list
under its name, read item by item. -/
theorem isReadOf_of_validate {fields : List (String × Json)} {fresh : Fresh} {v : Vocabulary}
    (h : (validate (.object fields) fresh).1 = .ok v) :
    unknownSections fields = [] ∧ v.IsReadOf fields := by
  simp only [validate] at h
  split at h
  · next hnone =>
    cases h
    exact isReadOf_of_validateFields (List.isEmpty_iff.mp hnone)
  · cases h

end Methodology
