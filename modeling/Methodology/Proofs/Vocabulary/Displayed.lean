import Methodology.Proofs.Record.Messages
import Methodology.Proofs.Vocabulary.Order

/-!
# How violations are displayed

A violation is shown on one line, unless it repeats a line break of the document: in a key that
names no section, or in the message about an item that does not read.

* `Violation.hasBreak_display_iff`: where a line break of what is shown comes from.
* `Section.Forges`, `Json.Forges`: items and documents that put a line break into what is shown.
* `exists_hasBreak_readItems`, `not_hasBreak_insertAll`: the two loops over a section.
* `exists_hasBreak_violations_iff`: **the violations of a mapping**.
* **`validate_displayed`**: the outcome of every validation.
-/

namespace Methodology

open Text Result

/-! ## What is shown -/

theorem Json.not_hasBreak_kind (v : Json) : ¬ HasBreak v.kind := by
  cases v <;> simp [kind, HasBreak]

theorem Section.not_hasBreak_name (s : Section) : ¬ HasBreak s.name := by
  cases s <;> decide

theorem Duplicate.not_hasBreak_message (d : Duplicate) : ¬ HasBreak d.message := by
  have hitem : ¬ HasBreak d.within.itemName := by cases d.within <;> decide
  have hwords : ¬ HasBreak "duplicate " ∧ ¬ HasBreak " identity " := by simp [HasBreak]
  unfold message
  simp [hitem, hwords]

namespace Violation

theorem hasBreak_display_iff {x : Violation} :
    HasBreak x.display ↔ HasBreak x.path ∨ HasBreak x.message := by
  have hwords : ¬ HasBreak "  " ∧ ¬ HasBreak "(root)" ∧ ¬ HasBreak ": " := by simp [HasBreak]
  have hpath : HasBreak (if x.path.isEmpty then "(root)" else x.path) ↔ HasBreak x.path := by
    split
    · next hempty =>
      rw [String.isEmpty_iff] at hempty
      rw [hempty]
      decide
    · rfl
  unfold display
  simp only [hasBreak_append, hwords, hpath, false_or, or_false]

theorem hasBreak_display_violationAt {s : Section} {index : Nat} {message : String} :
    HasBreak (violationAt s index message).display ↔ HasBreak message := by
  have hpath : ¬ HasBreak (violationAt s index message).path := by
    have hwords : ¬ HasBreak "[" ∧ ¬ HasBreak "]" := by simp [HasBreak]
    change ¬ HasBreak (s.name ++ "[" ++ number index ++ "]")
    simp [hwords, s.not_hasBreak_name]
  rw [hasBreak_display_iff, or_iff_right hpath]
  rfl

end Violation

/-! ## One section -/

/-- Items of a section of which one does not read, for a reason that repeats a line break. -/
def Section.Forges (s : Section) (items : List Json) : Prop :=
  ∃ v ∈ items, ∃ m, s.identityOf v = .error m ∧ m.IsForged

section Taken

variable {α : Type} [Entry α] [Member α]

theorem exists_hasBreak_readItems [Stated α] (start : Nat) (items : List Json) :
    (∃ x ∈ (readItems α (Member.part α) start items).1, HasBreak x.display) ↔
      (Member.part α).Forges items := by
  induction items generalizing start with
  | nil => exact iff_of_false (by rintro ⟨x, ⟨⟩, -⟩) (by rintro ⟨v, ⟨⟩, -⟩)
  | cons v items ih =>
    rw [Section.Forges, List.exists_mem_cons_iff, ← Section.Forges, ← ih (start + 1)]
    simp only [readItems]
    cases hv : Entry.ofValue α v with
    | ok draft =>
      have hreads : ¬ ∃ m, (Member.part α).identityOf v = .error m ∧ m.IsForged := by
        rw [Stated.identityOf_eq, hv]
        rintro ⟨m, ⟨⟩, -⟩
      exact (or_iff_right hreads).symm
    | error m =>
      have hm : (Member.part α).identityOf v = .error m := by
        rw [Stated.identityOf_eq, hv]
        rfl
      rw [List.exists_mem_cons_iff, Violation.hasBreak_display_violationAt,
        Section.hasBreak_message_iff hm, hm]
      simp only [Except.error.injEq, exists_eq_left']

/-- **The items that are put in**: an identity that is taken is quoted. -/
theorem not_hasBreak_insertAll (v : Vocabulary) (items : List (Nat × α)) :
    ¬ ∃ x ∈ (insertAll (Member.part α) Member.insert v items).2, HasBreak x.display := by
  induction items generalizing v with
  | nil => exact nofun
  | cons p items ih =>
    obtain ⟨index, a⟩ := p
    rw [insertAll]
    split
    · exact ih _
    · next d _ =>
      rw [List.exists_mem_cons_iff, Violation.hasBreak_display_violationAt, not_or]
      exact ⟨d.not_hasBreak_message, ih _⟩

theorem exists_hasBreak_takeMember [Stated α] (fields : List (String × Json)) (s : Validation) :
    ∃ found, (s.takeMember α fields).violations = s.violations ++ found ∧
      ((∃ x ∈ found, HasBreak x.display) ↔
        (Member.part α).Forges (itemsOf (Json.field? (Member.part α).name fields))) := by
  obtain ⟨found, hfound, hcases⟩ := takeMember_cases (α := α) fields s
  refine ⟨found, hfound, ?_⟩
  rcases hcases with ⟨items, hfield, rfl⟩ | ⟨hitems, -, hunread⟩
  · simp only [List.mem_append, or_and_right, exists_or]
    rw [exists_hasBreak_readItems, or_iff_left (not_hasBreak_insertAll _ _), hfield]
    rfl
  · rw [hitems]
    refine iff_of_false ?_ (by rintro ⟨v, ⟨⟩, -⟩)
    rintro ⟨x, hx, hbreak⟩
    obtain ⟨value, rfl⟩ := hunread x hx
    have hword : ¬ HasBreak "section must be a list, got " := by simp [HasBreak]
    rw [Violation.hasBreak_display_iff, hasBreak_append, or_iff_right hword] at hbreak
    exact hbreak.elim (Member.part α).not_hasBreak_name value.not_hasBreak_kind

end Taken

/-! ## Documents -/

/-- **Documents that repeat a line break**: that of a key, or one of an item that does not read. -/
def Json.Forges : Json → Prop
  | object fields =>
    (∃ f ∈ fields, HasBreak f.1) ∨ ∃ s : Section, s.Forges (itemsOf (field? s.name fields))
  | _ => False

theorem exists_hasBreak_unknownSections (fields : List (String × Json)) :
    (∃ x ∈ unknownSections fields, HasBreak x.display) ↔ ∃ f ∈ fields, HasBreak f.1 := by
  have hwords : ¬ HasBreak ("unknown section (expected one of: " ++
      ", ".intercalate Section.names ++ ")") := by decide
  have hnames : ∀ name ∈ Section.names, ¬ HasBreak name := by decide
  constructor
  · rintro ⟨_, hx, hbreak⟩
    obtain ⟨f, hf, rfl⟩ := List.mem_map.mp hx
    rw [Violation.hasBreak_display_iff, or_iff_left hwords] at hbreak
    exact ⟨f, List.mem_of_mem_filter hf, hbreak⟩
  · rintro ⟨f, hf, hbreak⟩
    have hunknown : !Section.names.contains f.1 := by
      rw [Bool.not_eq_true', ← Bool.not_eq_true, List.contains_iff_mem]
      exact fun hmem => hnames _ hmem hbreak
    refine ⟨_, List.mem_map_of_mem (List.mem_filter.mpr ⟨hf, hunknown⟩), ?_⟩
    exact Violation.hasBreak_display_iff.mpr (.inl hbreak)

theorem exists_hasBreak_violations_iff (fields : List (String × Json)) (fresh : Fresh) :
    (∃ x ∈ (validateFields fields fresh).violations, HasBreak x.display) ↔
      (Json.object fields).Forges := by
  obtain ⟨found, hfound, hforges⟩ :=
    exists_sections (P := fun s found => (∃ x ∈ found, HasBreak x.display) ↔
      s.Forges (itemsOf (Json.field? s.name fields)))
      (fun α _ _ _ => exists_hasBreak_takeMember (α := α) fields) fresh
  rw [hfound]
  simp only [List.mem_append, or_and_right, exists_or]
  refine or_congr (exists_hasBreak_unknownSections fields) ?_
  constructor
  · rintro ⟨x, hx, hbreak⟩
    obtain ⟨s, -, hx⟩ := List.mem_flatMap.mp hx
    exact ⟨s, (hforges s).mp ⟨x, hx, hbreak⟩⟩
  · rintro ⟨s, hs⟩
    obtain ⟨x, hx, hbreak⟩ := (hforges s).mpr hs
    exact ⟨x, List.mem_flatMap.mpr ⟨s, by cases s <;> decide, hx⟩, hbreak⟩

/-- **The outcome of every validation**: a vocabulary, or violations, one of which shows a line
break exactly if the document puts it there. -/
theorem validate_displayed (value : Json) (fresh : Fresh) :
    (∃ v, (validate value fresh).1 = .ok v ∧ ¬ value.Forges) ∨
      ∃ violations, (validate value fresh).1 = .error (.invalid violations) ∧ violations ≠ [] ∧
        ((∃ x ∈ violations, HasBreak x.display) ↔ value.Forges) := by
  -- what is no mapping is reported as a whole
  have hroot : ∀ v : Json, ¬ ∃ x ∈ [(⟨.root, "document must be a mapping of sections, got " ++
      v.kind⟩ : Violation)], HasBreak x.display := by
    intro v
    have hword : ¬ HasBreak "document must be a mapping of sections, got " := by simp [HasBreak]
    have hpath : ¬ HasBreak (Place.path .root) := by decide
    rintro ⟨x, hx, hbreak⟩
    rw [List.mem_singleton.mp hx, Violation.hasBreak_display_iff, hasBreak_append,
      or_iff_right hword] at hbreak
    exact hbreak.elim hpath v.not_hasBreak_kind
  cases value with
  | null => exact .inl ⟨.empty, rfl, id⟩
  | object fields =>
    have hforges := exists_hasBreak_violations_iff fields fresh
    cases hviolations : (validateFields fields fresh).violations with
    | nil =>
      rw [hviolations] at hforges
      refine .inl ⟨(validateFields fields fresh).vocabulary, ?_, hforges.not.mp nofun⟩
      rw [validate, hviolations]
      rfl
    | cons x xs =>
      refine .inr ⟨x :: xs, ?_, List.cons_ne_nil x xs, hviolations ▸ hforges⟩
      rw [validate, hviolations]
      rfl
  | _ => exact .inr ⟨_, rfl, List.cons_ne_nil _ _, iff_of_false (hroot _) id⟩

end Methodology
