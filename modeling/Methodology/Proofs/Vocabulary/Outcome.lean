import Mathlib.Data.List.Forall2
import Mathlib.Data.List.Nodup
import Methodology.Proofs.Vocabulary.Violations

/-!
# The outcome of a validation

* `IsReadFrom`, `Vocabulary.IsReadOf`: items and vocabularies that are read from data values.
* `takeSection_spec`, `validateFields_spec`: the violations of a section and of a document are
  found, and what has none is read item by item.
* `filter_sections`: what is listed section by section is found again under each section.
* `nodup_places`: no item has two violations.
* **`validate_outcome`**: the outcome of every validation.
-/

namespace Methodology

open Result

/-! ## Sections that are accepted -/

section Accepted

variable {α : Type} [Entry α]

/-- An item that a data value reads as; what the value leaves open is drawn. -/
def IsReadFrom (v : Json) (a : α) : Prop :=
  ∃ d fresh, Entry.ofValue α v = .ok d ∧ (Entry.settle d fresh).1 = a

/-- **Items that all read** are settled one by one, in their order. -/
theorem forall₂_settleAll {part : Section} {index : Nat} {items : List Json}
    (h : (readItems α part index items).1 = []) (fresh : Fresh) : List.Forall₂ IsReadFrom items
      ((settleAll (readItems α part index items).2 fresh).1.map Prod.snd) := by
  induction items generalizing index fresh with
  | nil => exact .nil
  | cons v items ih =>
    simp only [readItems] at h ⊢
    cases hread : Entry.ofValue α v with
    | error m =>
      rw [hread] at h
      cases h
    | ok draft =>
      rw [hread] at h
      exact .cons ⟨draft, fresh, hread, rfl⟩ (ih h _)

variable [Member α]

theorem exists_insertAll_eq (v : Vocabulary) (new : List (Nat × α)) :
    ∃ xs, (insertAll (Member.part α) Member.insert v new).1 = Member.withItems v xs ∧
      ((insertAll (Member.part α) Member.insert v new).2 = [] →
        xs = Member.items v ++ new.map Prod.snd) := by
  induction new generalizing v with
  | nil =>
    refine ⟨Member.items v, (Member.withItems_items v).symm, fun _ => ?_⟩
    rw [List.map_nil, List.append_nil]
  | cons p new ih =>
    obtain ⟨index, a⟩ := p
    rcases Member.insert_cases v a with ⟨hinsert, -⟩ | ⟨k, -, -, hinsert⟩
    · obtain ⟨xs, hxs, hall⟩ := ih (Member.withItems v (Member.items v ++ [a]))
      rw [Member.withItems_withItems] at hxs
      rw [Member.items_withItems, List.append_assoc, List.singleton_append] at hall
      refine ⟨xs, ?_, fun h => ?_⟩
      · simp only [insertAll, hinsert, hxs]
      · simp only [insertAll, hinsert] at h
        exact hall h
    · obtain ⟨xs, hxs, -⟩ := ih v
      refine ⟨xs, ?_, fun h => ?_⟩
      · simp only [insertAll, hinsert, hxs]
      · simp only [insertAll, hinsert] at h
        cases h

end Accepted

/-! ## Sections of a document -/

theorem stated?_mem_statedIn {fields : List (String × Json)} (s : Section) {k : Identity}
    (h : k ∈ (itemsOf (Json.field? s.name fields)).filterMap s.stated?) : k ∈ statedIn fields := by
  refine List.mem_flatMap.mpr ⟨s, ?_, h⟩
  cases s <;> decide

theorem takeSection_of_no_drafts {α : Type} [Entry α] {part : Section}
    {insert : Vocabulary → α → Except Duplicate Vocabulary} {fields : List (String × Json)}
    {unread : List Violation} (h : readSection α part fields = (unread, [])) {v : Vocabulary}
    {violations : List Violation} {fresh : Fresh} :
    Validation.takeSection α part insert fields ⟨v, violations, fresh⟩ =
      ⟨v, violations ++ unread, fresh⟩ := by
  rw [Validation.takeSection, h]
  simp only [settleAll, insertAll, List.append_nil]

/-- What is known behind a section: its violations up to their order, the supply of uuids, which is
still new, and, if there are no violations, the items. -/
theorem takeSection_spec {α : Type} [Entry α] [Member α] [Stated α] {fields : List (String × Json)}
    {w : Vocabulary} (hw : Member.items (α := α) w = []) (violations : List Violation)
    {fresh : Fresh} {n : Nat} (hnew : fresh.IsNew (statedIn fields)
      ((Member.part α).drawsAll (itemsOf (Json.field? (Member.part α).name fields)) + n)) :
    ∃ (xs : List α) (found : List Violation) (fresh' : Fresh),
      Validation.takeSection α (Member.part α) Member.insert fields ⟨w, violations, fresh⟩ =
        ⟨Member.withItems w xs, violations ++ found, fresh'⟩ ∧
      found.Perm ((Member.part α).violations (Json.field? (Member.part α).name fields)) ∧
      fresh'.IsNew (statedIn fields) n ∧
      (found = [] →
        List.Forall₂ IsReadFrom (itemsOf (Json.field? (Member.part α).name fields)) xs) := by
  have hempty : w = Member.withItems w ([] : List α) := by
    rw [← hw]
    exact (Member.withItems_items w).symm
  have hstill : fresh.IsNew (statedIn fields) n := hnew.of_eq rfl (Nat.le_add_left _ _)
  have hknown : ∀ k ∈ (itemsOf (Json.field? (Member.part α).name fields)).filterMap
      (Member.part α).stated?, k ∈ statedIn fields := fun k hk => stated?_mem_statedIn _ hk
  cases hfield : Json.field? (Member.part α).name fields with
  | none =>
    have hread : readSection α (Member.part α) fields = ([], []) := by rw [readSection, hfield]
    refine ⟨[], [], fresh, ?_, .refl _, hstill, fun _ => .nil⟩
    rw [takeSection_of_no_drafts hread, ← hempty]
  | some value =>
    rw [hfield] at hnew hknown
    cases value with
    | array items =>
      have hseen : Seen α (statedIn fields) ((Member.part α).drawsAll items + n) [] w fresh := by
        refine ⟨fun k hk => absurd hk List.not_mem_nil, fun k hk => ?_⟩
        rw [Member.identities, hw] at hk
        cases hk
      obtain ⟨hperm, hnew'⟩ := perm_of_loop items hseen hnew hknown
      obtain ⟨xs, hxs, hall⟩ := exists_insertAll_eq w
        (settleAll (readItems α (Member.part α) 0 items).2 fresh).1
      have hviolations : (Member.part α).violations (some (.array items)) =
          (List.range' 0 items.length).filterMap fun index =>
            ((Member.part α).fault? items index).map (violationAt (Member.part α) index) := by
        rw [Section.violations, Section.itemViolations, List.range_eq_range']
        rfl
      refine ⟨xs, _, _, ?_, hviolations ▸ hperm, hnew', fun hnone => ?_⟩
      · have hread : readSection α (Member.part α) fields = readItems α (Member.part α) 0 items := by
          rw [readSection, hfield]
        rw [Validation.takeSection, hread]
        simp only [hxs, List.append_assoc, List.length_nil]
      · obtain ⟨hread, hinsert⟩ := List.append_eq_nil_iff.mp hnone
        rw [hall hinsert, hw, List.nil_append]
        exact forall₂_settleAll hread fresh
    | null =>
      have hread : readSection α (Member.part α) fields = ([], []) := by rw [readSection, hfield]
      refine ⟨[], [], fresh, ?_, .refl _, hstill, fun _ => .nil⟩
      rw [takeSection_of_no_drafts hread, ← hempty]
    | _ =>
      refine ⟨[], _, fresh, ?_, .refl _, hstill, fun h => (List.cons_ne_nil _ _ h).elim⟩
      rw [takeSection_of_no_drafts (by rw [readSection, hfield]), ← hempty]
      rfl

/-! ## Documents -/

/-- **A vocabulary that is read from a document**: each part is the list under its name, read item
by item. -/
structure Vocabulary.IsReadOf (fields : List (String × Json)) (v : Vocabulary) : Prop where
  history : List.Forall₂ IsReadFrom (itemsOf (Json.field? Section.history.name fields)) v.history
  modifiers :
    List.Forall₂ IsReadFrom (itemsOf (Json.field? Section.modifiers.name fields)) v.modifiers
  categories :
    List.Forall₂ IsReadFrom (itemsOf (Json.field? Section.categories.name fields)) v.categories
  actions : List.Forall₂ IsReadFrom (itemsOf (Json.field? Section.actions.name fields)) v.actions
  scripts : List.Forall₂ IsReadFrom (itemsOf (Json.field? Section.scripts.name fields)) v.scripts

/-- A section taken as its kind of entry tells. -/
def Validation.takeMember (α : Type) [Entry α] [Member α] (fields : List (String × Json))
    (s : Validation) : Validation :=
  s.takeSection α (Member.part α) Member.insert fields

theorem validateFields_eq (fields : List (String × Json)) (fresh : Fresh) :
    validateFields fields fresh =
      ((((⟨.empty, unknownSections fields, fresh⟩ : Validation).takeMember Stamp fields).takeMember
        Modifier fields).takeMember Category fields |>.takeMember Action fields).takeMember
          Script fields := rfl

theorem validateFields_spec {fields : List (String × Json)} {fresh : Fresh}
    (hnew : fresh.IsNew (statedIn fields) (drawsOf fields)) :
    (validateFields fields fresh).violations.Perm (violationsOf fields) ∧
      ((validateFields fields fresh).violations = [] →
        (validateFields fields fresh).vocabulary.IsReadOf fields) := by
  simp only [drawsOf, Section.all, List.map_cons, List.sum_cons] at hnew
  obtain ⟨stamps, found₁, fresh₁, h₁, hperm₁, hnew₁, hread₁⟩ :=
    takeSection_spec (α := Stamp) (w := .empty) rfl (unknownSections fields) hnew
  obtain ⟨modifiers, found₂, fresh₂, h₂, hperm₂, hnew₂, hread₂⟩ :=
    takeSection_spec (α := Modifier) (w := Member.withItems .empty stamps) rfl
      (unknownSections fields ++ found₁) hnew₁
  obtain ⟨categories, found₃, fresh₃, h₃, hperm₃, hnew₃, hread₃⟩ :=
    takeSection_spec (α := Category)
      (w := Member.withItems (Member.withItems .empty stamps) modifiers) rfl
      (unknownSections fields ++ found₁ ++ found₂) hnew₂
  obtain ⟨actions, found₄, fresh₄, h₄, hperm₄, hnew₄, hread₄⟩ :=
    takeSection_spec (α := Action) (w := Member.withItems (Member.withItems
      (Member.withItems .empty stamps) modifiers) categories) rfl
      (unknownSections fields ++ found₁ ++ found₂ ++ found₃) hnew₃
  obtain ⟨scripts, found₅, fresh₅, h₅, hperm₅, hnew₅, hread₅⟩ :=
    takeSection_spec (α := Script) (w := Member.withItems (Member.withItems (Member.withItems
      (Member.withItems .empty stamps) modifiers) categories) actions) rfl
      (unknownSections fields ++ found₁ ++ found₂ ++ found₃ ++ found₄) hnew₄
  rw [validateFields_eq]
  simp only [Validation.takeMember, h₁, h₂, h₃, h₄, h₅]
  refine ⟨?_, fun hnone => ?_⟩
  · simp only [violationsOf, Section.all, List.flatMap_cons, List.flatMap_nil, List.append_nil,
      List.append_assoc]
    exact (hperm₁.append (hperm₂.append (hperm₃.append (hperm₄.append hperm₅)))).append_left _
  · simp only [List.append_eq_nil_iff] at hnone
    obtain ⟨⟨⟨⟨⟨-, hnone₁⟩, hnone₂⟩, hnone₃⟩, hnone₄⟩, hnone₅⟩ := hnone
    exact ⟨hread₁ hnone₁, hread₂ hnone₂, hread₃ hnone₃, hread₄ hnone₄, hread₅ hnone₅⟩

theorem violations_of_refused {fields : List (String × Json)} {fresh : Fresh}
    {violations : List Violation}
    (h : (validate (.object fields) fresh).1 = .error (.invalid violations)) :
    (validateFields fields fresh).violations = violations := by
  simp only [validate] at h
  split at h
  · cases h
  · exact DocumentError.invalid.inj (Except.error.inj h)

/-! ## Places -/

/-- Whether a place lies in a section: the section as a whole, or one of its items. -/
def Place.isIn (s : Section) : Place → Bool
  | root => false
  | field key => key == s.name
  | item part _ => part == s

theorem isIn_of_mem_violations {s : Section} {value : Option Json} {x : Violation}
    (h : x ∈ s.violations value) (t : Section) : x.place.isIn t = (s == t) := by
  have hname : (s.name == t.name) = (s == t) := by
    cases s <;> cases t <;> decide
  rw [Section.violations.eq_def] at h
  split at h
  · cases h
  · cases h
  · obtain ⟨index, -, hx⟩ := List.mem_filterMap.mp h
    obtain ⟨message, -, rfl⟩ := Option.map_eq_some_iff.mp hx
    rfl
  · rw [List.mem_singleton.mp h]
    exact hname

theorem isIn_of_mem_unknownSections {fields : List (String × Json)} {x : Violation}
    (h : x ∈ unknownSections fields) (s : Section) : x.place.isIn s = false := by
  obtain ⟨f, hf, rfl⟩ := List.mem_map.mp h
  have hunknown := (List.mem_filter.mp hf).2
  have hknown : s.name ∈ Section.names := by cases s <;> decide
  refine beq_eq_false_iff_ne.mpr fun heq => ?_
  rw [heq] at hunknown
  simp [hknown] at hunknown

/-- **A list made section by section** holds for each section what was listed for it. -/
theorem filter_sections {listed : Section → List Violation}
    (h : ∀ s, ∀ x ∈ listed s, ∀ t, x.place.isIn t = (s == t)) (fields : List (String × Json))
    (s : Section) : (unknownSections fields ++ Section.all.flatMap listed).filter
      (fun x => x.place.isIn s) = listed s := by
  have hsection : ∀ t : Section, (listed t).filter (fun x => x.place.isIn s) =
      if t = s then listed s else [] := by
    intro t
    by_cases hts : t = s
    · subst hts
      rw [if_pos rfl, List.filter_eq_self.mpr fun x hx => ?_]
      rw [h t x hx, beq_self_eq_true]
    · rw [if_neg hts, List.filter_eq_nil_iff.mpr fun x hx => ?_]
      rw [h t x hx, beq_eq_false_iff_ne.mpr hts]
      exact Bool.false_ne_true
  have hunknown : (unknownSections fields).filter (fun x => x.place.isIn s) = [] := by
    refine List.filter_eq_nil_iff.mpr fun x hx => ?_
    rw [isIn_of_mem_unknownSections hx]
    exact Bool.false_ne_true
  rw [List.filter_append, hunknown, List.nil_append, List.filter_flatMap]
  simp only [hsection]
  cases s <;> simp [Section.all]

/-- **No place has two violations** in a list made section by section, if none has in a section and
the keys of the mapping are distinct. -/
theorem nodup_places_sections {listed : Section → List Violation}
    (h : ∀ s, ∀ x ∈ listed s, ∀ t, x.place.isIn t = (s == t))
    (hnodup : ∀ s, ((listed s).map Violation.place).Nodup) {fields : List (String × Json)}
    (hdistinct : (fields.map Prod.fst).Nodup) :
    ((unknownSections fields ++ Section.all.flatMap listed).map Violation.place).Nodup := by
  rw [List.map_append, List.map_flatMap, List.nodup_append', List.nodup_flatMap]
  have hdisjoint : ∀ s t : Section, s ≠ t →
      ((listed s).map Violation.place).Disjoint ((listed t).map Violation.place) := by
    intro s t hne p hp hp'
    obtain ⟨x, hx, rfl⟩ := List.mem_map.mp hp
    obtain ⟨y, hy, hplace⟩ := List.mem_map.mp hp'
    have hin := h t y hy t
    rw [hplace, h s x hx t, beq_self_eq_true] at hin
    exact hne (eq_of_beq hin)
  refine ⟨?_, ⟨fun s _ => hnodup s, ?_⟩, fun p hp hp' => ?_⟩
  · have hsublist : ((unknownSections fields).map Violation.place).Sublist
        ((fields.map Prod.fst).map Place.field) := by
      rw [unknownSections, List.map_map, List.map_map]
      exact List.filter_sublist.map _
    exact (hdistinct.map fun _ _ => Place.field.inj).sublist hsublist
  · have hall : Section.all.Nodup := by decide
    exact hall.imp fun hne => hdisjoint _ _ hne
  · obtain ⟨x, hx, rfl⟩ := List.mem_map.mp hp
    obtain ⟨s, -, hp'⟩ := List.mem_flatMap.mp hp'
    obtain ⟨y, hy, hplace⟩ := List.mem_map.mp hp'
    have hin := h s y hy s
    rw [hplace, isIn_of_mem_unknownSections hx, beq_self_eq_true] at hin
    cases hin

/-- **The violations of one section** are told by its value alone. -/
theorem filter_violationsOf (fields : List (String × Json)) (s : Section) :
    (violationsOf fields).filter (fun x => x.place.isIn s) =
      s.violations (Json.field? s.name fields) :=
  filter_sections (fun _ _ hx => isIn_of_mem_violations hx) fields s

theorem nodup_places (s : Section) (value : Option Json) :
    ((s.violations value).map Violation.place).Nodup := by
  rw [Section.violations.eq_def]
  split
  · exact List.nodup_nil
  · exact List.nodup_nil
  · next items =>
    rw [Section.itemViolations, List.map_filterMap]
    refine List.Nodup.filterMap (fun i j place hi hj => ?_) List.nodup_range
    simp only [Option.map_map, Option.mem_def, Option.map_eq_some_iff] at hi hj
    obtain ⟨_, -, rfl⟩ := hi
    obtain ⟨_, -, hj⟩ := hj
    exact (Place.item.inj hj).2.symm
  · exact List.nodup_singleton _

/-- **No item has two violations.** -/
theorem count_item_le_one (fields : List (String × Json)) (s : Section) (index : Nat) :
    ((violationsOf fields).map Violation.place).count (.item s index) ≤ 1 := by
  have hfilter : ((violationsOf fields).map Violation.place).filter (Place.isIn s) =
      (s.violations (Json.field? s.name fields)).map Violation.place := by
    rw [← filter_violationsOf, List.filter_map]
    rfl
  rw [← List.count_filter (show Place.isIn s (.item s index) = true from beq_self_eq_true s),
    hfilter]
  exact List.nodup_iff_count.mp (nodup_places s _) _

/-! ## The outcome -/

/-- **The outcome of a validation.** Null and a mapping without violations are accepted, and nothing
else is. What is accepted is read section by section and item by item. What is refused has all its
violations listed, each once, at least one of them, and those of a section are told by the value of
the section alone. The uuids that are drawn are taken to be new. -/
theorem validate_outcome {value : Json} {fresh : Fresh}
    (hnew : ∀ fields, value = .object fields →
      fresh.IsNew (statedIn fields) (drawsOf fields)) :
    ((∃ v, (validate value fresh).1 = .ok v) ↔
      value = .null ∨ ∃ fields, value = .object fields ∧ violationsOf fields = []) ∧
    (value = .null → (validate value fresh).1 = .ok .empty) ∧
    (∀ fields v, value = .object fields → (validate value fresh).1 = .ok v → v.IsReadOf fields) ∧
    ∀ e, (validate value fresh).1 = .error e → ∃ violations, e = .invalid violations ∧
      violations ≠ [] ∧ ∀ fields, value = .object fields →
        violations.Perm (violationsOf fields) ∧
        (∀ s index, (violations.map Violation.place).count (.item s index) ≤ 1) ∧
        ∀ s : Section, (violations.filter fun x => x.place.isIn s).Perm
          (s.violations (Json.field? s.name fields)) := by
  cases value with
  | object fields =>
    obtain ⟨hperm, hread⟩ := validateFields_spec (hnew fields rfl)
    by_cases hnone : (validateFields fields fresh).violations = []
    · have hok : (validate (.object fields) fresh).1 =
          .ok (validateFields fields fresh).vocabulary := by
        simp only [validate, hnone, List.isEmpty_nil, if_true]
      rw [hnone] at hperm
      refine ⟨⟨fun _ => .inr ⟨fields, rfl, hperm.symm.eq_nil⟩, fun _ => ⟨_, hok⟩⟩,
        fun h => (nomatch h), fun fields' v h hv => ?_, fun e he => ?_⟩
      · cases h
        rw [hok] at hv
        cases hv
        exact hread hnone
      · rw [hok] at he
        cases he
    · have herror : (validate (.object fields) fresh).1 =
          .error (.invalid (validateFields fields fresh).violations) := by
        simp only [validate, List.isEmpty_iff, if_neg hnone]
      refine ⟨⟨fun ⟨v, hv⟩ => ?_, fun h => ?_⟩, fun h => (nomatch h), fun fields' v _ hv => ?_,
        fun e he => ?_⟩
      · rw [herror] at hv
        cases hv
      · obtain h | ⟨fields', h, hviolations⟩ := h
        · cases h
        · cases h
          rw [hviolations] at hperm
          exact absurd hperm.eq_nil hnone
      · rw [herror] at hv
        cases hv
      · rw [herror] at he
        cases he
        refine ⟨_, rfl, hnone, fun fields' h => ?_⟩
        cases h
        refine ⟨hperm, fun s index => ?_, fun s => ?_⟩
        · rw [(hperm.map Violation.place).count_eq]
          exact count_item_le_one fields s index
        · rw [← filter_violationsOf]
          exact hperm.filter _
  | null =>
    exact ⟨⟨fun _ => .inl rfl, fun _ => ⟨_, rfl⟩⟩, fun _ => rfl, fun _ _ h => (nomatch h),
      fun _ h => (nomatch h)⟩
  | _ =>
    refine ⟨⟨fun ⟨_, h⟩ => (nomatch h), fun h => ?_⟩, fun h => (nomatch h), fun _ _ h => (nomatch h),
      fun e he => ?_⟩
    · obtain h | ⟨_, h, -⟩ := h <;> cases h
    · cases he
      exact ⟨_, rfl, List.cons_ne_nil _ _, fun _ h => (nomatch h)⟩

/-- A document with every kind of violation, in which a third category repeats a refused one. -/
def mixedFields : List (String × Json) :=
  let id := Json.string "00000000-0000-0000-0000-00000000000a"
  [("bogus", .null),
    ("modifiers", .array [.null, .object [("name", .string "+"), ("title", .string "")],
      .object [("name", .string " + "), ("title", .string "again")]]),
    ("categories", .array [.object [("name", .bool true)],
      .object [("name", .string "a"), ("uuid", id)], .object [("name", .string "b"), ("uuid", id)],
      .object [("name", .string "c"), ("uuid", id)], .object [("name", .string "a")]]),
    ("scripts", .string "none")]

theorem validate_outcome_mixedFields :
    let fresh : Fresh := ⟨fun k => ⟨BitVec.ofNat 128 k⟩, Supply.constant ⟨0, 0⟩⟩
    (∀ fields, Json.object mixedFields = .object fields →
      fresh.IsNew (statedIn fields) (drawsOf fields)) ∧
    (violationsOf mixedFields).map Violation.place =
      [.field "bogus", .item .modifiers 0, .item .modifiers 2, .item .categories 2,
        .item .categories 3, .field "scripts"] ∧
    ¬ ∃ v, (validate (.object mixedFields) fresh).1 = .ok v := by
  intro fresh
  have hnew : ∀ fields, Json.object mixedFields = .object fields →
      fresh.IsNew (statedIn fields) (drawsOf fields) := by
    intro fields h
    cases h
    exact ⟨by decide +kernel, by decide +kernel⟩
  have hplaces : (violationsOf mixedFields).map Violation.place =
      [.field "bogus", .item .modifiers 0, .item .modifiers 2, .item .categories 2,
        .item .categories 3, .field "scripts"] := by decide +kernel
  refine ⟨hnew, hplaces, fun h => ?_⟩
  obtain h | ⟨fields, h, hnone⟩ := (validate_outcome hnew).1.mp h
  · cases h
  · cases h
    rw [hnone] at hplaces
    cases hplaces

end Methodology
