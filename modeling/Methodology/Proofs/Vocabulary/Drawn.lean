import Methodology.Proofs.Entry.Grammar
import Methodology.Proofs.Vocabulary.Mended
import Methodology.Proofs.Vocabulary.Order
import Methodology.Proofs.Vocabulary.Written

/-!
# What is drawn decides nothing

Two validations of one document that draw other uuids and read other clocks have one outcome: the
same violations in the same order, or vocabularies that differ in what was drawn alone.

* `Schema.Gives`: a field that an item gives.
* `Category.Alike`, `Script.Alike`, `Stamp.Alike`, `Vocabulary.Alike`: **the same but for what was
  drawn**.
* `IsReported.eq`: the violations of a section are listed in one order only.
* `violations_eq_of_isNew`: **the violations** do not depend on what is drawn.
* `isNew_validate`: what is left of a supply behind a validation is still new; `map_size_validate`:
  a validation up to what is drawn.
* **`validate_alike`**: nor does the outcome.
-/

namespace Methodology

open Json Result

/-! ## The same but for what was drawn -/

/-- An item gives a field if a value other than null stands for it. -/
def Schema.Gives (s : Schema) (item : Json) (name : String) : Prop :=
  ∃ v, s.written? item name = some v ∧ v ≠ .null

/-- Categories of an item that are the same, but for a uuid that the item does not give. -/
structure Category.Alike (item : Json) (c d : Category) : Prop where
  same : d = { c with uuid := d.uuid }
  uuid : Category.schema.Gives item "uuid" → c.uuid = d.uuid

/-- Scripts of an item that are the same, but for a uuid that the item does not give. -/
structure Script.Alike (item : Json) (s t : Script) : Prop where
  same : t = { s with uuid := t.uuid }
  uuid : Script.schema.Gives item "uuid" → s.uuid = t.uuid

/-- Stamps of an item that are the same, but for an instant that the item does not give. -/
structure Stamp.Alike (item : Json) (s t : Stamp) : Prop where
  same : t = { s with updated := t.updated }
  updated : Stamp.schema.Gives item "updated" → s.updated = t.updated

/-- Two lists with one entry each for every item of a third, the entries of an item alike. -/
inductive AllAlike {α : Type} (alike : Json → α → α → Prop) : List Json → List α → List α → Prop
  | nil : AllAlike alike [] [] []
  | cons {item : Json} {a b : α} {items : List Json} {xs ys : List α} (head : alike item a b)
    (rest : AllAlike alike items xs ys) : AllAlike alike (item :: items) (a :: xs) (b :: ys)

/-- **Vocabularies of a document that are the same but for what was drawn.** -/
structure Vocabulary.Alike (fields : List (String × Json)) (v w : Vocabulary) : Prop where
  history : AllAlike Stamp.Alike (itemsOf (field? Section.history.name fields)) v.history w.history
  modifiers : v.modifiers = w.modifiers
  categories : AllAlike Category.Alike (itemsOf (field? Section.categories.name fields))
    v.categories w.categories
  actions : v.actions = w.actions
  scripts : AllAlike Script.Alike (itemsOf (field? Section.scripts.name fields)) v.scripts w.scripts

/-! ## Entries of one item -/

theorem Schema.Gives.exists_eq_some {s : Schema} {item : Json} {name : String} {k : Field.Kind}
    {slot : Option k.Carrier} (h : s.Gives item name)
    (hslot : k.MayFill (s.written? item name) slot) : ∃ c, slot = some c := by
  obtain ⟨v, hv, hnull⟩ := h
  rw [hv] at hslot
  cases hslot with
  | null => exact absurd rfl hnull
  | value _ => exact ⟨_, rfl⟩

theorem IsReadFrom.exists_draft {α : Type} [Entry α] {item : Json} {a b : α}
    (ha : IsReadFrom item a) (hb : IsReadFrom item b) : ∃ d fresh fresh',
      Entry.ofValue α item = .ok d ∧ (Entry.settle d fresh).1 = a ∧
        (Entry.settle d fresh').1 = b := by
  obtain ⟨d, fresh, hd, ha⟩ := ha
  obtain ⟨d', fresh', hd', hb⟩ := hb
  cases Except.ok.inj (hd.symm.trans hd')
  exact ⟨d, fresh, fresh', hd, ha, hb⟩

theorem Category.alike_of_isReadFrom {item : Json} {c d : Category} (hc : IsReadFrom item c)
    (hd : IsReadFrom item d) : Category.Alike item c d := by
  obtain ⟨draft, fresh, fresh', hread, rfl, rfl⟩ := hc.exists_draft hd
  refine ⟨rfl, fun hgives => ?_⟩
  obtain ⟨uuid, name, description, hgrammar, rfl⟩ := Category.ofValue_eq_ok_iff.mp hread
  obtain ⟨u, rfl⟩ := hgives.exists_eq_some hgrammar.uuid
  rfl

theorem Script.alike_of_isReadFrom {item : Json} {s t : Script} (hs : IsReadFrom item s)
    (ht : IsReadFrom item t) : Script.Alike item s t := by
  obtain ⟨draft, fresh, fresh', hread, rfl, rfl⟩ := hs.exists_draft ht
  refine ⟨rfl, fun hgives => ?_⟩
  obtain ⟨uuid, text, hgrammar, rfl⟩ := Script.ofValue_eq_ok_iff.mp hread
  obtain ⟨u, rfl⟩ := hgives.exists_eq_some hgrammar.uuid
  rfl

theorem Stamp.alike_of_isReadFrom {item : Json} {s t : Stamp} (hs : IsReadFrom item s)
    (ht : IsReadFrom item t) : Stamp.Alike item s t := by
  obtain ⟨draft, fresh, fresh', hread, rfl, rfl⟩ := hs.exists_draft ht
  refine ⟨rfl, fun hgives => ?_⟩
  obtain ⟨name, description, updated, hgrammar, rfl⟩ := Stamp.ofValue_eq_ok_iff.mp hread
  obtain ⟨at', rfl⟩ := hgives.exists_eq_some hgrammar.updated
  rfl

theorem Modifier.isReadFrom_unique : Relator.RightUnique (IsReadFrom (α := Modifier)) := by
  intro item a b ha hb
  obtain ⟨d, fresh, fresh', -, rfl, rfl⟩ := ha.exists_draft hb
  rfl

theorem Action.isReadFrom_unique : Relator.RightUnique (IsReadFrom (α := Action)) := by
  intro item a b ha hb
  obtain ⟨d, fresh, fresh', -, rfl, rfl⟩ := ha.exists_draft hb
  rfl

theorem allAlike_of_isReadFrom {α : Type} [Entry α] {alike : Json → α → α → Prop}
    (halike : ∀ {item a b}, IsReadFrom item a → IsReadFrom item b → alike item a b)
    {items : List Json} {xs ys : List α} (hxs : List.Forall₂ IsReadFrom items xs)
    (hys : List.Forall₂ IsReadFrom items ys) : AllAlike alike items xs ys := by
  induction hxs generalizing ys with
  | nil =>
    cases hys
    exact .nil
  | cons ha _ ih =>
    cases hys with
    | cons hb hys => exact .cons (halike ha hb) (ih hys)

/-- **Vocabularies that are read from one document** are the same but for what was drawn. -/
theorem Vocabulary.IsReadOf.alike {fields : List (String × Json)} {v w : Vocabulary}
    (hv : v.IsReadOf fields) (hw : w.IsReadOf fields) : v.Alike fields w where
  history := allAlike_of_isReadFrom Stamp.alike_of_isReadFrom hv.history hw.history
  modifiers := List.right_unique_forall₂' Modifier.isReadFrom_unique hv.modifiers hw.modifiers
  categories := allAlike_of_isReadFrom Category.alike_of_isReadFrom hv.categories hw.categories
  actions := List.right_unique_forall₂' Action.isReadFrom_unique hv.actions hw.actions
  scripts := allAlike_of_isReadFrom Script.alike_of_isReadFrom hv.scripts hw.scripts

/-! ## The violations -/

theorem eq_filterMap_indicesIn {s : Section} {items : List Json} {found : List Violation}
    (h : ∀ x ∈ found, x ∈ s.itemViolations items) : found =
      (indicesIn s found).filterMap fun index => (s.fault? items index).map (violationAt s index) := by
  induction found with
  | nil => rfl
  | cons x found ih =>
    obtain ⟨hx, hfound⟩ := List.forall_mem_cons.mp h
    obtain ⟨index, -, message, hfault, heq⟩ := exists_fault_of_mem hx
    obtain rfl : x = violationAt s index message := heq
    rw [indicesIn_cons_violationAt, List.filterMap_cons, hfault, Option.map_some]
    exact congrArg _ (ih hfound)

/-- The items of a section that are reported stand in one order: first those that do not read, and
then those that are refused, each in their own. -/
theorem IsReported.indicesIn_eq {fields : List (String × Json)} {s : Section}
    {found found' : List Violation} (h : IsReported fields s found)
    (h' : IsReported fields s found') (hperm : found.Perm found') :
    indicesIn s found = indicesIn s found' := by
  obtain ⟨refused, hindices, hsublist⟩ := h.ordered
  obtain ⟨refused', hindices', hsublist'⟩ := h'.ordered
  have hrefused : refused.Perm refused' := by
    have hindicesPerm : (indicesIn s found).Perm (indicesIn s found') := hperm.filterMap _
    rw [hindices, hindices'] at hindicesPerm
    exact (List.perm_append_left_iff _).mp hindicesPerm
  have hincreasing := pairwise_indices s true (itemsOf (field? s.name fields))
  rw [hindices, hindices', List.Perm.eq_of_pairwise
    (fun _ _ _ _ hlt hgt => absurd hlt (Nat.lt_asymm hgt))
    (hincreasing.sublist hsublist) (hincreasing.sublist hsublist') hrefused]

theorem IsReported.eq {fields : List (String × Json)} {s : Section} {found found' : List Violation}
    (h : IsReported fields s found) (h' : IsReported fields s found')
    (hperm : found.Perm (s.violations (field? s.name fields)))
    (hperm' : found'.Perm (s.violations (field? s.name fields))) : found = found' := by
  have hindices := h.indicesIn_eq h' (hperm.trans hperm'.symm)
  cases hfield : field? s.name fields with
  | none =>
    rw [hfield] at hperm hperm'
    rw [hperm.eq_nil, hperm'.eq_nil]
  | some value =>
    rw [hfield] at hperm hperm'
    cases value with
    | array items =>
      rw [eq_filterMap_indicesIn fun _ hx => hperm.mem_iff.mp hx, hindices,
        ← eq_filterMap_indicesIn fun _ hx => hperm'.mem_iff.mp hx]
    | null => rw [hperm.eq_nil, hperm'.eq_nil]
    | _ => rw [List.perm_singleton.mp hperm, List.perm_singleton.mp hperm']

/-- **The violations of a document** do not depend on what is drawn, as long as it is new. -/
theorem violations_eq_of_isNew {fields : List (String × Json)} {fresh fresh' : Fresh}
    (hnew : fresh.IsNew (statedIn fields) (drawsOf fields))
    (hnew' : fresh'.IsNew (statedIn fields) (drawsOf fields)) :
    (validateFields fields fresh).violations = (validateFields fields fresh').violations := by
  obtain ⟨found, hfound, hreported⟩ := exists_isReported fields fresh
  obtain ⟨found', hfound', hreported'⟩ := exists_isReported fields fresh'
  have hperm := (validateFields_spec hnew).1
  have hperm' := (validateFields_spec hnew').1
  rw [hfound] at hperm ⊢
  rw [hfound'] at hperm' ⊢
  -- what is listed for one section has all violations of the section
  have hsection : ∀ s, (found s).Perm (s.violations (field? s.name fields)) := fun s => by
    rw [← filter_sections (fun t => (hreported t).inside) fields s, ← filter_violationsOf]
    exact hperm.filter _
  have hsection' : ∀ s, (found' s).Perm (s.violations (field? s.name fields)) := fun s => by
    rw [← filter_sections (fun t => (hreported' t).inside) fields s, ← filter_violationsOf]
    exact hperm'.filter _
  have heq : found = found' :=
    funext fun s => (hreported s).eq (hreported' s) (hsection s) (hsection' s)
  rw [heq]

/-! ## What is left of a supply -/

theorem Fresh.IsNew.mono {fresh : Fresh} {known known' : List Identity} {m n : Nat}
    (h : fresh.IsNew known n) (hknown : known' ⊆ known) (hm : m ≤ n) : fresh.IsNew known' m where
  distinct i hi j hj := h.distinct i (Nat.lt_of_lt_of_le hi hm) j (Nat.lt_of_lt_of_le hj hm)
  unknown i hi hmem := h.unknown i (Nat.lt_of_lt_of_le hi hm) (hknown hmem)

section Left

variable {α : Type} [Entry α] [Member α] [Stated α] {known : List Identity} {fresh : Fresh} {n : Nat}

theorem isNew_settle {v : Json} {d : Entry.Draft α} (hread : Entry.ofValue α v = .ok d)
    (h : fresh.IsNew known ((Member.part α).draws v + n)) :
    (Entry.settle d fresh).2.IsNew known n := by
  have hle : n ≤ (Member.part α).draws v + n := Nat.le_add_left _ _
  cases hstated : Stated.stated? d with
  | some k => exact h.of_eq (Stated.settle_of_some hstated fresh).2 hle
  | none =>
    rcases Stated.settle_of_none hread hstated fresh with ⟨-, huuids⟩ | ⟨-, huuids, hdraws⟩
    · exact h.of_eq huuids hle
    · rw [hdraws, Nat.add_comm] at h
      exact h.next huuids

theorem isNew_settleAll {items : List Json} {index : Nat}
    (h : fresh.IsNew known ((Member.part α).drawsAll items + n)) :
    (settleAll (readItems α (Member.part α) index items).2 fresh).2.IsNew known n := by
  induction items generalizing index fresh with
  | nil => exact h.of_eq rfl (Nat.le_add_left _ _)
  | cons v items ih =>
    rw [Section.drawsAll, List.map_cons, List.sum_cons, ← Section.drawsAll, Nat.add_assoc] at h
    simp only [readItems]
    cases hread : Entry.ofValue α v with
    | error m => exact ih (h.of_eq rfl (Nat.le_add_left _ _))
    | ok d => exact ih (isNew_settle hread h)

theorem isNew_takeMember {fields : List (String × Json)} {s : Validation}
    (h : s.fresh.IsNew known
      ((Member.part α).drawsAll (itemsOf (field? (Member.part α).name fields)) + n)) :
    (s.takeMember α fields).fresh.IsNew known n := by
  rw [Validation.takeMember, Validation.takeSection]
  rcases readSection_cases (α := α) (Member.part α) fields with
    ⟨items, hfield⟩ | ⟨hitems, unread, hread, -⟩
  · have hread : readSection α (Member.part α) fields = readItems α (Member.part α) 0 items := by
      rw [readSection, hfield]
    rw [hfield] at h
    rw [hread]
    exact isNew_settleAll h
  · rw [hread]
    exact h.of_eq rfl (Nat.le_add_left _ _)

end Left

section Outcome

variable {known : List Identity} {fresh fresh' : Fresh} {n : Nat}

theorem isNew_validateFields {fields : List (String × Json)}
    (h : fresh.IsNew known (drawsOf fields + n)) :
    (validateFields fields fresh).fresh.IsNew known n := by
  simp only [drawsOf, Section.all, List.map_cons, List.map_nil, List.sum_cons, List.sum_nil,
    Nat.add_assoc, Nat.zero_add] at h
  rw [validateFields_eq]
  exact isNew_takeMember (α := Script) (isNew_takeMember (α := Action)
    (isNew_takeMember (α := Category) (isNew_takeMember (α := Modifier)
      (isNew_takeMember (α := Stamp) h))))

theorem isNew_validate {value : Json} (h : fresh.IsNew known (drawsOf (fieldsOf value) + n)) :
    (validate value fresh).2.IsNew known n := by
  cases value with
  | object fields => exact isNew_validateFields h
  | _ => exact h.of_eq rfl (Nat.le_add_left _ _)

theorem Vocabulary.IsReadOf.size_eq {fields : List (String × Json)} {v : Vocabulary}
    (h : v.IsReadOf fields) :
    v.size = (Section.all.map fun s => (itemsOf (field? s.name fields)).length).sum := by
  simp only [Section.all, List.map_cons, List.map_nil, List.sum_cons, List.sum_nil, Vocabulary.size,
    ← h.history.length_eq, ← h.modifiers.length_eq, ← h.categories.length_eq,
    ← h.actions.length_eq, ← h.scripts.length_eq]
  omega

theorem size_of_validate {value : Json} {v : Vocabulary} (h : (validate value fresh).1 = .ok v) :
    v.size = (Section.all.map fun s => (itemsOf (field? s.name (fieldsOf value))).length).sum := by
  cases value with
  | object fields => exact (isReadOf_of_validate h).2.size_eq
  | null =>
    cases h
    rfl
  | _ => cases h

/-- **The outcome of a validation** up to what is drawn: the size, or the violations. -/
theorem map_size_validate {value : Json}
    (hnew : fresh.IsNew (statedIn (fieldsOf value)) (drawsOf (fieldsOf value)))
    (hnew' : fresh'.IsNew (statedIn (fieldsOf value)) (drawsOf (fieldsOf value))) :
    (validate value fresh).1.map Vocabulary.size = (validate value fresh').1.map Vocabulary.size := by
  cases value with
  | object fields =>
    have heq : (validateFields fields fresh).violations =
        (validateFields fields fresh').violations := violations_eq_of_isNew hnew hnew'
    by_cases hnone : (validateFields fields fresh).violations = []
    · have hread := (isReadOf_of_validateFields hnone).2
      have hread' := (isReadOf_of_validateFields (heq ▸ hnone)).2
      simp only [validate, hnone, heq ▸ hnone, List.isEmpty_nil, if_true, map_ok, hread.size_eq,
        hread'.size_eq]
    · simp only [validate, heq, List.isEmpty_iff, if_neg (heq ▸ hnone)]
  | _ => rfl

end Outcome

/-! ## The outcome -/

/-- **What is drawn decides nothing.** Two validations of a data value that draw new uuids, and read
the clock at any time, both refuse it or both accept it. If they refuse it, they list the same
violations in the same order. If they accept it, their vocabularies have an entry for each item, and
the two entries of an item differ in no more than a uuid or an instant that the item does not give. -/
theorem validate_alike {value : Json} {fresh fresh' : Fresh}
    (hnew : fresh.IsNew (statedIn (fieldsOf value)) (drawsOf (fieldsOf value)))
    (hnew' : fresh'.IsNew (statedIn (fieldsOf value)) (drawsOf (fieldsOf value))) :
    (∃ e, (validate value fresh).1 = .error e ∧ (validate value fresh').1 = .error e) ∨
    ∃ v w, (validate value fresh).1 = .ok v ∧ (validate value fresh').1 = .ok w ∧
      v.Alike (fieldsOf value) w := by
  cases value with
  | null => exact .inr ⟨.empty, .empty, rfl, rfl, .nil, rfl, .nil, rfl, .nil⟩
  | object fields =>
    have heq : (validateFields fields fresh).violations =
        (validateFields fields fresh').violations := violations_eq_of_isNew hnew hnew'
    by_cases hnone : (validateFields fields fresh).violations = []
    · refine .inr ⟨(validateFields fields fresh).vocabulary,
        (validateFields fields fresh').vocabulary, ?_, ?_, ?_⟩
      · simp only [validate, hnone, List.isEmpty_nil, if_true]
      · simp only [validate, heq ▸ hnone, List.isEmpty_nil, if_true]
      · have hread := (isReadOf_of_validateFields hnone).2
        exact hread.alike (isReadOf_of_validateFields (heq ▸ hnone)).2
    · refine .inl ⟨.invalid (validateFields fields fresh).violations, ?_, ?_⟩
      · simp only [validate, List.isEmpty_iff, if_neg hnone]
      · simp only [validate, heq, List.isEmpty_iff, if_neg (heq ▸ hnone)]
  | _ => exact .inl ⟨_, rfl, rfl⟩

/-- A document with an item that gives its uuid and items that leave something to be drawn. -/
def openFields : List (String × Json) :=
  [("history", .array [.object [("name", .string "n")]]),
    ("categories", .array [.object [("name", .string "a")],
      .object [("name", .string "a"), ("uuid", .string "00000000-0000-0000-0000-00000000000a")]]),
    ("scripts", .array [.object [("script", .string "s"), ("uuid", .null)]])]

theorem validate_alike_openFields :
    let fresh : Fresh := ⟨fun k => ⟨BitVec.ofNat 128 k⟩, Supply.constant ⟨0, 0⟩⟩
    let fresh' : Fresh := ⟨fun k => ⟨BitVec.ofNat 128 (k + 11)⟩, Supply.constant ⟨1, 0⟩⟩
    fresh.IsNew (statedIn openFields) (drawsOf openFields) ∧
    fresh'.IsNew (statedIn openFields) (drawsOf openFields) ∧
    ∃ v w, (validate (.object openFields) fresh).1 = .ok v ∧
      (validate (.object openFields) fresh').1 = .ok w ∧ v.Alike openFields w ∧ v ≠ w := by
  intro fresh fresh'
  have hnew : fresh.IsNew (statedIn openFields) (drawsOf openFields) :=
    ⟨by decide +kernel, by decide +kernel⟩
  have hnew' : fresh'.IsNew (statedIn openFields) (drawsOf openFields) :=
    ⟨by decide +kernel, by decide +kernel⟩
  have hok : (validate (.object openFields) fresh).1.isOk := by decide +kernel
  have hne : (validate (.object openFields) fresh).1 ≠ (validate (.object openFields) fresh').1 := by
    decide +kernel
  refine ⟨hnew, hnew', ?_⟩
  rcases @validate_alike (.object openFields) fresh fresh' hnew hnew' with
    ⟨e, he, -⟩ | ⟨v, w, hv, hw, h⟩
  · rw [he] at hok
    exact absurd hok Bool.false_ne_true
  · rw [hv, hw] at hne
    exact ⟨v, w, hv, hw, h, fun heq => hne (congrArg _ heq)⟩

end Methodology
