import Mathlib.Data.List.Induction
import Methodology.Proofs.Json.Fields
import Methodology.Proofs.Vocabulary.Outcome

/-!
# Documents that are mended

What is found at fault is deleted from a document, in whole or but for one thing. A duplicate that is
deleted leaves the first item with its identity behind, and an item that does not read states none,
so every other item is judged as before.

* `without`: a document without what stands at certain places; `Place.shift`: where a place is then.
* `mem_stated_keptItems`: **the invariant.** Items at fault take no identity with them.
* `itemViolations_keptItems`: the violations of the items that are kept.
* `violationsOf_without`: **deleting what is at fault** leaves every other violation, and makes none.
* **`validate_without`**: a document without its violations is accepted, and one with a single one of
  them is refused for it alone.
-/

namespace Methodology

open Json

/-! ## Deletions -/

/-- The items of a section but for those at certain places. -/
def keptItems (s : Section) (gone : List Place) (items : List Json) : List Json :=
  (items.zipIdx.filter fun p => .item s p.2 ∉ gone).map Prod.fst

/-- The section that a key names. -/
def Section.named? (key : String) : Option Section := Section.all.find? fun s => s.name = key

/-- What stands under a key but for items at certain places. -/
def keptValue (gone : List Place) (key : String) (value : Json) : Json :=
  match Section.named? key, value with
  | some s, .array items => .array (keptItems s gone items)
  | _, _ => value

/-- **A document without what stands at certain places.** -/
def without (gone : List Place) (fields : List (String × Json)) : List (String × Json) :=
  (fields.filter fun f => .field f.1 ∉ gone).map fun f => (f.1, keptValue gone f.1 f.2)

/-- Where a place is when others are gone: an item moves up by those that are gone before it. -/
def Place.shift (gone : List Place) : Place → Place
  | root => root
  | field key => field key
  | item s index => item s ((List.range index).countP fun i => item s i ∉ gone)

/-- What stands at a place. -/
def Place.value? (fields : List (String × Json)) : Place → Option Json
  | root => none
  | field key => field? key fields
  | item s index => (itemsOf (field? s.name fields))[index]?

/-- A violation at the place where it is when others are gone. -/
def Violation.moved (gone : List Place) (x : Violation) : Violation :=
  ⟨x.place.shift gone, x.message⟩

/-! ## The items of a section -/

section Items

variable {s : Section} {gone : List Place}

theorem keptItems_concat (items : List Json) (x : Json) : keptItems s gone (items ++ [x]) =
    keptItems s gone items ++ if .item s items.length ∈ gone then [] else [x] := by
  rw [keptItems, List.zipIdx_append, List.filter_append, List.map_append, ← keptItems]
  by_cases h : .item s items.length ∈ gone <;> simp [h]

theorem length_keptItems (items : List Json) : (keptItems s gone items).length =
    (List.range items.length).countP fun i => .item s i ∉ gone := by
  induction items using List.reverseRecOn with
  | nil => rfl
  | append_singleton items x ih =>
    rw [keptItems_concat, List.length_append, ih, List.length_append, List.length_singleton,
      List.range_succ, List.countP_append]
    by_cases h : .item s items.length ∈ gone <;> simp [h]

/-- **An item that is kept** is found at the place that it is moved to. -/
theorem getElem?_keptItems {items : List Json} {index : Nat} (hlt : index < items.length)
    (hkept : .item s index ∉ gone) :
    (keptItems s gone items)[(List.range index).countP fun i => .item s i ∉ gone]? =
      items[index]? := by
  induction items using List.reverseRecOn with
  | nil => cases hlt
  | append_singleton items x ih =>
    rw [keptItems_concat]
    by_cases hlast : index = items.length
    · subst hlast
      rw [← length_keptItems, if_neg hkept, List.getElem?_concat_length,
        List.getElem?_concat_length]
    · rw [List.length_append, List.length_singleton] at hlt
      have hbefore : index < items.length := by omega
      have hitem := ih hbefore
      obtain ⟨hplace, -⟩ := List.getElem?_eq_some_iff.mp
        (hitem.trans (List.getElem?_eq_getElem hbefore))
      rw [List.getElem?_append_left hplace, List.getElem?_append_left hbefore, hitem]

theorem fault?_concat_of_lt {items : List Json} {index : Nat} (hlt : index < items.length)
    (x : Json) : s.fault? (items ++ [x]) index = s.fault? items index := by
  rw [Section.fault?, Section.fault?, List.getElem?_append_left hlt,
    List.take_append_of_le_length (Nat.le_of_lt hlt)]

theorem itemViolations_concat (items : List Json) (x : Json) : s.itemViolations (items ++ [x]) =
    s.itemViolations items ++
      ((s.fault? (items ++ [x]) items.length).map (violationAt s items.length)).toList := by
  have hbefore : ∀ index ∈ List.range items.length,
      (s.fault? (items ++ [x]) index).map (violationAt s index) =
        (s.fault? items index).map (violationAt s index) := by
    intro index hindex
    rw [fault?_concat_of_lt (List.mem_range.mp hindex)]
  change List.filterMap (fun index => (s.fault? (items ++ [x]) index).map (violationAt s index))
    _ = _
  rw [List.length_append, List.length_singleton, List.range_succ, List.filterMap_append,
    List.filterMap_congr hbefore]
  congr 1

theorem exists_fault_of_mem {items : List Json} {x : Violation} (hx : x ∈ s.itemViolations items) :
    ∃ index < items.length, ∃ message, s.fault? items index = some message ∧
      x = ⟨.item s index, message⟩ := by
  obtain ⟨index, hindex, hx⟩ := List.mem_filterMap.mp hx
  obtain ⟨message, hmessage, rfl⟩ := Option.map_eq_some_iff.mp hx
  exact ⟨index, List.mem_range.mp hindex, message, hmessage, rfl⟩

/-- Whether an item is at fault depends on the identities that are stated before it, and on nothing
else. -/
theorem fault?_concat_congr {items items' : List Json}
    (h : ∀ k, k ∈ items.filterMap s.stated? ↔ k ∈ items'.filterMap s.stated?) (x : Json) :
    s.fault? (items ++ [x]) items.length = s.fault? (items' ++ [x]) items'.length := by
  rw [fault?_append, fault?_append]
  simp only [h]

theorem stated?_mem_of_fault {items : List Json} {x : Json} {k : Identity}
    (hfault : (s.fault? (items ++ [x]) items.length).isSome) (hk : s.stated? x = some k) :
    k ∈ items.filterMap s.stated? := by
  rw [fault?_append] at hfault
  rw [Section.stated?] at hk
  cases hidentity : s.identityOf x with
  | error m =>
    rw [hidentity] at hk
    cases hk
  | ok k' =>
    rw [hidentity] at hfault hk
    cases hk
    by_contra hnew
    simp [hnew] at hfault

/-- **Items at fault take no identity with them**: what the items that are kept state is what all
items state. -/
theorem mem_stated_keptItems {items : List Json}
    (hgone : ∀ i < items.length, .item s i ∈ gone → (s.fault? items i).isSome) (k : Identity) :
    k ∈ (keptItems s gone items).filterMap s.stated? ↔ k ∈ items.filterMap s.stated? := by
  induction items using List.reverseRecOn with
  | nil => rfl
  | append_singleton items x ih =>
    rw [List.length_append, List.length_singleton] at hgone
    have hbefore : ∀ i < items.length, .item s i ∈ gone → (s.fault? items i).isSome := by
      intro i hi h
      rw [← fault?_concat_of_lt hi x]
      exact hgone i (Nat.lt_succ_of_lt hi) h
    rw [keptItems_concat, filterMap_stated?_concat, List.mem_append, Option.mem_toList]
    by_cases h : .item s items.length ∈ gone
    · have hlast := hgone items.length (Nat.lt_succ_self _) h
      rw [if_pos h, List.append_nil, ih hbefore]
      exact ⟨.inl, fun hk => hk.elim id (stated?_mem_of_fault hlast)⟩
    · rw [if_neg h, filterMap_stated?_concat, List.mem_append, Option.mem_toList, ih hbefore]

/-- **The violations of the items that are kept** are those that they had among all items. -/
theorem itemViolations_keptItems {items : List Json}
    (hgone : ∀ i < items.length, .item s i ∈ gone → (s.fault? items i).isSome) :
    s.itemViolations (keptItems s gone items) =
      ((s.itemViolations items).filter fun x => x.place ∉ gone).map (Violation.moved gone) := by
  induction items using List.reverseRecOn with
  | nil => rfl
  | append_singleton items x ih =>
    rw [List.length_append, List.length_singleton] at hgone
    have hbefore : ∀ i < items.length, .item s i ∈ gone → (s.fault? items i).isSome := by
      intro i hi h
      rw [← fault?_concat_of_lt hi x]
      exact hgone i (Nat.lt_succ_of_lt hi) h
    rw [keptItems_concat, itemViolations_concat, List.filter_append, List.map_append,
      ← ih hbefore]
    by_cases h : .item s items.length ∈ gone
    · rw [if_pos h, List.append_nil]
      cases s.fault? (items ++ [x]) items.length <;> simp [violationAt, h]
    · rw [if_neg h, itemViolations_concat,
        fault?_concat_congr (mem_stated_keptItems hbefore) x]
      congr 1
      cases s.fault? (items ++ [x]) items.length <;>
        simp [violationAt, h, Violation.moved, Place.shift, length_keptItems]

end Items

/-! ## The sections of a document -/

theorem Section.named?_name (s : Section) : Section.named? s.name = some s := by
  cases s <;> decide

theorem Section.named?_eq_none {key : String} (h : key ∉ Section.names) :
    Section.named? key = none :=
  List.find?_eq_none.mpr fun _ hs heq =>
    h (of_decide_eq_true heq ▸ List.mem_map_of_mem hs)

theorem keptValue_array (s : Section) (gone : List Place) (items : List Json) :
    keptValue gone s.name (.array items) = .array (keptItems s gone items) := by
  simp only [keptValue, Section.named?_name]

theorem keptValue_of_unknown {gone : List Place} {key : String} (h : key ∉ Section.names)
    (value : Json) : keptValue gone key value = value := by
  simp only [keptValue, Section.named?_eq_none h]

theorem keptValue_of_ne_array {gone : List Place} {key : String} {value : Json}
    (h : ∀ items, value ≠ .array items) : keptValue gone key value = value := by
  unfold keptValue
  split
  · exact absurd rfl (h _)
  · rfl

/-- **A field that is kept** is found under its key. -/
theorem field?_without (gone : List Place) (fields : List (String × Json)) (key : String) :
    field? key (without gone fields) =
      if .field key ∈ gone then none else (field? key fields).map (keptValue gone key) := by
  induction fields with
  | nil => split <;> rfl
  | cons f fields ih =>
    rw [field?_cons]
    by_cases hgone : .field f.1 ∈ gone
    · have hrest : without gone (f :: fields) = without gone fields := by
        simp [without, hgone]
      rw [hrest, ih]
      by_cases hkey : key = f.1
      · rw [hkey, if_pos hgone, if_pos hgone]
      · rw [if_neg hkey]
    · have hrest : without gone (f :: fields) =
          (f.1, keptValue gone f.1 f.2) :: without gone fields := by
        simp [without, hgone]
      rw [hrest, field?_cons, ih]
      by_cases hkey : key = f.1
      · rw [if_pos hkey, hkey, if_neg hgone, if_pos rfl, Option.map_some]
      · rw [if_neg hkey, if_neg hkey]

section Sections

variable {gone : List Place} {fields : List (String × Json)}

theorem mem_violations_of_isIn {s : Section} {x : Violation} (hx : x ∈ violationsOf fields)
    (hin : x.place.isIn s) : x ∈ s.violations (field? s.name fields) := by
  rw [← filter_violationsOf]
  exact List.mem_filter.mpr ⟨hx, hin⟩

variable (hfaulty : ∀ p ∈ gone, p ∈ (violationsOf fields).map Violation.place)

include hfaulty

theorem exists_violation_of_gone {s : Section} {p : Place} (hp : p ∈ gone) (hin : p.isIn s) :
    ∃ x ∈ s.violations (field? s.name fields), x.place = p := by
  obtain ⟨x, hx, rfl⟩ := List.mem_map.mp (hfaulty p hp)
  exact ⟨x, mem_violations_of_isIn hx hin, rfl⟩

theorem field_not_gone {s : Section} {items : List Json}
    (hfield : field? s.name fields = some (.array items)) : .field s.name ∉ gone := by
  intro hgone
  obtain ⟨x, hx, hplace⟩ := exists_violation_of_gone hfaulty hgone (s := s) (beq_self_eq_true _)
  rw [hfield] at hx
  obtain ⟨index, -, message, -, rfl⟩ := exists_fault_of_mem hx
  cases hplace

theorem fault?_of_gone {s : Section} {items : List Json}
    (hfield : field? s.name fields = some (.array items)) {i : Nat}
    (hgone : .item s i ∈ gone) : (s.fault? items i).isSome := by
  obtain ⟨x, hx, hplace⟩ := exists_violation_of_gone hfaulty hgone (s := s) (beq_self_eq_true _)
  rw [hfield] at hx
  obtain ⟨index, -, message, hmessage, rfl⟩ := exists_fault_of_mem hx
  cases hplace
  rw [hmessage]
  rfl

theorem field?_without_of_array {s : Section} {items : List Json}
    (hfield : field? s.name fields = some (.array items)) :
    field? s.name (without gone fields) = some (.array (keptItems s gone items)) := by
  rw [field?_without, if_neg (field_not_gone hfaulty hfield), hfield, Option.map_some,
    keptValue_array]

theorem violations_without (s : Section) : s.violations (field? s.name (without gone fields)) =
    ((s.violations (field? s.name fields)).filter fun x => x.place ∉ gone).map
      (Violation.moved gone) := by
  cases hfield : field? s.name fields with
  | none =>
    rw [field?_without, hfield]
    split <;> rfl
  | some value =>
    cases value with
    | array items =>
      rw [field?_without_of_array hfaulty hfield]
      exact itemViolations_keptItems fun i _ => fault?_of_gone hfaulty hfield
    | _ =>
      rw [field?_without, hfield]
      by_cases hgone : .field s.name ∈ gone <;>
        simp [hgone, keptValue, Section.violations, Violation.moved, Place.shift]

omit hfaulty in
theorem unknownSections_without : unknownSections (without gone fields) =
    ((unknownSections fields).filter fun x => x.place ∉ gone).map (Violation.moved gone) := by
  rw [unknownSections, unknownSections, without, List.filter_map, List.filter_map, List.map_map,
    List.map_map, List.filter_filter, List.filter_filter]
  congr 1
  exact List.filter_congr fun f _ => Bool.and_comm _ _

/-- **Deleting what is at fault** leaves every other violation, and makes none. -/
theorem violationsOf_without : violationsOf (without gone fields) =
    ((violationsOf fields).filter fun x => x.place ∉ gone).map (Violation.moved gone) := by
  rw [violationsOf, violationsOf, List.filter_append, List.map_append, unknownSections_without,
    List.filter_flatMap, List.map_flatMap]
  simp only [violations_without hfaulty]

/-- **What stands at the place of a violation** stands where the violation is moved to. -/
theorem value?_moved {x : Violation} (hx : x ∈ violationsOf fields) (hkept : x.place ∉ gone) :
    ∃ value, x.place.value? fields = some value ∧
      (x.moved gone).place.value? (without gone fields) = some value := by
  rcases List.mem_append.mp hx with hunknown | hsection
  · obtain ⟨f, hf, rfl⟩ := List.mem_map.mp hunknown
    obtain ⟨hf, hname⟩ := List.mem_filter.mp hf
    have hunknown : f.1 ∉ Section.names := by simpa using hname
    cases hfield : field? f.1 fields with
    | none => exact absurd (List.mem_map_of_mem hf) (field?_eq_none.mp hfield)
    | some value =>
      refine ⟨value, hfield, ?_⟩
      change field? f.1 (without gone fields) = some value
      rw [field?_without, if_neg hkept, hfield, Option.map_some, keptValue_of_unknown hunknown]
  · obtain ⟨s, -, hx⟩ := List.mem_flatMap.mp hsection
    cases hfield : field? s.name fields with
    | none => simp [hfield, Section.violations] at hx
    | some value =>
      rw [hfield] at hx
      cases value with
      | null => cases hx
      | array items =>
        obtain ⟨index, hlt, message, -, rfl⟩ := exists_fault_of_mem hx
        have hitem := List.getElem?_eq_getElem hlt
        refine ⟨items[index], ?_, ?_⟩
        · rw [Place.value?, hfield]
          exact hitem
        · rw [Violation.moved, Place.shift, Place.value?, field?_without_of_array hfaulty hfield]
          exact (getElem?_keptItems hlt hkept).trans hitem
      | _ =>
        obtain rfl := List.mem_singleton.mp hx
        refine ⟨_, hfield, ?_⟩
        change field? s.name (without gone fields) = _
        rw [field?_without, if_neg hkept, hfield, Option.map_some,
          keptValue_of_ne_array fun _ => Json.noConfusion]

end Sections

/-- **No place has two violations**, the keys of a mapping being distinct. -/
theorem nodup_places_violationsOf {fields : List (String × Json)}
    (hdistinct : (fields.map Prod.fst).Nodup) :
    ((violationsOf fields).map Violation.place).Nodup :=
  nodup_places_sections (fun _ _ hx => isIn_of_mem_violations hx)
    (fun s => nodup_places s _) hdistinct

/-! ## The validation of what is left -/

theorem validate_of_no_violations {fields : List (String × Json)} {fresh : Fresh}
    (hnew : fresh.IsNew (statedIn fields) (drawsOf fields)) (hnone : violationsOf fields = []) :
    ∃ v, (validate (.object fields) fresh).1 = .ok v ∧ v.IsReadOf fields := by
  obtain ⟨hperm, hread⟩ := validateFields_spec hnew
  rw [hnone] at hperm
  have hempty := hperm.eq_nil
  refine ⟨_, ?_, hread hempty⟩
  simp only [validate, hempty, List.isEmpty_nil, if_true]

theorem validate_of_one_violation {fields : List (String × Json)} {fresh : Fresh} {x : Violation}
    (hnew : fresh.IsNew (statedIn fields) (drawsOf fields)) (hone : violationsOf fields = [x]) :
    (validate (.object fields) fresh).1 = .error (.invalid [x]) := by
  have hperm := (validateFields_spec hnew).1
  rw [hone] at hperm
  have hsingle := List.perm_singleton.mp hperm
  simp [validate, hsingle]

/-- **A document that is mended.** Without what all its violations are about it is accepted, and read
as what is left of it; with what one of them is about it is refused again, for that alone. No key
occurs twice, and the uuids that are drawn are taken to be new. -/
theorem validate_without {fields : List (String × Json)} {fresh : Fresh}
    {violations : List Violation} (hdistinct : (fields.map Prod.fst).Nodup)
    (hnew : fresh.IsNew (statedIn fields) (drawsOf fields))
    (hrefused : (validate (.object fields) fresh).1 = .error (.invalid violations)) :
    let places := violations.map Violation.place
    (∀ fresh' : Fresh,
      fresh'.IsNew (statedIn (without places fields)) (drawsOf (without places fields)) →
        ∃ v, (validate (.object (without places fields)) fresh').1 = .ok v ∧
          v.IsReadOf (without places fields)) ∧
    ∀ x ∈ violations,
      let others := places.filter fun p => p ≠ x.place
      (∀ fresh' : Fresh,
        fresh'.IsNew (statedIn (without others fields)) (drawsOf (without others fields)) →
          (validate (.object (without others fields)) fresh').1 =
            .error (.invalid [x.moved others])) ∧
      ∃ value, x.place.value? fields = some value ∧
        (x.moved others).place.value? (without others fields) = some value := by
  intro places
  have hperm : violations.Perm (violationsOf fields) :=
    violations_of_refused hrefused ▸ (validateFields_spec hnew).1
  have hfaulty : ∀ p ∈ places, p ∈ (violationsOf fields).map Violation.place :=
    fun p hp => (hperm.map Violation.place).mem_iff.mp hp
  have hplaces : ∀ x ∈ violationsOf fields, x.place ∈ places :=
    fun x hx => List.mem_map_of_mem (hperm.mem_iff.mpr hx)
  refine ⟨fun fresh' hnew' => validate_of_no_violations hnew' ?_, fun x hx => ?_⟩
  · rw [violationsOf_without hfaulty, List.filter_eq_nil_iff.mpr, List.map_nil]
    intro x hx
    simpa using hplaces x hx
  · intro others
    have hx := hperm.mem_iff.mp hx
    have hothers : ∀ p ∈ others, p ∈ (violationsOf fields).map Violation.place :=
      fun p hp => hfaulty p (List.mem_filter.mp hp).1
    refine ⟨fun fresh' hnew' => validate_of_one_violation hnew' ?_, ?_⟩
    · -- of the violations only this one is at a place that is not deleted
      have hrest : (violationsOf fields).filter (fun y => y.place ∉ others) = [x] := by
        rw [← filter_of_nodup (nodup_places_violationsOf hdistinct) hx]
        refine List.filter_congr fun y hy => ?_
        simp [others, hplaces y hy]
      rw [violationsOf_without hothers, hrest]
      rfl
    · exact value?_moved hothers hx (by simp [others])

theorem validate_without_mixedFields :
    let fresh : Fresh := ⟨fun k => ⟨BitVec.ofNat 128 k⟩, Supply.constant ⟨0, 0⟩⟩
    let violations := (validateFields mixedFields fresh).violations
    let left := without (violations.map Violation.place) mixedFields
    (mixedFields.map Prod.fst).Nodup ∧ fresh.IsNew (statedIn mixedFields) (drawsOf mixedFields) ∧
    (validate (.object mixedFields) fresh).1 = .error (.invalid violations) ∧
    left.map Prod.fst = ["modifiers", "categories"] ∧
    ∃ v, (validate (.object left) fresh).1 = .ok v ∧ v.IsReadOf left := by
  intro fresh violations left
  have hdistinct : (mixedFields.map Prod.fst).Nodup := by decide
  have hnew : fresh.IsNew (statedIn mixedFields) (drawsOf mixedFields) :=
    ⟨by decide +kernel, by decide +kernel⟩
  have hrefused : (validate (.object mixedFields) fresh).1 = .error (.invalid violations) := by
    decide +kernel
  have hleft : fresh.IsNew (statedIn left) (drawsOf left) :=
    ⟨by decide +kernel, by decide +kernel⟩
  exact ⟨hdistinct, hnew, hrefused, by decide +kernel,
    (validate_without hdistinct hnew hrefused).1 fresh hleft⟩

end Methodology
