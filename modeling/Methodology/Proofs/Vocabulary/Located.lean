import Methodology.Proofs.Vocabulary.Order
import Methodology.Proofs.Vocabulary.Mended
import Methodology.Proofs.Vocabulary.Written

/-!
# Where violations are

A violation stands at a place, and the path of a place is text: that of a key is the key itself,
whatever it looks like. Places tell violations apart, and paths do as far as no key looks like the
root or like an item that is reported.

* `path_item_injective`, `path_item_ne_empty`, `path_item_not_mem_names`: the paths of items.
* `IsLocated`: the places that are listed for a section; `isLocated_takeMember`: so they are.
* `AreLocated`: the places that are listed for a mapping; `areLocated_validateFields`: so they are.
* `mem_paths_iff`, `nodup_paths_iff`: what a path stands for, and when paths are distinct.
* **`violations_located`**: what a path tells about a violation.
-/

namespace Methodology

open Json

/-! ## Paths of items -/

theorem Text.decimal_injective {m n : Nat} (h : decimal m = decimal n) : m = n := by
  have hpadded : padded 0 (decimal m) = padded 0 (decimal n) := by rw [h]
  exact padded_decimal_injective hpadded

theorem Place.toList_path_item (s : Section) (index : Nat) :
    (item s index).path.toList = s.name.toList ++ '[' :: (Text.decimal index ++ [']']) := by
  simp [path, Text.number]

/-- **The path of an item tells the item.** The names of the sections differ in their first
letters. -/
theorem Place.path_item_injective {s t : Section} {i j : Nat}
    (h : (item s i).path = (item t j).path) : item s i = item t j := by
  replace h := congrArg String.toList h
  rw [toList_path_item, toList_path_item] at h
  obtain rfl : s = t := by
    have hhead := congrArg List.head? h
    revert hhead
    cases s <;> cases t <;> simp [Section.name]
  have hindex := List.append_cancel_right (List.cons.inj (List.append_cancel_left h)).2
  rw [Text.decimal_injective hindex]

theorem Place.path_item_ne_empty (s : Section) (index : Nat) : (item s index).path ≠ "" := by
  intro h
  have := congrArg String.toList h
  simp [toList_path_item] at this

theorem Place.path_item_not_mem_names (s : Section) (index : Nat) :
    (item s index).path ∉ Section.names := by
  intro h
  obtain ⟨t, -, ht⟩ := List.mem_map.mp h
  have hmem : '[' ∈ t.name.toList := by
    rw [ht, toList_path_item]
    simp
  revert hmem
  cases t <;> decide

/-! ## Sections -/

/-- The places that are listed for a section, none of them twice: the section as a whole, or items of
its list. -/
structure IsLocated (fields : List (String × Json)) (s : Section) (found : List Violation) :
    Prop where
  inside : ∀ x ∈ found, ∀ t, x.place.isIn t = (s == t)
  nodup : (found.map Violation.place).Nodup
  places : ∀ x ∈ found, x.place = .field s.name ∨ ∃ i items,
    x.place = .item s i ∧ field? s.name fields = some (.array items) ∧ i < items.length

theorem mem_indices_iff {s : Section} {read : Bool} {items : List Json} {i : Nat} :
    i ∈ s.indices read items ↔ ∃ v, items[i]? = some v ∧ s.reads v = read := by
  simp [Section.indices, Section.indicesFrom, List.mem_zipIdx_iff_getElem?]

theorem map_place_of_items {s : Section} {found : List Violation}
    (h : ∀ x ∈ found, ∃ i, x.place = .item s i) :
    found.map Violation.place = (indicesIn s found).map (.item s) := by
  induction found with
  | nil => rfl
  | cons x found ih =>
    obtain ⟨i, hplace⟩ := h x List.mem_cons_self
    have hindex : indicesIn s (x :: found) = i :: indicesIn s found := by
      simp [indicesIn, hplace, Place.index?]
    rw [hindex, List.map_cons, List.map_cons, hplace,
      ih fun y hy => h y (List.mem_cons_of_mem x hy)]

theorem nodup_indices {s : Section} {items : List Json} {refused : List Nat}
    (hrefused : refused.Sublist (s.indices true items)) :
    (s.indices false items ++ refused).Nodup := by
  have hnodup : ∀ read, (s.indices read items).Nodup := fun read =>
    (pairwise_indices s read items).imp Nat.ne_of_lt
  refine List.nodup_append'.mpr ⟨hnodup false, (hnodup true).sublist hrefused, ?_⟩
  intro i hunread hread
  obtain ⟨v, hv, hfalse⟩ := mem_indices_iff.mp hunread
  obtain ⟨w, hw, htrue⟩ := mem_indices_iff.mp (hrefused.subset hread)
  rw [hv] at hw
  rw [Option.some.inj hw, htrue] at hfalse
  cases hfalse

theorem isLocated_takeMember (α : Type) [Entry α] [Member α] [Stated α]
    (fields : List (String × Json)) (s : Validation) :
    ∃ found, (s.takeMember α fields).violations = s.violations ++ found ∧
      IsLocated fields (Member.part α) found := by
  obtain ⟨found, hfound, hreported⟩ := isReported_takeMember (α := α) fields s
  obtain ⟨found', hfound', hcases⟩ := takeMember_cases (α := α) fields s
  obtain rfl := List.append_cancel_left (hfound.symm.trans hfound')
  rcases hcases with ⟨items, hfield, heq⟩ | ⟨-, hlength, hunread⟩
  · have hitems : ∀ x ∈ found, ∃ i, x.place = .item (Member.part α) i := fun x hx => by
      rw [heq] at hx
      exact (List.mem_append.mp hx).elim exists_item_of_mem_readItems exists_item_of_mem_insertAll
    have hplaces := map_place_of_items hitems
    obtain ⟨refused, hindices, hrefused⟩ := hreported.ordered
    rw [hfield] at hindices hrefused
    refine ⟨found, hfound, hreported.inside, ?_, fun x hx => .inr ?_⟩
    · rw [hplaces, hindices]
      exact (nodup_indices hrefused).map fun _ _ h => (Place.item.inj h).2
    · obtain ⟨i, hi⟩ := hitems x hx
      have hmem : i ∈ indicesIn (Member.part α) found :=
        List.mem_filterMap.mpr ⟨x, hx, by simp [hi, Place.index?]⟩
      rw [hindices] at hmem
      have hread : ∃ read, i ∈ (Member.part α).indices read items :=
        (List.mem_append.mp hmem).elim (⟨_, ·⟩) fun h => ⟨_, hrefused.subset h⟩
      obtain ⟨read, hread⟩ := hread
      obtain ⟨v, hv, -⟩ := mem_indices_iff.mp hread
      exact ⟨i, items, hi, hfield, (List.getElem?_eq_some_iff.mp hv).1⟩
  · refine ⟨found, hfound, hreported.inside, ?_, fun x hx => .inl ?_⟩
    · exact List.nodup_iff_count_le_one.mpr fun p =>
        Nat.le_trans List.count_le_length (by rwa [List.length_map])
    · obtain ⟨v, rfl⟩ := hunread x hx
      rfl

/-! ## Mappings -/

/-- **The places that are listed for a mapping**: the keys that name no section, all of them, and
sections as a whole and items of their lists. -/
structure AreLocated (fields : List (String × Json)) (violations : List Violation) : Prop where
  nodup : (fields.map Prod.fst).Nodup → (violations.map Violation.place).Nodup
  ne_root : .root ∉ violations.map Violation.place
  unknown : ∀ key ∈ fields.map Prod.fst, key ∉ Section.names →
    .field key ∈ violations.map Violation.place
  known : ∀ key, .field key ∈ violations.map Violation.place →
    key ∈ fields.map Prod.fst ∨ key ∈ Section.names
  within : ∀ s i, .item s i ∈ violations.map Violation.place →
    ∃ items, field? s.name fields = some (.array items) ∧ i < items.length

theorem areLocated_validateFields (fields : List (String × Json)) (fresh : Fresh) :
    AreLocated fields (validateFields fields fresh).violations := by
  obtain ⟨found, hfound, hlocated⟩ :=
    exists_sections (fun α _ _ _ => isLocated_takeMember α fields) fresh
  rw [hfound]
  have hplaces : ∀ p ∈ (unknownSections fields ++ Section.all.flatMap found).map Violation.place,
      (∃ key ∈ fields.map Prod.fst, p = .field key) ∨ ∃ s : Section, p = .field s.name ∨
        ∃ i items, p = .item s i ∧ field? s.name fields = some (.array items) ∧
          i < items.length := by
    intro p hp
    obtain ⟨x, hx, rfl⟩ := List.mem_map.mp hp
    rcases List.mem_append.mp hx with hx | hx
    · obtain ⟨f, hf, rfl⟩ := List.mem_map.mp hx
      exact .inl ⟨f.1, List.mem_map_of_mem (List.mem_filter.mp hf).1, rfl⟩
    · obtain ⟨s, -, hx⟩ := List.mem_flatMap.mp hx
      exact .inr ⟨s, (hlocated s).places x hx⟩
  refine ⟨nodup_places_sections (fun s => (hlocated s).inside) fun s => (hlocated s).nodup,
    fun hroot => ?_, fun key hkey hunknown => ?_, fun key hkey => ?_, fun s i hitem => ?_⟩
  · rcases hplaces _ hroot with ⟨_, -, h⟩ | ⟨_, h | ⟨_, _, h, -⟩⟩ <;> cases h
  · obtain ⟨f, hf, rfl⟩ := List.mem_map.mp hkey
    rw [List.map_append, unknownSections, List.map_map]
    refine List.mem_append_left _ (List.mem_map.mpr ⟨f, List.mem_filter.mpr ⟨hf, ?_⟩, rfl⟩)
    simp [hunknown]
  · rcases hplaces _ hkey with ⟨_, hmem, h⟩ | ⟨s, h | ⟨_, _, h, -⟩⟩
    · exact .inl (Place.field.inj h ▸ hmem)
    · rw [Place.field.inj h]
      exact .inr (by cases s <;> decide)
    · cases h
  · rcases hplaces _ hitem with ⟨_, -, h⟩ | ⟨_, h | ⟨_, items, h, hfield, hlt⟩⟩
    · cases h
    · cases h
    · cases h
      exact ⟨items, hfield, hlt⟩

theorem map_path (violations : List Violation) :
    violations.map Violation.path = (violations.map Violation.place).map Place.path :=
  (List.map_map ..).symm

namespace AreLocated

variable {fields : List (String × Json)} {violations : List Violation}
  (h : AreLocated fields violations)

include h

/-- **What a path stands for** that names no section: a key of the mapping, or an item. -/
theorem mem_paths_iff {p : String} (hp : p ∉ Section.names) :
    p ∈ violations.map Violation.path ↔ p ∈ fields.map Prod.fst ∨
      ∃ s i, .item s i ∈ violations.map Violation.place ∧ (Place.item s i).path = p := by
  rw [map_path, List.mem_map]
  constructor
  · rintro ⟨place, hmem, rfl⟩
    cases place with
    | root => exact absurd hmem h.ne_root
    | field key => exact .inl ((h.known key hmem).resolve_right hp)
    | item s i => exact .inr ⟨s, i, hmem, rfl⟩
  · rintro (hkey | ⟨s, i, hmem, rfl⟩)
    · exact ⟨.field p, h.unknown p hkey hp, rfl⟩
    · exact ⟨_, hmem, rfl⟩

theorem empty_mem_paths_iff : "" ∈ violations.map Violation.path ↔ "" ∈ fields.map Prod.fst := by
  rw [h.mem_paths_iff (by decide), or_iff_left]
  rintro ⟨s, i, -, hpath⟩
  exact Place.path_item_ne_empty s i hpath

theorem path_item_mem_paths_iff (s : Section) (i : Nat) :
    (Place.item s i).path ∈ violations.map Violation.path ↔
      .item s i ∈ violations.map Violation.place ∨ (Place.item s i).path ∈ fields.map Prod.fst := by
  rw [h.mem_paths_iff (Place.path_item_not_mem_names s i), or_comm]
  refine or_congr_left ⟨?_, fun hmem => ⟨s, i, hmem, rfl⟩⟩
  rintro ⟨t, j, hmem, hpath⟩
  exact Place.path_item_injective hpath ▸ hmem

/-- **Paths tell violations apart** exactly if no key looks like an item that is reported. -/
theorem nodup_paths_iff (hdistinct : (fields.map Prod.fst).Nodup) :
    (violations.map Violation.path).Nodup ↔ ∀ s i,
      .item s i ∈ violations.map Violation.place →
        (Place.item s i).path ∉ fields.map Prod.fst := by
  rw [map_path, List.nodup_map_iff_inj_on (h.nodup hdistinct)]
  constructor
  · intro hinj s i hitem hkey
    have hfield := h.unknown _ hkey (Place.path_item_not_mem_names s i)
    cases hinj _ hfield _ hitem rfl
  · intro hkeys
    -- a key is not the path of an item, as it would be one of the keys of the mapping
    have hne : ∀ key s i, .field key ∈ violations.map Violation.place →
        .item s i ∈ violations.map Violation.place → key ≠ (Place.item s i).path := by
      rintro _ s i hfield hitem rfl
      exact hkeys s i hitem
        ((h.known _ hfield).resolve_right (Place.path_item_not_mem_names s i))
    intro p hp q hq hpq
    cases p with
    | root => exact absurd hp h.ne_root
    | field key =>
      cases q with
      | root => exact absurd hq h.ne_root
      | field key' => exact congrArg Place.field hpq
      | item s i => exact absurd hpq (hne key s i hp hq)
    | item s i =>
      cases q with
      | root => exact absurd hq h.ne_root
      | field key => exact absurd hpq.symm (hne key s i hq hp)
      | item t j => exact Place.path_item_injective hpq

end AreLocated

/-! ## Documents -/

/-- **What a path tells about a violation** of a value that is refused, whatever uuids are drawn. The
keys of a mapping are distinct.

* No place has two violations, and an item that is reported is one of a list under the name of its
  section.
* The empty path, shown as the root, stands for a value that is no mapping, or for the empty key.
* A path that looks like an item stands for an item that is reported, or for a key with that text.
* So two violations have the same path exactly if a key looks like an item that is reported. -/
theorem violations_located {value : Json} {fresh : Fresh} {violations : List Violation}
    (hdistinct : ((fieldsOf value).map Prod.fst).Nodup)
    (hrefused : (validate value fresh).1 = .error (.invalid violations)) :
    let places := violations.map Violation.place
    let paths := violations.map Violation.path
    let keys := (fieldsOf value).map Prod.fst
    places.Nodup ∧
    (∀ s i, .item s i ∈ places → ∃ items,
      field? s.name (fieldsOf value) = some (.array items) ∧ i < items.length) ∧
    ("" ∈ paths ↔ (∀ fields, value ≠ .object fields) ∨ "" ∈ keys) ∧
    (∀ x ∈ violations, x.path = "" → x.display = "  (root): " ++ x.message) ∧
    (∀ s i, (Place.item s i).path ∈ paths ↔
      .item s i ∈ places ∨ (Place.item s i).path ∈ keys) ∧
    (paths.Nodup ↔ ∀ s i, .item s i ∈ places → (Place.item s i).path ∉ keys) := by
  intro places paths keys
  have hshown : ∀ x ∈ violations, x.path = "" → x.display = "  (root): " ++ x.message := by
    intro x _ hpath
    rw [Violation.display, hpath]
    rfl
  cases value with
  | object fields =>
    have h := areLocated_validateFields fields fresh
    rw [violations_of_refused hrefused] at h
    refine ⟨h.nodup hdistinct, h.within, ?_, hshown, h.path_item_mem_paths_iff,
      h.nodup_paths_iff hdistinct⟩
    rw [h.empty_mem_paths_iff, or_iff_right fun hno => hno fields rfl]
    rfl
  | null => cases hrefused
  | _ =>
    cases hrefused
    refine ⟨List.nodup_singleton _, fun s i hitem => ?_, ?_, hshown, fun s i => ?_, ?_⟩
    · cases List.mem_singleton.mp hitem
    · exact iff_of_true List.mem_cons_self (.inl fun _ h => Json.noConfusion h)
    · refine iff_of_false (fun hpath => ?_) ?_
      · exact Place.path_item_ne_empty s i (List.mem_singleton.mp hpath)
      · rintro (hitem | hkey)
        · cases List.mem_singleton.mp hitem
        · exact List.not_mem_nil hkey
    · exact iff_of_true (List.nodup_singleton _) fun _ _ _ => List.not_mem_nil

/-- A mapping with the empty key, and with keys that look like items: one that is reported, and one
of a section that is not there. -/
def lookalikeFields : List (String × Json) :=
  [("", .null), ("modifiers", .array [.null]), ("modifiers[0]", .null), ("scripts[2]", .null)]

theorem violations_located_lookalikeFields :
    let fresh : Fresh := ⟨Supply.constant Uuid.nil, Supply.constant ⟨0, 0⟩⟩
    let violations := (validateFields lookalikeFields fresh).violations
    ((fieldsOf (.object lookalikeFields)).map Prod.fst).Nodup ∧
    (validate (.object lookalikeFields) fresh).1 = .error (.invalid violations) ∧
    (violations.map Violation.place).Nodup ∧ "" ∈ violations.map Violation.path ∧
    ¬ (violations.map Violation.path).Nodup := by
  intro fresh violations
  have hdistinct : ((fieldsOf (.object lookalikeFields)).map Prod.fst).Nodup := by decide
  have hrefused : (validate (.object lookalikeFields) fresh).1 = .error (.invalid violations) := by
    decide +kernel
  obtain ⟨hplaces, -, hempty, -, -, hpaths⟩ := violations_located hdistinct hrefused
  refine ⟨hdistinct, hrefused, hplaces, hempty.mpr (.inr (by decide)), fun hnodup => ?_⟩
  exact hpaths.mp hnodup .modifiers 0 (by decide +kernel) (by decide +kernel)

/-- **Paths alone do not locate violations**: a mapping can be refused with the empty path, with the
path of an item of a section that is not there, and with one path for two violations, all at once. -/
theorem not_violations_located_by_path : ¬ ∀ (value : Json) (fresh : Fresh)
    (violations : List Violation), ((fieldsOf value).map Prod.fst).Nodup →
    (validate value fresh).1 = .error (.invalid violations) →
      let paths := violations.map Violation.path
      ("" ∈ paths ↔ value ≠ .null ∧ ∀ fields, value ≠ .object fields) ∨
      (∀ s i, (Place.item s i).path ∈ paths → ∃ items,
        field? s.name (fieldsOf value) = some (.array items) ∧ i < items.length) ∨
      paths.Nodup := by
  intro h
  let fresh : Fresh := ⟨Supply.constant Uuid.nil, Supply.constant ⟨0, 0⟩⟩
  obtain hroot | hitem | hnodup := h (.object lookalikeFields) fresh
    (validateFields lookalikeFields fresh).violations (by decide) (by decide +kernel)
  · exact (hroot.mp (by decide +kernel)).2 lookalikeFields rfl
  · obtain ⟨items, hfield, -⟩ := hitem .scripts 2 (by decide +kernel)
    cases hfield
  · revert hnodup
    decide +kernel

end Methodology
