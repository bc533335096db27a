import Methodology.Proofs.Entry.Grammar
import Methodology.Proofs.Uuid.Spelling
import Methodology.Proofs.Vocabulary.Mended
import Methodology.Proofs.Vocabulary.Order

/-!
# Identity does not depend on spelling

A category and a script are told apart by the uuid that their text spells, in whatever spelling.

* `SpellsUuid`: an item that is written with a spelling of a uuid.
* `stated?_eq_uuid_iff`: that uuid is the identity that the item states.
* `reported`: the violations of an outcome; `mem_reported_iff`: those at an item.
* **`uuid_by_value`**: the spellings of a uuid are read as the uuid, and items are duplicates exactly
  if their texts spell one uuid.
* `not_forall_isSpelling`: a mark with capitals is read as well.
-/

namespace Methodology

open Json Result

/-- The record of the items of a section. -/
def Section.schema : Section → Schema
  | history => Stamp.schema
  | modifiers => Modifier.schema
  | categories => Category.schema
  | actions => Action.schema
  | scripts => Script.schema

/-- **An item that is written with a spelling of a uuid**, and reads. -/
structure SpellsUuid (s : Section) (v : Json) (u : Uuid) : Prop where
  reads : s.reads v
  spelled : ∃ text, s.schema.written? v "uuid" = some (.string text) ∧
    u.IsSpelling Uuid.IsMark text

/-- The violations of an outcome. -/
def reported : Except DocumentError Vocabulary → List Violation
  | .error (.invalid violations) => violations
  | _ => []

/-! ## The uuid of an item -/

theorem mayFill_uuid_iff {held : Option Json} {u : Uuid} :
    Field.Kind.uuid.MayFill held (some u) ↔
      ∃ text, held = some (.string text) ∧ u.IsSpelling Uuid.IsMark text := by
  constructor
  · intro h
    cases h with
    | value h =>
      cases h with
      | @uuid text _ h => exact ⟨text, rfl, Uuid.read_eq_ok_iff.mp h⟩
  · rintro ⟨text, rfl, h⟩
    exact .value (.uuid (Uuid.read_eq_ok_iff.mpr h))

theorem mayFill_uuid_unique {held : Option Json} {uuid : Option Uuid} {u : Uuid}
    (h : Field.Kind.uuid.MayFill held uuid) (hu : Field.Kind.uuid.MayFill held (some u)) :
    uuid = some u :=
  Field.Fits.unique (f := ⟨"uuid", .uuid, true⟩) h hu

section Kinds

variable {α : Type} [Entry α] [Member α] [Stated α]

theorem reads_iff {v : Json} : (Member.part α).reads v ↔ ∃ d, Entry.ofValue α v = .ok d := by
  rw [reads_eq]
  cases Entry.ofValue α v with
  | error m => exact ⟨fun h => (nomatch h), fun ⟨_, h⟩ => (nomatch h)⟩
  | ok d => exact ⟨fun _ => ⟨d, rfl⟩, fun _ => rfl⟩

theorem stated?_eq_some_iff {v : Json} {k : Identity} : (Member.part α).stated? v = some k ↔
    ∃ d, Entry.ofValue α v = .ok d ∧ Stated.stated? d = some k := by
  constructor
  · intro h
    cases hread : Entry.ofValue α v with
    | error m =>
      rw [stated?_of_error hread] at h
      cases h
    | ok d => exact ⟨d, rfl, (stated?_of_ok hread).symm.trans h⟩
  · rintro ⟨d, hread, h⟩
    exact (stated?_of_ok hread).trans h

/-- **The uuid that an item states** is the one that its text spells. -/
theorem stated?_eq_uuid_iff {uuidOf : Entry.Draft α → Option Uuid}
    (hstated : ∀ d : Entry.Draft α, Stated.stated? d = (uuidOf d).map .uuid)
    (hwritten : ∀ {v d}, Entry.ofValue α v = .ok d →
      Field.Kind.uuid.MayFill ((Member.part α).schema.written? v "uuid") (uuidOf d))
    {v : Json} {k : Identity} : (Member.part α).stated? v = some k ↔
      ∃ u, k = .uuid u ∧ SpellsUuid (Member.part α) v u := by
  rw [stated?_eq_some_iff]
  constructor
  · rintro ⟨d, hread, h⟩
    obtain ⟨u, hu, rfl⟩ := Option.map_eq_some_iff.mp ((hstated d).symm.trans h)
    exact ⟨u, rfl, reads_iff.mpr ⟨d, hread⟩, mayFill_uuid_iff.mp (hu ▸ hwritten hread)⟩
  · rintro ⟨u, rfl, hreads, hspelled⟩
    obtain ⟨d, hread⟩ := reads_iff.mp hreads
    have hu := mayFill_uuid_unique (hwritten hread) (mayFill_uuid_iff.mpr hspelled)
    exact ⟨d, hread, (hstated d).trans (congrArg (Option.map Identity.uuid) hu)⟩

end Kinds

/-- **The items with a uuid** state the one that their text spells. -/
theorem stated?_iff_spellsUuid {s : Section} (hs : s = .categories ∨ s = .scripts) {v : Json}
    {k : Identity} : s.stated? v = some k ↔ ∃ u, k = .uuid u ∧ SpellsUuid s v u := by
  rcases hs with rfl | rfl
  · refine @stated?_eq_uuid_iff Category _ _ _ Category.Draft.uuid (fun _ => rfl) ?_ v k
    intro v d hread
    obtain ⟨uuid, name, description, hgrammar, rfl⟩ := Category.ofValue_eq_ok_iff.mp hread
    exact hgrammar.uuid
  · refine @stated?_eq_uuid_iff Script _ _ _ Script.Draft.uuid (fun _ => rfl) ?_ v k
    intro v d hread
    obtain ⟨uuid, text, hgrammar, rfl⟩ := Script.ofValue_eq_ok_iff.mp hread
    exact hgrammar.uuid

/-! ## What is reported -/

theorem reported_validate (fields : List (String × Json)) (fresh : Fresh) :
    reported (validate (.object fields) fresh).1 = (validateFields fields fresh).violations := by
  simp only [validate]
  split
  · next hnone => exact (List.isEmpty_iff.mp hnone).symm
  · rfl

theorem lt_of_fault? {s : Section} {items : List Json} {index : Nat} {message : String}
    (h : s.fault? items index = some message) : index < items.length := by
  by_contra hge
  rw [Section.fault?, List.getElem?_eq_none (Nat.le_of_not_lt hge)] at h
  cases h

/-- **What is reported of an item** is what is wrong with it. -/
theorem mem_reported_iff {fields : List (String × Json)} {fresh : Fresh}
    (hnew : fresh.IsNew (statedIn fields) (drawsOf fields)) {s : Section} {index : Nat}
    {message : String} :
    ⟨.item s index, message⟩ ∈ reported (validate (.object fields) fresh).1 ↔
      s.fault? (itemsOf (field? s.name fields)) index = some message := by
  rw [reported_validate, (validateFields_spec hnew).1.mem_iff]
  constructor
  · intro h
    have hin := mem_violations_of_isIn h (s := s) (beq_self_eq_true s)
    revert hin
    cases hfield : field? s.name fields with
    | none => exact fun h => nomatch h
    | some value =>
      cases value with
      | array items =>
        intro hin
        obtain ⟨i, -, m, hfault, heq⟩ := exists_fault_of_mem hin
        cases heq
        exact hfault
      | null => exact fun h => nomatch h
      | _ => exact fun h => nomatch List.mem_singleton.mp h
  · intro h
    have hall : s ∈ Section.all := by cases s <;> decide
    refine List.mem_append_right _ (List.mem_flatMap.mpr ⟨s, hall, ?_⟩)
    revert h
    cases hfield : field? s.name fields with
    | none => exact fun h => nomatch h
    | some value =>
      cases value with
      | array items =>
        intro h
        refine List.mem_filterMap.mpr ⟨index, List.mem_range.mpr (lt_of_fault? h), ?_⟩
        rw [show s.fault? items index = some message from h]
        rfl
      | _ => exact fun h => nomatch h

theorem fault?_of_reads {s : Section} {items : List Json} {index : Nat} {v : Json}
    (hv : items[index]? = some v) (hreads : s.reads v) {message : String} :
    s.fault? items index = some message ↔ ∃ k, s.stated? v = some k ∧
      (∃ i < index, ∃ w, items[i]? = some w ∧ s.stated? w = some k) ∧
      message = Duplicate.message ⟨s, k.text⟩ := by
  have hearlier : ∀ k, k ∈ (items.take index).filterMap s.stated? ↔
      ∃ i < index, ∃ w, items[i]? = some w ∧ s.stated? w = some k := by
    intro k
    rw [List.mem_filterMap]
    constructor
    · rintro ⟨w, hw, hk⟩
      obtain ⟨i, hi⟩ := List.mem_iff_getElem?.mp hw
      rw [List.getElem?_take] at hi
      split at hi
      · next hlt => exact ⟨i, hlt, w, hi, hk⟩
      · cases hi
    · rintro ⟨i, hlt, w, hw, hk⟩
      refine ⟨w, List.mem_iff_getElem?.mpr ⟨i, ?_⟩, hk⟩
      rw [List.getElem?_take, if_pos hlt, hw]
  simp only [← hearlier]
  rw [Section.fault?, hv, Option.map_some]
  cases hid : s.identityOf v with
  | error m =>
    rw [Section.reads, hid] at hreads
    exact absurd hreads Bool.false_ne_true
  | ok stated =>
    have hstated : s.stated? v = stated := by rw [Section.stated?, hid]
    rw [hstated]
    cases stated with
    | none =>
      constructor
      · intro h
        cases h
      · rintro ⟨_, h, -⟩
        cases h
    | some k =>
      constructor
      · intro h
        simp only at h
        split at h
        · next hmem => exact ⟨k, rfl, hmem, (Option.some.inj h).symm⟩
        · cases h
      · rintro ⟨l, hl, hmem, rfl⟩
        cases hl
        exact if_pos hmem

/-- **Identity does not depend on spelling.**

* A text is read as a uuid exactly if it spells the uuid, in whatever case its digits and the mark of
  a name are written and whatever blanks stand around it.
* The text of a uuid is one of its spellings, with a small mark or none, and is read as the uuid.
* A category or a script that reads is reported exactly if an earlier one that reads spells the same
  uuid, and the text of that uuid is the identity that is reported. The uuids that are drawn are taken
  to be new. -/
theorem uuid_by_value :
    (∀ s u, Uuid.read s = .ok u ↔ u.IsSpelling Uuid.IsMark s) ∧
    (∀ u : Uuid, u.IsSpelling (· = Uuid.urn) u.toText ∧ Uuid.read u.toText = .ok u) ∧
    ∀ (fields : List (String × Json)) (fresh : Fresh),
      fresh.IsNew (statedIn fields) (drawsOf fields) →
      ∀ s, s = .categories ∨ s = .scripts →
      ∀ index v, (itemsOf (field? s.name fields))[index]? = some v → s.reads v →
      ∀ message, ⟨.item s index, message⟩ ∈ reported (validate (.object fields) fresh).1 ↔
        ∃ u, SpellsUuid s v u ∧
          (∃ i < index, ∃ w, (itemsOf (field? s.name fields))[i]? = some w ∧ SpellsUuid s w u) ∧
          message = Duplicate.message ⟨s, u.toText⟩ := by
  refine ⟨fun _ _ => Uuid.read_eq_ok_iff,
    fun u => ⟨Uuid.isSpelling_toText _ u, Uuid.read_toText u⟩, ?_⟩
  intro fields fresh hnew s hs index v hv hreads message
  have hstates : ∀ (w : Json) (u : Uuid), s.stated? w = some (.uuid u) ↔ SpellsUuid s w u := by
    intro w u
    rw [stated?_iff_spellsUuid hs]
    exact ⟨fun ⟨_, heq, h⟩ => Identity.uuid.inj heq ▸ h, fun h => ⟨u, rfl, h⟩⟩
  rw [mem_reported_iff hnew, fault?_of_reads hv hreads]
  constructor
  · rintro ⟨k, hk, hearlier, rfl⟩
    obtain ⟨u, rfl, hu⟩ := (stated?_iff_spellsUuid hs).mp hk
    simp only [hstates] at hearlier
    exact ⟨u, hu, hearlier, rfl⟩
  · rintro ⟨u, hu, hearlier, rfl⟩
    simp only [← hstates] at hu hearlier
    exact ⟨.uuid u, hu, hearlier, rfl⟩

/-- Three categories, of which two spell one uuid in two ways and one states none. -/
def spelledFields : List (String × Json) :=
  [("categories", .array [
    .object [("name", .string "a"), ("uuid", .string "0000000000000000000000000000000A")],
    .object [("name", .string "b")],
    .object [("name", .string "c"),
      ("uuid", .string " Urn:uuid:00000000-0000-0000-0000-00000000000a\n")]])]

theorem uuid_by_value_spelledFields :
    let fresh : Fresh := ⟨fun k => ⟨BitVec.ofNat 128 k⟩, Supply.constant ⟨0, 0⟩⟩
    fresh.IsNew (statedIn spelledFields) (drawsOf spelledFields) ∧
    ∃ v u, (itemsOf (field? Section.categories.name spelledFields))[2]? = some v ∧
      Section.categories.reads v ∧ SpellsUuid .categories v u ∧
      ⟨.item .categories 2, "duplicate category identity \"00000000-0000-0000-0000-00000000000a\""⟩ ∈
        reported (validate (.object spelledFields) fresh).1 := by
  intro fresh
  have hnew : fresh.IsNew (statedIn spelledFields) (drawsOf spelledFields) :=
    ⟨by decide +kernel, by decide +kernel⟩
  let item (name text : String) : Json := .object [("name", .string name), ("uuid", .string text)]
  let first := item "a" "0000000000000000000000000000000A"
  let third := item "c" " Urn:uuid:00000000-0000-0000-0000-00000000000a\n"
  have hspells : ∀ name text, Uuid.read text = .ok ⟨10⟩ →
      Section.categories.reads (item name text) → SpellsUuid .categories (item name text) ⟨10⟩ :=
    fun name text hread hreads => ⟨hreads, text, rfl, Uuid.read_eq_ok_iff.mp hread⟩
  have hthird : SpellsUuid .categories third ⟨10⟩ := hspells _ _ (by decide +kernel) (by decide +kernel)
  have hfirst : SpellsUuid .categories first ⟨10⟩ := hspells _ _ (by decide +kernel) (by decide +kernel)
  refine ⟨hnew, third, ⟨10⟩, rfl, hthird.reads, hthird, ?_⟩
  exact (uuid_by_value.2.2 spelledFields fresh hnew .categories (.inl rfl) 2 third rfl hthird.reads
    _).mpr ⟨⟨10⟩, hthird, ⟨0, by decide, first, rfl, hfirst⟩, by decide +kernel⟩

/-- A text is read in which the mark of a name is written with capitals. -/
theorem not_forall_isSpelling :
    ¬ ∀ s u, Uuid.read s = .ok u → u.IsSpelling (· = Uuid.urn) s := by
  intro h
  let text := "URN:UUID:00000000-0000-0000-0000-000000000000"
  obtain ⟨before, cs, behind, hs, hbefore, hbehind, hspells⟩ := h text Uuid.nil (by decide +kernel)
  have hall : text.toList.all (fun c => !Text.isBlank c) = true := by decide +kernel
  have hbare : ∀ c ∈ text.toList, Text.isBlank c = false := fun c hc =>
    Bool.not_eq_true' _ ▸ List.all_eq_true.mp hall c hc
  have hbefore : before = [] := List.eq_nil_iff_forall_not_mem.mpr fun c hc => by
    have hc' : c ∈ text.toList := by simp [hs, hc]
    exact Bool.false_ne_true ((hbare c hc').symm.trans (hbefore c hc))
  have hbehind : behind = [] := List.eq_nil_iff_forall_not_mem.mpr fun c hc => by
    have hc' : c ∈ text.toList := by simp [hs, hc]
    exact Bool.false_ne_true ((hbare c hc').symm.trans (hbehind c hc))
  rw [hbefore, hbehind, List.nil_append, List.append_nil] at hs
  have hlen : cs.length = 45 := by
    rw [← hs]
    decide +kernel
  cases hspells with
  | plain hcs => exact absurd (hcs.length_eq.symm.trans hlen) (by decide)
  | grouped hcs => exact absurd (hcs.length_grouped.symm.trans hlen) (by decide)
  | braced hcs =>
    rw [List.length_cons, List.length_append, hcs.length_grouped] at hlen
    exact absurd hlen (by decide)
  | named hfront =>
    -- the text begins with a capital letter
    have hhead := congrArg List.head? hs
    rw [hfront, show text.toList.head? = some 'U' by decide +kernel] at hhead
    exact absurd (Option.some.inj hhead) (by decide)

end Methodology
