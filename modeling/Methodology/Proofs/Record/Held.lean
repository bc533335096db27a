import Methodology.Proofs.Json.Written
import Methodology.Proofs.Record.Steps

/-!
# What a record holds

Nothing that is written for a record is dropped: a field that is met is declared and fills its slot,
and a slot that no field fills is left out.

* `Row.Holds`, `Filled.Holds`: the slot with a name.
* `Row.holds_put`: **the step.** A field that is met is held, and so is what was held before.
* `Record.holds_of_ofFields`, `Record.takes_of_ofItems`: the records of mappings and of lists.
* **`Record.isWritten_of_ofValue`**: a record holds what is written in the text it is read from.
-/

namespace Methodology

open Json Result

/-- What the slot of the field with a name is filled with so far. -/
def Row.Holds : (fs : List Field) → Row fs → String → Option Json → Prop
  | [], _, _, _ => False
  | f :: fs, (slot, row), key, value =>
    if f.name = key then slot.map Except.ok = value.map f.ofValue else Holds fs row key value

/-- What the slot of the field with a name holds. -/
def Filled.Holds : (fs : List Field) → Filled fs → String → Option Json → Prop
  | [], _, _, _ => False
  | f :: fs, (slot, rest), key, value =>
    if f.name = key then f.IsHeld slot value else Holds fs rest key value

/-- The slots hold the values of a list in their order. -/
def Filled.Takes : (fs : List Field) → Filled fs → List Json → Prop
  | [], _, items => items = []
  | f :: fs, (slot, rest), items => f.IsHeld slot items.head? ∧ Takes fs rest items.tail

/-! ## Rows -/

theorem Row.holds_empty {fs : List Field} {key : String} (h : key ∈ fs.map Field.name) :
    Row.Holds fs (Row.empty fs) key none := by
  induction fs with
  | nil => cases h
  | cons f fs ih =>
    rw [Row.empty, Row.Holds]
    split
    · rfl
    · next hname => exact ih ((List.mem_cons.mp h).resolve_left (Ne.symm hname))

/-- **A field that is met** is held from then on, and every slot holds what it held before. -/
theorem Row.holds_put {duplicate : Field → Misread} {name key : String} {value : Json}
    {held : Option Json} {fs : List Field} {row row' : Row fs} (h : Row.Holds fs row key held)
    (hput : Row.put duplicate (fun f => (f.ofValue value).map fun v => (v, ())) name fs row =
      some (.ok (row', ()))) :
    Row.Holds fs row' key (held.or (field? key [(name, value)])) := by
  rw [field?_cons]
  have hother (hne : key ≠ name) :
      held.or (if key = name then some value else field? key []) = held := by
    rw [if_neg hne]
    exact Option.or_none
  induction fs with
  | nil => cases hput
  | cons f fs ih =>
    obtain ⟨slot, row⟩ := row
    rw [Row.Holds] at h
    rcases put_cons_eq_ok hput with ⟨hname, rfl, v, hv, rfl⟩ | ⟨hname, rest, hrest, rfl⟩
    · obtain ⟨w, hw, heq⟩ := map_eq_ok.mp hv
      cases heq
      subst hname
      rw [Row.Holds]
      by_cases hkey : f.name = key
      · -- the slot was empty, so nothing was held
        rw [if_pos hkey] at h ⊢
        rw [if_pos hkey.symm, Option.map_eq_none_iff.mp h.symm, Option.none_or, Option.map_some,
          Option.map_some, hw]
      · rw [if_neg hkey] at h ⊢
        rw [hother (Ne.symm hkey)]
        exact h
    · rw [Row.Holds]
      by_cases hkey : f.name = key
      · rw [if_pos hkey] at h ⊢
        rw [hother (hkey ▸ hname)]
        exact h
      · rw [if_neg hkey] at h ⊢
        exact ih h hrest

theorem Field.isHeld_of_or (f : Field) {slot : Option f.Slot} {held : Option Json} {v : f.Slot}
    (h : slot.map Except.ok = held.map f.ofValue) (hv : slot.or f.absent? = some v) :
    f.IsHeld v held := by
  cases slot with
  | none =>
    rw [Option.map_eq_none_iff.mp h.symm]
    exact hv
  | some w =>
    obtain ⟨value, rfl, hvalue⟩ := Option.map_eq_some_iff.mp h.symm
    rw [Option.some_or] at hv
    cases hv
    exact hvalue

/-- **At the end of the record** a slot that holds nothing is left out. -/
theorem Row.holds_complete {key : String} {held : Option Json} {fs : List Field} {row : Row fs}
    {record : Filled fs} (h : Row.Holds fs row key held)
    (hrow : Row.complete fs row = .ok record) : Filled.Holds fs record key held := by
  induction fs with
  | nil => cases h
  | cons f fs ih =>
    obtain ⟨slot, row⟩ := row
    obtain ⟨v, rest, hv, hrest, rfl⟩ := complete_cons_eq_ok hrow
    rw [Row.Holds] at h
    rw [Filled.Holds]
    split at h
    · next hname =>
      rw [if_pos hname]
      exact f.isHeld_of_or h hv
    · next hname =>
      rw [if_neg hname]
      exact ih h hrest

namespace Record

/-! ## Records from data values -/

theorem mem_names_of_rowOfFields {s : Schema} {fields : List (String × Json)}
    {row row' : Row s.fields} (h : rowOfFields s row fields = .ok row') :
    ∀ f ∈ fields, f.1 ∈ s.names := by
  induction fields generalizing row with
  | nil => exact fun _ hf => (nomatch hf)
  | cons f fields ih =>
    obtain ⟨key, value⟩ := f
    obtain ⟨_, hput, h⟩ := rowOfFields_cons_eq_ok h
    exact List.forall_mem_cons.mpr ⟨Row.mem_names_of_put hput, ih h⟩

/-- **The run**: the fields of a mapping are held, beside what was held before. -/
theorem holds_of_rowOfFields {s : Schema} {key : String} {held : Option Json}
    {fields : List (String × Json)} {row row' : Row s.fields} (h : Row.Holds s.fields row key held)
    (hrow : rowOfFields s row fields = .ok row') :
    Row.Holds s.fields row' key (held.or (field? key fields)) := by
  induction fields generalizing row held with
  | nil =>
    cases hrow
    exact Option.or_none.symm ▸ h
  | cons f fields ih =>
    obtain ⟨k, value⟩ := f
    obtain ⟨row₁, hput, hrow⟩ := rowOfFields_cons_eq_ok hrow
    rw [← List.singleton_append, field?_append, ← Option.or_assoc]
    exact ih (Row.holds_put h hput) hrow

/-- **A record from the fields of a mapping** holds each of them, and nothing else. -/
theorem holds_of_ofFields {s : Schema} {fields : List (String × Json)} {record : Filled s.fields}
    (h : ofFields s fields = .ok record) : (∀ f ∈ fields, f.1 ∈ s.names) ∧
      ∀ key ∈ s.names, Filled.Holds s.fields record key (field? key fields) := by
  obtain ⟨row, hrow, hrecord⟩ := bind_eq_ok.mp h
  exact ⟨mem_names_of_rowOfFields hrow, fun key hkey =>
    Row.holds_complete (holds_of_rowOfFields (Row.holds_empty hkey) hrow) hrecord⟩

/-- **A record from a list** takes all its items. -/
theorem takes_of_ofItems {noun : String} {place : Nat} {fs : List Field} {items : List Json}
    {record : Filled fs} (h : ofItems noun place fs items = .ok (record, [])) :
    Filled.Takes fs record items := by
  induction fs generalizing place items with
  | nil =>
    cases h
    rfl
  | cons f fs ih =>
    obtain ⟨v, rest, hv, hrest, rfl⟩ := ofItems_cons_eq_ok h
    exact ⟨hv, ih hrest⟩

end Record

/-! ## What is written -/

theorem Field.Kind.ofValue_sorted (k : Field.Kind) (value : Json) :
    k.ofValue value.sorted = k.ofValue value := by
  cases k <;> cases value <;> rfl

theorem Field.ofValue_sorted (f : Field) (value : Json) :
    f.ofValue value.sorted = f.ofValue value := by
  obtain ⟨name, kind, optional⟩ := f
  cases optional with
  | false => exact kind.ofValue_sorted value
  | true =>
    have hkind := congrArg (Except.map some) (kind.ofValue_sorted value)
    cases value <;> first | rfl | exact hkind

theorem Field.isHeld_map_sorted (f : Field) {slot : f.Slot} {value : Option Json} :
    f.IsHeld slot (value.map sorted) ↔ f.IsHeld slot value := by
  cases value with
  | none => exact .rfl
  | some value => rw [Option.map_some, IsHeld, IsHeld, f.ofValue_sorted]

theorem Filled.holds_map_sorted {fs : List Field} {record : Filled fs} {key : String}
    {value : Option Json} :
    Filled.Holds fs record key (value.map sorted) ↔ Filled.Holds fs record key value := by
  induction fs with
  | nil => exact .rfl
  | cons f fs ih =>
    obtain ⟨slot, rest⟩ := record
    rw [Filled.Holds, Filled.Holds]
    split
    · exact f.isHeld_map_sorted
    · exact ih

theorem Filled.takes_map_sorted {fs : List Field} {record : Filled fs} {items : List Json} :
    Filled.Takes fs record (items.map sorted) ↔ Filled.Takes fs record items := by
  induction fs generalizing items with
  | nil => exact List.map_eq_nil_iff
  | cons f fs ih =>
    obtain ⟨slot, rest⟩ := record
    rw [Filled.Takes, Filled.Takes, List.head?_map, f.isHeld_map_sorted, ← List.map_tail, ih]

namespace Record

/-- **A record that holds what is written**: of a mapping, the last field of each key and no other
field; of a list, every item. -/
inductive IsWritten (s : Schema) (record : Filled s.fields) : Json → Prop
  | mapping {fields : List (String × Json)} (known : ∀ f ∈ fields, f.1 ∈ s.names)
    (holds : ∀ f ∈ lastFields fields, Filled.Holds s.fields record f.1 (some f.2))
    (others : ∀ key ∈ s.names, key ∉ fields.map Prod.fst → Filled.Holds s.fields record key none) :
    IsWritten s record (.object fields)
  | list {items : List Json} (takes : Filled.Takes s.fields record items) :
    IsWritten s record (.array items)

/-- **A record that is read** holds what is written. -/
theorem isWritten_of_ofValue {s : Schema} {value : Json} {record : Filled s.fields}
    (h : ofValue s value.sorted = .ok record) : IsWritten s record value := by
  cases value with
  | object fields =>
    obtain ⟨hknown, hholds⟩ := holds_of_ofFields h
    have hknown : ∀ f ∈ fields, f.1 ∈ s.names := forall_key_of_sorted hknown
    have hlast : ∀ key ∈ s.names,
        Filled.Holds s.fields record key (field? key (lastFields fields)) := by
      intro key hkey
      rw [← Filled.holds_map_sorted, ← field?_sorted]
      exact hholds key hkey
    refine .mapping hknown (fun f hf => ?_) fun key hkey hother => ?_
    · rw [← field?_of_mem (nodup_lastFields fields) hf]
      exact hlast f.1 (hknown f (mem_of_mem_lastFields hf))
    · have hnone : field? key (lastFields fields) = none := by
        rw [field?_lastFields, field?_eq_none, List.map_reverse, List.mem_reverse]
        exact hother
      exact hnone ▸ hlast key hkey
  | array items =>
    obtain ⟨⟨row, left⟩, hrow, h⟩ := bind_eq_ok.mp h
    simp only at h
    split at h
    · next hleft =>
      cases h
      rw [sortedItems_eq_map, List.isEmpty_iff.mp hleft] at hrow
      exact .list (Filled.takes_map_sorted.mp (takes_of_ofItems hrow))
    · cases h
  | _ => cases h

end Record

end Methodology
