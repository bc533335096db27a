import Mathlib.Data.List.Basic
import Methodology.Proofs.Record.Held

/-!
# The grammar of records

Which data values are records is said without a reader: a value has the form of a record, and what
stands for each field is a value of its kind.

* `Field.Kind.Spells`, `Field.Fits`: the data values of a kind, and what may stand for a field.
* `Schema.Admits`: **the form** of a record, which is a mapping or a list.
* `Schema.written?`: what stands for a field, under its name or at its place.
* `Record.exists_rowOfFields`, `Record.ofItems_eq_ok_iff`: the two forms are read.
* **`Record.ofValue_eq_ok_iff`**: the values that are read, and the records that they are read as.
* `Record.ofFields_perm`, `Record.ofValue_sorted`: the order of the fields does not matter.
-/

namespace Methodology

open Json Result

/-! ## Values of a kind -/

/-- **The data values of a kind.** -/
inductive Field.Kind.Spells : (k : Field.Kind) → Json → k.Carrier → Prop
  | text (s : String) : Spells .text (.string s) s
  | flag (b : Bool) : Spells .term (.bool b) (.flag b)
  | word (s : String) : Spells .term (.string s) (.text s)
  | uuid {s : String} {u : Uuid} (h : Uuid.read s = .ok u) : Spells .uuid (.string s) u
  | instant {s : String} {t : Instant} (h : Instant.read s = .ok t) : Spells .instant (.string s) t

theorem textOfValue_eq_ok {v : Json} {s : String} : textOfValue v = .ok s ↔ v = .string s := by
  constructor
  · intro h
    cases v with
    | string t =>
      cases h
      rfl
    | _ => cases h
  · rintro rfl
    rfl

theorem Field.Kind.ofValue_eq_ok_iff (k : Field.Kind) {v : Json} {c : k.Carrier} :
    k.ofValue v = .ok c ↔ k.Spells v c := by
  constructor
  · intro h
    cases k with
    | text =>
      obtain rfl := textOfValue_eq_ok.mp h
      exact .text c
    | term =>
      cases v with
      | bool b =>
        cases h
        exact .flag b
      | string s =>
        cases h
        exact .word s
      | _ => cases h
    | uuid =>
      obtain ⟨s, hs, h⟩ := bind_eq_ok.mp h
      obtain rfl := textOfValue_eq_ok.mp hs
      exact .uuid (mapError_eq_ok.mp h)
    | instant =>
      obtain ⟨s, hs, h⟩ := bind_eq_ok.mp h
      obtain rfl := textOfValue_eq_ok.mp hs
      exact .instant (mapError_eq_ok.mp h)
  · intro h
    cases h with
    | text s => rfl
    | flag b => rfl
    | word s => rfl
    | uuid h => exact mapError_eq_ok.mpr h
    | instant h => exact mapError_eq_ok.mpr h

/-- What stands for a field that is required: a value of its kind. -/
def Field.Kind.Fills (k : Field.Kind) (held : Option Json) (c : k.Carrier) : Prop :=
  ∃ v, held = some v ∧ k.Spells v c

/-- What stands for a field that is optional: nothing, null or a value of its kind. -/
inductive Field.Kind.MayFill (k : Field.Kind) : Option Json → Option k.Carrier → Prop
  | absent : MayFill k none none
  | null : MayFill k (some .null) none
  | value {v : Json} {c : k.Carrier} (h : k.Spells v c) : MayFill k (some v) (some c)

/-- **What may stand for a field**, and the slot that it is read as. -/
def Field.Fits : (f : Field) → Option Json → f.Slot → Prop
  | ⟨_, k, false⟩ => k.Fills
  | ⟨_, k, true⟩ => k.MayFill

theorem Field.Kind.Spells.ne_null {k : Field.Kind} {v : Json} {c : k.Carrier} (h : k.Spells v c) :
    v ≠ .null := by
  cases h <;> exact fun h => nomatch h

theorem Field.isHeld_iff_fits (f : Field) {held : Option Json} {slot : f.Slot} :
    f.IsHeld slot held ↔ f.Fits held slot := by
  obtain ⟨name, k, optional⟩ := f
  cases optional with
  | false =>
    cases held with
    | none => exact ⟨fun h => (nomatch h), fun ⟨_, h, _⟩ => (nomatch h)⟩
    | some v =>
      refine (k.ofValue_eq_ok_iff (v := v)).trans ⟨fun h => ⟨v, rfl, h⟩, ?_⟩
      rintro ⟨w, hw, h⟩
      cases hw
      exact h
  | true =>
    constructor
    · intro h
      cases held with
      | none =>
        cases h
        exact .absent
      | some v =>
        by_cases hnull : v = .null
        · subst hnull
          cases h
          exact .null
        · have h : (k.ofValue v).map some = .ok slot := by
            cases v <;> first | exact h | exact absurd rfl hnull
          obtain ⟨c, hc, rfl⟩ := map_eq_ok.mp h
          exact .value (k.ofValue_eq_ok_iff.mp hc)
    · intro h
      cases h with
      | absent => rfl
      | null => rfl
      | @value v c h =>
        have hread : (k.ofValue v).map some = .ok (some c) :=
          map_eq_ok.mpr ⟨c, k.ofValue_eq_ok_iff.mpr h, rfl⟩
        have hnull := h.ne_null
        change Field.ofValue ⟨name, k, true⟩ v = .ok (some c)
        cases v <;> first | exact hread | exact absurd rfl hnull

theorem Field.ofValue_cases (f : Field) {v : Json} {slot : f.Slot} (h : f.ofValue v = .ok slot) :
    v = .null ∨ (∃ b, v = .bool b) ∨ ∃ s, v = .string s := by
  obtain ⟨name, k, optional⟩ := f
  cases v with
  | null => exact .inl rfl
  | bool b => exact .inr (.inl ⟨b, rfl⟩)
  | string s => exact .inr (.inr ⟨s, rfl⟩)
  | _ => cases optional <;> cases k <;> cases h

theorem Field.Fits.ne_none {f : Field} {held : Option Json} {slot : f.Slot}
    (h : f.Fits held slot) (hrequired : f.optional = false) : held ≠ none := by
  obtain ⟨name, k, optional⟩ := f
  cases hrequired
  obtain ⟨v, rfl, -⟩ := h
  exact Option.some_ne_none v

/-! ## The form of a record -/

namespace Schema

/-- **The form of a record**: a mapping of declared fields, none of them twice and every required
one among them, or a list with a value for each field, where optional fields may be left off at the
end. -/
inductive Admits (s : Schema) : Json → Prop
  | mapping {fields : List (String × Json)} (distinct : (fields.map Prod.fst).Nodup)
    (declared : ∀ f ∈ fields, f.1 ∈ s.names)
    (required : ∀ f ∈ s.fields, f.optional = false → f.name ∈ fields.map Prod.fst) :
    Admits s (.object fields)
  | list {items : List Json} (short : items.length ≤ s.fields.length)
    (required : ∀ f ∈ s.fields.drop items.length, f.optional = true) : Admits s (.array items)

/-- What stands for the field with a name: in a mapping the value under the name, in a list the
value at the field's place. -/
def written? (s : Schema) : Json → String → Option Json
  | .object fields, name => field? name fields
  | .array items, name => items[s.names.idxOf name]?
  | _, _ => none

end Schema

/-- Each slot is what stands for its field. -/
def Filled.Fits (written : String → Option Json) : (fs : List Field) → Filled fs → Prop
  | [], _ => True
  | f :: fs, (slot, rest) => f.Fits (written f.name) slot ∧ Fits written fs rest

/-! ## Slots that are found by name -/

theorem Filled.fits_congr {written written' : String → Option Json} {fs : List Field}
    {record : Filled fs} (h : ∀ f ∈ fs, written f.name = written' f.name) :
    Filled.Fits written fs record ↔ Filled.Fits written' fs record := by
  induction fs with
  | nil => exact .rfl
  | cons f fs ih =>
    obtain ⟨slot, rest⟩ := record
    obtain ⟨hf, hfs⟩ := List.forall_mem_cons.mp h
    rw [Filled.Fits, Filled.Fits, hf, ih hfs]

theorem Filled.fits_of_holds {written : String → Option Json} {fs : List Field} {record : Filled fs}
    (hnodup : (fs.map Field.name).Nodup)
    (h : ∀ name ∈ fs.map Field.name, Filled.Holds fs record name (written name)) :
    Filled.Fits written fs record := by
  induction fs with
  | nil => trivial
  | cons f fs ih =>
    obtain ⟨slot, rest⟩ := record
    obtain ⟨hnew, hnodup⟩ := List.nodup_cons.mp hnodup
    have hfirst := h f.name List.mem_cons_self
    rw [Filled.Holds, if_pos rfl] at hfirst
    refine ⟨f.isHeld_iff_fits.mp hfirst, ih hnodup fun name hname => ?_⟩
    have hrest := h name (List.mem_cons_of_mem _ hname)
    have hne : f.name ≠ name := fun heq => hnew (heq ▸ hname)
    rwa [Filled.Holds, if_neg hne] at hrest

theorem Field.Fits.unique {f : Field} {held : Option Json} {slot slot' : f.Slot}
    (h : f.Fits held slot) (h' : f.Fits held slot') : slot = slot' := by
  rw [← f.isHeld_iff_fits] at h h'
  cases held with
  | none => exact Option.some.inj (h.symm.trans h')
  | some v => exact Except.ok.inj (h.symm.trans h')

theorem Filled.Fits.unique {written : String → Option Json} {fs : List Field}
    {record record' : Filled fs} (h : Filled.Fits written fs record)
    (h' : Filled.Fits written fs record') : record = record' := by
  induction fs with
  | nil => rfl
  | cons f fs ih => exact Prod.ext (h.1.unique h'.1) (ih h.2 h'.2)

theorem Filled.Fits.exists_slot {written : String → Option Json} {fs : List Field}
    {record : Filled fs} (h : Filled.Fits written fs record) {f : Field} (hf : f ∈ fs) :
    ∃ slot, f.Fits (written f.name) slot := by
  induction fs with
  | nil => cases hf
  | cons g fs ih =>
    rcases List.mem_cons.mp hf with rfl | hf
    · exact ⟨_, h.1⟩
    · exact ih h.2 hf

/-! ## Mappings -/

theorem Row.exists_put (duplicate : Field → Misread) {name : String} {value : Json}
    {fs : List Field} {row : Row fs} (hfree : Row.Holds fs row name none)
    (hread : ∀ f ∈ fs, f.name = name → ∃ v, f.ofValue value = .ok v) :
    ∃ row', Row.put duplicate (fun f => (f.ofValue value).map fun v => (v, ())) name fs row =
      some (.ok (row', ())) := by
  induction fs with
  | nil => cases hfree
  | cons f fs ih =>
    obtain ⟨slot, row⟩ := row
    rw [Row.Holds] at hfree
    simp only [Row.put]
    by_cases hname : f.name = name
    · rw [if_pos hname] at hfree ⊢
      obtain ⟨v, hv⟩ := hread f List.mem_cons_self hname
      obtain rfl : slot = none := Option.map_eq_none_iff.mp hfree
      refine ⟨(some v, row), ?_⟩
      simp only [hv, map_ok]
    · rw [if_neg hname] at hfree ⊢
      obtain ⟨rest, hrest⟩ := ih hfree fun g hg => hread g (List.mem_cons_of_mem _ hg)
      refine ⟨(slot, rest), ?_⟩
      rw [hrest, Option.map_some, map_ok]

theorem Row.free_of_put {duplicate : Field → Misread} {name : String} {value : Json}
    {fs : List Field} {row row' : Row fs}
    (hput : Row.put duplicate (fun f => (f.ofValue value).map fun v => (v, ())) name fs row =
      some (.ok (row', ()))) :
    Row.Holds fs row name none ∧
      ∀ key, Row.Holds fs row' key none → key ≠ name ∧ Row.Holds fs row key none := by
  induction fs with
  | nil => cases hput
  | cons f fs ih =>
    obtain ⟨slot, row⟩ := row
    simp only [Row.Holds]
    rcases put_cons_eq_ok hput with ⟨hname, rfl, v, -, rfl⟩ | ⟨hname, rest, hrest, rfl⟩
    · refine ⟨by rw [if_pos hname]; rfl, fun key hkey => ?_⟩
      by_cases heq : f.name = key
      · rw [if_pos heq] at hkey
        cases hkey
      · rw [if_neg heq] at hkey ⊢
        exact ⟨fun h => heq (hname.trans h.symm), hkey⟩
    · obtain ⟨hfree, hothers⟩ := ih hrest
      refine ⟨by rw [if_neg hname]; exact hfree, fun key hkey => ?_⟩
      by_cases heq : f.name = key
      · rw [if_pos heq] at hkey ⊢
        exact ⟨fun h => hname (heq.trans h), hkey⟩
      · rw [if_neg heq] at hkey ⊢
        exact hothers key hkey

theorem Row.exists_complete {written : String → Option Json} {fs : List Field} {row : Row fs}
    {record : Filled fs} (hnodup : (fs.map Field.name).Nodup)
    (h : ∀ name ∈ fs.map Field.name, Row.Holds fs row name (written name))
    (hfits : Filled.Fits written fs record) : ∃ record', Row.complete fs row = .ok record' := by
  induction fs with
  | nil => exact ⟨(), rfl⟩
  | cons f fs ih =>
    obtain ⟨slot, row⟩ := row
    obtain ⟨hnew, hnodup⟩ := List.nodup_cons.mp hnodup
    have hfirst := h f.name List.mem_cons_self
    rw [Row.Holds, if_pos rfl] at hfirst
    have htail : ∀ name ∈ fs.map Field.name, Row.Holds fs row name (written name) := by
      intro name hname
      have hrest := h name (List.mem_cons_of_mem _ hname)
      have hne : f.name ≠ name := fun heq => hnew (heq ▸ hname)
      rwa [Row.Holds, if_neg hne] at hrest
    obtain ⟨rest, hrest⟩ := ih hnodup htail hfits.2
    have hslot : ∃ v, slot.or f.absent? = some v := by
      cases slot with
      | some v => exact ⟨v, rfl⟩
      | none =>
        have hheld := f.isHeld_iff_fits.mpr hfits.1
        rw [Option.map_eq_none_iff.mp hfirst.symm] at hheld
        exact ⟨_, hheld⟩
    obtain ⟨v, hv⟩ := hslot
    refine ⟨(v, rest), ?_⟩
    rw [Row.complete, hv]
    simp only
    rw [hrest, map_ok]

namespace Record

variable {s : Schema}

/-- **The keys of a mapping that is read** are distinct, and their slots were empty. -/
theorem free_of_rowOfFields {fields : List (String × Json)} {row row' : Row s.fields}
    (h : rowOfFields s row fields = .ok row') : (fields.map Prod.fst).Nodup ∧
      ∀ key ∈ fields.map Prod.fst, Row.Holds s.fields row key none := by
  induction fields generalizing row with
  | nil => exact ⟨List.nodup_nil, fun _ hkey => (nomatch hkey)⟩
  | cons f fields ih =>
    obtain ⟨name, value⟩ := f
    obtain ⟨row₁, hput, h⟩ := rowOfFields_cons_eq_ok h
    obtain ⟨hdistinct, hfree₁⟩ := ih h
    obtain ⟨hname, hfree⟩ := Row.free_of_put hput
    refine ⟨List.nodup_cons.mpr ⟨fun hmem => ?_, hdistinct⟩, ?_⟩
    · exact (hfree name (hfree₁ name hmem)).1 rfl
    · exact List.forall_mem_cons.mpr ⟨hname, fun key hkey => (hfree key (hfree₁ key hkey)).2⟩

theorem exists_rowOfFields {fields : List (String × Json)} {row : Row s.fields}
    (hdistinct : (fields.map Prod.fst).Nodup)
    (hfree : ∀ key ∈ fields.map Prod.fst, Row.Holds s.fields row key none)
    (hread : ∀ f ∈ fields, ∀ g ∈ s.fields, g.name = f.1 → ∃ v, g.ofValue f.2 = .ok v) :
    ∃ row', rowOfFields s row fields = .ok row' := by
  induction fields generalizing row with
  | nil => exact ⟨row, rfl⟩
  | cons f fields ih =>
    obtain ⟨key, value⟩ := f
    obtain ⟨hnew, hdistinct⟩ := List.nodup_cons.mp hdistinct
    obtain ⟨row₁, hput⟩ := Row.exists_put (fun f => .duplicateField f.name)
      (hfree _ List.mem_cons_self) (hread _ List.mem_cons_self)
    have hfree₁ : ∀ name ∈ fields.map Prod.fst, Row.Holds s.fields row₁ name none := by
      intro name hname
      have hne : name ≠ key := fun heq => hnew (heq ▸ hname)
      have hheld := Row.holds_put (hfree name (List.mem_cons_of_mem _ hname)) hput
      rwa [field?_cons, if_neg hne] at hheld
    obtain ⟨row', hrow'⟩ := ih hdistinct hfree₁ fun f hf => hread f (List.mem_cons_of_mem _ hf)
    refine ⟨row', ?_⟩
    rw [rowOfFields, hput]
    exact hrow'

/-- **A mapping is a record** if its keys are distinct and declared and what stands under the name
of each field fits it. -/
theorem ofFields_eq_ok_iff (hnodup : s.names.Nodup) {fields : List (String × Json)}
    {record : Filled s.fields} : ofFields s fields = .ok record ↔
      (fields.map Prod.fst).Nodup ∧ (∀ f ∈ fields, f.1 ∈ s.names) ∧
        Filled.Fits (fun name => field? name fields) s.fields record := by
  have hread : ∀ {record : Filled s.fields}, ofFields s fields = .ok record →
      Filled.Fits (fun name => field? name fields) s.fields record :=
    fun h => Filled.fits_of_holds hnodup (holds_of_ofFields h).2
  constructor
  · intro h
    obtain ⟨row, hrow, -⟩ := bind_eq_ok.mp h
    exact ⟨(free_of_rowOfFields hrow).1, (holds_of_ofFields h).1, hread h⟩
  · rintro ⟨hdistinct, hdeclared, hfits⟩
    have hvalues : ∀ f ∈ fields, ∀ g ∈ s.fields, g.name = f.1 → ∃ v, g.ofValue f.2 = .ok v := by
      intro f hf g hg hname
      obtain ⟨slot, hslot⟩ := hfits.exists_slot hg
      simp only [hname, field?_of_mem hdistinct hf] at hslot
      exact ⟨slot, g.isHeld_iff_fits.mpr hslot⟩
    have hfree : ∀ key ∈ fields.map Prod.fst,
        Row.Holds s.fields (Row.empty s.fields) key none :=
      List.forall_mem_map.mpr fun f hf => Row.holds_empty (hdeclared f hf)
    obtain ⟨row, hrow⟩ := exists_rowOfFields hdistinct hfree hvalues
    obtain ⟨record', hrecord'⟩ := Row.exists_complete hnodup
      (fun _ hname => holds_of_rowOfFields (Row.holds_empty hname) hrow) hfits
    have h : ofFields s fields = .ok record' := bind_eq_ok.mpr ⟨row, hrow, hrecord'⟩
    rw [h, (hread h).unique hfits]

/-! ## Lists -/

theorem ofItems_eq_ok_iff {noun : String} {place : Nat} {fs : List Field} {items : List Json}
    {record : Filled fs} :
    ofItems noun place fs items = .ok (record, []) ↔ Filled.Takes fs record items := by
  refine ⟨takes_of_ofItems, fun h => ?_⟩
  induction fs generalizing place items with
  | nil =>
    obtain rfl : items = [] := h
    rfl
  | cons f fs ih =>
    obtain ⟨slot, rest⟩ := record
    obtain ⟨hslot, hrest⟩ := h
    cases items with
    | nil =>
      have hslot : f.absent? = some slot := hslot
      simp only [ofItems, hslot]
      exact map_eq_ok.mpr ⟨_, ih hrest, rfl⟩
    | cons item items =>
      rw [ofItems]
      exact bind_eq_ok.mpr ⟨slot, hslot, bind_eq_ok.mpr ⟨_, ih hrest, rfl⟩⟩

theorem optional_of_takes {fs : List Field} {items : List Json} {record : Filled fs}
    (h : Filled.Takes fs record items) : ∀ f ∈ fs.drop items.length, f.optional = true := by
  induction fs generalizing items with
  | nil => exact fun _ hf => nomatch List.drop_nil ▸ hf
  | cons f fs ih =>
    obtain ⟨slot, rest⟩ := record
    obtain ⟨hslot, hrest⟩ := h
    cases items with
    | nil =>
      refine List.forall_mem_cons.mpr ⟨?_, ih hrest⟩
      obtain ⟨name, k, optional⟩ := f
      cases optional with
      | true => rfl
      | false => cases hslot
    | cons item items => exact ih hrest

/-- The slots of a list take what stands at the places of their fields. -/
theorem takes_iff_fits {fs : List Field} (hnodup : (fs.map Field.name).Nodup) {items : List Json}
    {record : Filled fs} : Filled.Takes fs record items ↔ items.length ≤ fs.length ∧
      Filled.Fits (fun name => items[(fs.map Field.name).idxOf name]?) fs record := by
  induction fs generalizing items with
  | nil => exact List.length_eq_zero_iff.symm.trans (by simp [Filled.Fits])
  | cons f fs ih =>
    obtain ⟨slot, rest⟩ := record
    obtain ⟨hnew, hnodup⟩ := List.nodup_cons.mp hnodup
    -- every other field has the next place in what is left of the list
    have htail : ∀ g ∈ fs, items[((f :: fs).map Field.name).idxOf g.name]? =
        items.tail[(fs.map Field.name).idxOf g.name]? := by
      intro g hg
      have hne : f.name ≠ g.name := fun heq => hnew (heq ▸ List.mem_map_of_mem hg)
      rw [List.map_cons, List.idxOf_cons_ne _ hne, List.getElem?_tail]
    have hfirst : items[((f :: fs).map Field.name).idxOf f.name]? = items.head? := by
      rw [List.map_cons, List.idxOf_cons_self, List.head?_eq_getElem?]
    have hlength : items.tail.length ≤ fs.length ↔ items.length ≤ (f :: fs).length := by
      rw [List.length_tail, List.length_cons]
      omega
    have hfits : Filled.Fits (fun name => items[((f :: fs).map Field.name).idxOf name]?) fs rest ↔
        Filled.Fits (fun name => items.tail[(fs.map Field.name).idxOf name]?) fs rest :=
      Filled.fits_congr htail
    rw [Filled.Takes, Filled.Fits, hfits, hfirst, f.isHeld_iff_fits, ih hnodup, hlength]
    exact and_left_comm

/-! ## Records -/

/-- **The grammar of records.** A data value is read exactly if it has the form of the record and
what stands for each field fits it. -/
theorem ofValue_eq_ok_iff (hnodup : s.names.Nodup) {v : Json} {record : Filled s.fields} :
    ofValue s v = .ok record ↔ s.Admits v ∧ Filled.Fits (s.written? v) s.fields record := by
  constructor
  · intro h
    cases v with
    | object fields =>
      obtain ⟨hdistinct, hdeclared, hfits⟩ := (ofFields_eq_ok_iff hnodup).mp h
      refine ⟨.mapping hdistinct hdeclared fun f hf hrequired => ?_, hfits⟩
      obtain ⟨slot, hslot⟩ := hfits.exists_slot hf
      by_contra hmissing
      rw [field?_eq_none.mpr hmissing] at hslot
      exact hslot.ne_none hrequired rfl
    | array items =>
      obtain ⟨⟨row, left⟩, hrow, h⟩ := bind_eq_ok.mp h
      simp only at h
      split at h
      · next hleft =>
        cases h
        rw [List.isEmpty_iff.mp hleft] at hrow
        have htakes := takes_of_ofItems hrow
        obtain ⟨hshort, hfits⟩ := (takes_iff_fits hnodup).mp htakes
        exact ⟨.list hshort (optional_of_takes htakes), hfits⟩
      · cases h
    | _ => cases h
  · rintro ⟨hform, hfits⟩
    cases hform with
    | mapping hdistinct hdeclared _ =>
      exact (ofFields_eq_ok_iff hnodup).mpr ⟨hdistinct, hdeclared, hfits⟩
    | list hshort _ =>
      have htakes := (takes_iff_fits hnodup).mpr ⟨hshort, hfits⟩
      exact bind_eq_ok.mpr ⟨_, ofItems_eq_ok_iff.mpr htakes, rfl⟩

theorem ofValue_cases {v : Json} {record : Filled s.fields} (h : ofValue s v = .ok record) :
    (∃ items, v = .array items) ∨ ∃ fields, v = .object fields := by
  cases v with
  | array items => exact .inl ⟨items, rfl⟩
  | object fields => exact .inr ⟨fields, rfl⟩
  | _ => cases h

/-! ## The order of fields -/

theorem ofValue_array_eq_ok_iff {items : List Json} {record : Filled s.fields} :
    ofValue s (.array items) = .ok record ↔ Filled.Takes s.fields record items := by
  rw [← @ofItems_eq_ok_iff s.listNoun 0, ofValue]
  constructor
  · intro h
    obtain ⟨⟨row, left⟩, hrow, h⟩ := bind_eq_ok.mp h
    simp only at h
    split at h
    · next hleft =>
      cases h
      rw [hrow, List.isEmpty_iff.mp hleft]
    · cases h
  · intro h
    exact bind_eq_ok.mpr ⟨_, h, rfl⟩

theorem fits_map_sorted {written : String → Option Json} {fs : List Field} {record : Filled fs} :
    Filled.Fits (fun name => (written name).map sorted) fs record ↔
      Filled.Fits written fs record := by
  induction fs with
  | nil => exact .rfl
  | cons f fs ih =>
    rw [Filled.Fits, Filled.Fits, ih, ← f.isHeld_iff_fits, ← f.isHeld_iff_fits,
      f.isHeld_map_sorted]

/-- **A record does not depend on the order of its fields**, as long as no key is repeated. -/
theorem ofFields_perm (hnodup : s.names.Nodup) {fields fields' : List (String × Json)}
    (hperm : fields.Perm fields') (hdistinct : (fields.map Prod.fst).Nodup)
    {record : Filled s.fields} : ofFields s fields = .ok record ↔ ofFields s fields' = .ok record := by
  have hheld : (fun name => field? name fields) = fun name => field? name fields' :=
    funext fun name => field?_perm name hperm hdistinct
  have hdeclared : (∀ f ∈ fields, f.1 ∈ s.names) ↔ ∀ f ∈ fields', f.1 ∈ s.names :=
    forall_congr' fun f => imp_congr_left hperm.mem_iff
  rw [ofFields_eq_ok_iff hnodup, ofFields_eq_ok_iff hnodup, (hperm.map Prod.fst).nodup_iff,
    hdeclared, hheld]

theorem ofFields_sortedFields (hnodup : s.names.Nodup) {fields : List (String × Json)}
    {record : Filled s.fields} :
    ofFields s (sortedFields fields) = .ok record ↔ ofFields s fields = .ok record := by
  have hheld : (fun name => field? name (sortedFields fields)) =
      fun name => (field? name fields).map sorted :=
    funext fun name => by rw [sortedFields_eq_map, field?_map]
  rw [ofFields_eq_ok_iff hnodup, ofFields_eq_ok_iff hnodup, hheld, fits_map_sorted,
    sortedFields_eq_map, List.map_map, List.forall_mem_map]
  exact .rfl

/-- **A record is read alike** from a value and from the sorted one, as long as no key is repeated. -/
theorem ofValue_sorted (hnodup : s.names.Nodup) {v : Json}
    (hdistinct : ∀ fields, v = .object fields → (fields.map Prod.fst).Nodup)
    {record : Filled s.fields} : ofValue s v.sorted = .ok record ↔ ofValue s v = .ok record := by
  cases v with
  | object fields =>
    have hkeys : ((sortedFields fields).map Prod.fst).Nodup :=
      keys_sortedFields fields ▸ hdistinct fields rfl
    have hperm := perm_sortFields hkeys
    refine (ofFields_perm hnodup hperm ((hperm.map Prod.fst).nodup_iff.mpr hkeys)).trans ?_
    exact ofFields_sortedFields hnodup
  | array items =>
    rw [sorted, sortedItems_eq_map, ofValue_array_eq_ok_iff, ofValue_array_eq_ok_iff,
      Filled.takes_map_sorted]
  | _ => exact .rfl

end Record

end Methodology
