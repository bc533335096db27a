import Methodology.Proofs.Instant.RoundTrip
import Methodology.Proofs.Record.Steps
import Methodology.Record.OfText

/-!
# What stands in a record that is read

An instant in a record comes from a text, so it is proper, whichever notation the record is read
from.

* `Filled.IsProper`: every instant of a record is proper.
* `Row.isProper_put`: **the step.** A field that is met keeps this.
* **`Record.isProper_of_ofValue`**, **`Record.isProper_of_fromText`**,
  **`Record.isProper_of_fromYaml`**: it holds of every record that is read.
-/

namespace Methodology

open Result Yaml

/-- What is known of a value of a kind that is read: an instant is proper. -/
def Field.Kind.IsProper : (k : Field.Kind) → k.Carrier → Prop
  | text, _ => True
  | term, _ => True
  | uuid, _ => True
  | instant, t => Instant.IsProper t

/-- What is known of the slot of a field. -/
def Field.IsProper : (f : Field) → f.Slot → Prop
  | ⟨_, k, true⟩, slot => ∀ v, slot = some v → k.IsProper v
  | ⟨_, k, false⟩, v => k.IsProper v

/-- What is known of the slots of a record. -/
def Filled.IsProper : (fs : List Field) → Filled fs → Prop
  | [], _ => True
  | f :: fs, (v, rest) => f.IsProper v ∧ IsProper fs rest

/-- What is known of the slots that are filled so far. -/
def Row.IsProper : (fs : List Field) → Row fs → Prop
  | [], _ => True
  | f :: fs, (slot, rest) => (∀ v, slot = some v → f.IsProper v) ∧ IsProper fs rest

/-! ## Rows -/

theorem Field.isProper_absent (f : Field) {v : f.Slot} (h : f.absent? = some v) : f.IsProper v := by
  obtain ⟨name, kind, optional⟩ := f
  cases optional with
  | false => cases h
  | true =>
    cases h
    intro v hv
    cases hv

theorem Row.isProper_empty (fs : List Field) : Row.IsProper fs (Row.empty fs) := by
  induction fs with
  | nil => trivial
  | cons f fs ih => exact ⟨fun v h => (nomatch h), ih⟩

/-- **A field that is met** leaves a proper row, if what is read for it is proper. -/
theorem Row.isProper_put {ε σ : Type} {duplicate : Field → ε}
    {read : (f : Field) → Except ε (f.Slot × σ)} {name : String}
    (hread : ∀ f v r, read f = .ok (v, r) → f.IsProper v) {fs : List Field} {row row' : Row fs}
    {r : σ} (h : Row.IsProper fs row)
    (hput : Row.put duplicate read name fs row = some (.ok (row', r))) : Row.IsProper fs row' := by
  induction fs with
  | nil => cases hput
  | cons f fs ih =>
    obtain ⟨slot, row⟩ := row
    rcases put_cons_eq_ok hput with ⟨-, -, v, hv, rfl⟩ | ⟨-, rest, hrest, rfl⟩
    · exact ⟨fun w hw => Option.some.inj hw ▸ hread f v _ hv, h.2⟩
    · exact ⟨h.1, ih h.2 hrest⟩

theorem Row.isProper_complete {fs : List Field} {row : Row fs} {record : Filled fs}
    (h : Row.IsProper fs row) (hrow : Row.complete fs row = .ok record) :
    Filled.IsProper fs record := by
  induction fs with
  | nil => trivial
  | cons f fs ih =>
    obtain ⟨slot, row⟩ := row
    obtain ⟨v, rest, hv, hrest, rfl⟩ := complete_cons_eq_ok hrow
    refine ⟨?_, ih h.2 hrest⟩
    rcases Option.or_eq_some_iff.mp hv with hslot | ⟨-, habsent⟩
    · exact h.1 v hslot
    · exact f.isProper_absent habsent

/-! ## Data values -/

theorem Field.Kind.isProper_ofValue (k : Field.Kind) {json : Json} {v : k.Carrier}
    (h : k.ofValue json = .ok v) : k.IsProper v := by
  cases k with
  | text => trivial
  | term => trivial
  | uuid => trivial
  | instant =>
    obtain ⟨s, -, h⟩ := bind_eq_ok.mp h
    exact Instant.isProper_of_read (mapError_eq_ok.mp h)

theorem Field.isProper_ofValue (f : Field) {json : Json} {v : f.Slot}
    (h : f.ofValue json = .ok v) : f.IsProper v := by
  obtain ⟨name, kind, optional⟩ := f
  cases optional with
  | false => exact kind.isProper_ofValue h
  | true =>
    intro w hw
    cases hw
    by_cases hnull : json = .null
    · subst hnull
      cases h
    · have h : (kind.ofValue json).map some = .ok (some w) := by
        cases json <;> first | exact h | exact absurd rfl hnull
      obtain ⟨u, hu, heq⟩ := map_eq_ok.mp h
      cases heq
      exact kind.isProper_ofValue hu

theorem Field.isProper_of_isHeld (f : Field) {held : Option Json} {v : f.Slot}
    (h : f.IsHeld v held) : f.IsProper v := by
  cases held with
  | none => exact f.isProper_absent h
  | some value => exact f.isProper_ofValue h

namespace Record

theorem isProper_of_rowOfFields {s : Schema} {fields : List (String × Json)}
    {row row' : Row s.fields} (h : Row.IsProper s.fields row)
    (hrow : rowOfFields s row fields = .ok row') : Row.IsProper s.fields row' := by
  induction fields generalizing row with
  | nil =>
    cases hrow
    exact h
  | cons f fields ih =>
    obtain ⟨key, value⟩ := f
    obtain ⟨row₁, hput, hrow⟩ := rowOfFields_cons_eq_ok hrow
    refine ih (Row.isProper_put (fun f v r hv => ?_) h hput) hrow
    obtain ⟨w, hw, heq⟩ := map_eq_ok.mp hv
    cases heq
    exact f.isProper_ofValue hw

theorem isProper_of_ofItems {noun : String} {place : Nat} {fs : List Field} {items left : List Json}
    {record : Filled fs} (h : ofItems noun place fs items = .ok (record, left)) :
    Filled.IsProper fs record := by
  induction fs generalizing place items with
  | nil => trivial
  | cons f fs ih =>
    obtain ⟨v, rest, hv, hrest, rfl⟩ := ofItems_cons_eq_ok h
    exact ⟨f.isProper_of_isHeld hv, ih hrest⟩

theorem isProper_of_ofValue {s : Schema} {json : Json} {record : Filled s.fields}
    (h : ofValue s json = .ok record) : Filled.IsProper s.fields record := by
  cases json with
  | object fields =>
    obtain ⟨row, hrow, h⟩ := bind_eq_ok.mp h
    exact Row.isProper_complete (isProper_of_rowOfFields (Row.isProper_empty _) hrow) h
  | array items =>
    obtain ⟨⟨row, left⟩, hrow, h⟩ := bind_eq_ok.mp h
    simp only at h
    split at h
    · cases h
      exact isProper_of_ofItems hrow
    · cases h
  | _ => cases h

end Record

/-! ## Texts -/

theorem Field.Kind.isProper_fromText (k : Field.Kind) {cs rest : List Char} {v : k.Carrier}
    (h : k.fromText cs = .ok (v, rest)) : k.IsProper v := by
  cases k with
  | text => trivial
  | term => trivial
  | uuid => trivial
  | instant =>
    obtain ⟨⟨s, _⟩, -, h⟩ := bind_eq_ok.mp h
    simp only at h
    split at h
    · next t ht =>
      cases h
      exact Instant.isProper_of_read ht
    · cases h

theorem Field.isProper_fromText (f : Field) {cs rest : List Char} {v : f.Slot}
    (h : f.fromText cs = .ok (v, rest)) : f.IsProper v := by
  obtain ⟨name, kind, optional⟩ := f
  cases optional with
  | false => exact kind.isProper_fromText h
  | true =>
    intro w hw
    cases hw
    rw [Field.fromText] at h
    split at h
    · obtain ⟨_, hnull, heq⟩ := map_eq_ok.mp (mapError_eq_ok.mp h)
      cases heq
    · obtain ⟨⟨u, _⟩, hu, heq⟩ := map_eq_ok.mp h
      cases heq
      exact kind.isProper_fromText hu

namespace Record

theorem isProper_of_rowFromText {s : Schema} {fuel : Nat} {first : Bool} {row row' : Row s.fields}
    {cs rest : List Char} (h : Row.IsProper s.fields row)
    (hrow : rowFromText s fuel first row cs = .ok (row', rest)) : Row.IsProper s.fields row' := by
  induction fuel generalizing first row cs with
  | zero => cases hrow
  | succ fuel ih =>
    rw [rowFromText] at hrow
    obtain ⟨next, -, hrow⟩ := bind_eq_ok.mp hrow
    split at hrow
    · cases hrow
      exact h
    · obtain ⟨⟨key, cs⟩, -, hrow⟩ := bind_eq_ok.mp hrow
      simp only at hrow
      split at hrow
      · cases hrow
      · cases hrow
      · next row₁ _ hput =>
        refine ih (Row.isProper_put (fun f v r hv => ?_) h hput) hrow
        obtain ⟨_, -, hv⟩ := bind_eq_ok.mp hv
        exact f.isProper_fromText hv

theorem isProper_of_itemsFromText {noun : String} {place : Nat} {fs : List Field}
    {cs rest : List Char} {record : Filled fs}
    (h : itemsFromText noun place fs cs = .ok (record, rest)) : Filled.IsProper fs record := by
  induction fs generalizing place cs with
  | nil => trivial
  | cons f fs ih =>
    rw [itemsFromText] at h
    obtain ⟨next, -, h⟩ := bind_eq_ok.mp h
    split at h
    · obtain ⟨⟨v, _⟩, hv, h⟩ := bind_eq_ok.mp h
      obtain ⟨⟨row, _⟩, hrow, heq⟩ := bind_eq_ok.mp h
      cases heq
      exact ⟨f.isProper_fromText hv, ih hrow⟩
    · split at h
      · cases h
      · next v hv =>
        obtain ⟨⟨row, _⟩, hrow, heq⟩ := bind_eq_ok.mp h
        cases heq
        exact ⟨f.isProper_absent hv, ih hrow⟩

theorem isProper_of_fieldsFromText {s : Schema} {cs rest : List Char} {record : Filled s.fields}
    (h : fieldsFromText s cs = .ok (record, rest)) : Filled.IsProper s.fields record := by
  obtain ⟨⟨row, _⟩, hrow, h⟩ := bind_eq_ok.mp h
  simp only at h
  split at h
  · next hcomplete =>
    cases h
    exact Row.isProper_complete (isProper_of_rowFromText (Row.isProper_empty _) hrow) hcomplete
  · cases h

theorem isProper_of_fromText {s : Schema} {cs rest : List Char} {record : Filled s.fields}
    (h : fromText s cs = .ok (record, rest)) : Filled.IsProper s.fields record := by
  rw [fromText] at h
  split at h
  · cases h
  · obtain ⟨⟨row, _⟩, hrow, h⟩ := bind_eq_ok.mp h
    obtain ⟨_, -, heq⟩ := bind_eq_ok.mp h
    cases heq
    exact isProper_of_itemsFromText (mapError_eq_ok.mp hrow)
  · obtain ⟨⟨row, _⟩, hrow, h⟩ := bind_eq_ok.mp h
    obtain ⟨_, -, heq⟩ := bind_eq_ok.mp h
    cases heq
    exact isProper_of_fieldsFromText (mapError_eq_ok.mp hrow)
  · cases h

end Record

/-! ## Documents -/

theorem Field.Kind.isProper_fromNode (k : Field.Kind) {d : Document} {jumps left : Nat}
    {node : Node Nat} {v : k.Carrier} (h : k.fromNode d jumps node = some (v, left)) :
    k.IsProper v := by
  cases k with
  | text => trivial
  | term => trivial
  | uuid => trivial
  | instant =>
    obtain ⟨s, -, ht⟩ := checkedFromNode_eq_some_iff.mp h
    exact Instant.isProper_of_read ht

theorem Field.isProper_fromNode (f : Field) {d : Document} {jumps left : Nat} {node : Node Nat}
    {v : f.Slot} (h : f.fromNode d jumps node = some (v, left)) : f.IsProper v := by
  obtain ⟨name, kind, optional⟩ := f
  cases optional with
  | false => exact kind.isProper_fromNode h
  | true =>
    intro w hw
    cases hw
    obtain ⟨⟨n, jumps'⟩, -, h⟩ := Option.bind_eq_some_iff.mp h
    -- the node is a value, whether it is a scalar that could have been null or not
    obtain ⟨null, h⟩ : ∃ null : Bool, (if null then some (none, jumps') else
        (kind.fromNode d jumps' n).map fun r => (some r.1, r.2)) = some (some w, left) := by
      simp only at h
      split at h
      · obtain ⟨null, -, h⟩ := Option.bind_eq_some_iff.mp h
        exact ⟨null, h⟩
      · exact ⟨false, h⟩
    split at h
    · cases h
    · obtain ⟨⟨u, _⟩, hu, heq⟩ := Option.map_eq_some_iff.mp h
      cases heq
      exact kind.isProper_fromNode hu

namespace Record

theorem isProper_of_rowFromEntries {d : Document} {s : Schema} {row row' : Row s.fields}
    {jumps : Nat} {entries : List (Node Nat × Node Nat)} (h : Row.IsProper s.fields row)
    (hrow : rowFromEntries d s row jumps entries = some row') : Row.IsProper s.fields row' := by
  induction entries generalizing row jumps with
  | nil =>
    cases hrow
    exact h
  | cons e entries ih =>
    obtain ⟨k, v⟩ := e
    obtain ⟨key, jumps₁, row₁, jumps₂, -, hput, hrow⟩ := rowFromEntries_cons_eq_some_iff.mp hrow
    refine ih (Row.isProper_put (fun f w r hw => ?_) h hput) hrow
    exact f.isProper_fromNode (readNode_eq_ok_iff.mp hw)

theorem isProper_of_complete {s : Schema} {row : Row s.fields} {record : Filled s.fields}
    (h : Row.IsProper s.fields row)
    (hrow : (Row.complete s.fields row).toOption = some record) :
    Filled.IsProper s.fields record :=
  Row.isProper_complete h (toOption_eq_some.mp hrow)

theorem isProper_of_fromYaml {s : Schema} {text : String} {record : Filled s.fields}
    (h : fromYaml s text = some record) : Filled.IsProper s.fields record := by
  obtain ⟨found, -, h⟩ := Option.bind_eq_some_iff.mp h
  cases found with
  | none => exact isProper_of_complete (Row.isProper_empty _) h
  | some d =>
    obtain ⟨⟨root, _⟩, -, h⟩ := Option.bind_eq_some_iff.mp h
    obtain ⟨entries, -, h⟩ := Option.bind_eq_some_iff.mp h
    obtain ⟨row, hrow, h⟩ := Option.bind_eq_some_iff.mp h
    exact isProper_of_complete (isProper_of_rowFromEntries (Row.isProper_empty _) hrow) h

end Record

end Methodology
