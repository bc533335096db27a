import Mathlib.Data.List.Pairwise
import Methodology.Proofs.Json.Fields
import Methodology.Proofs.Json.RoundTrip

/-!
# Data values as they are written

Reading a text sorts the fields of its mappings, and a field gives way to a later one with its key.
What stands in the text is read here without that.

* `Json.written`: the value that is written in a text, with all fields in their order.
* `ReadsSorted`, `readsSorted`: values, items and fields are read as they are written, sorted.
* **`read_eq_written`**: so is a whole text.
* `lastFields`, `hiddenFields`: of the fields with one key the last one stays, and the others give
  way; `lastFields_append_hiddenFields`.
* `field?_sorted`: a field that is read is one that stays.
-/

namespace Methodology.Json

open Result

mutual

/-- **The value that is written** at the start of a text: no field gives way to another. -/
def writtenFrom : Nat → Nat → List Char → Except Fault (Json × List Char)
  | 0, _, _ => .error (fault .endInValue [] 0)
  | fuel + 1, depth, cs =>
    match skipBlanks cs with
    | '[' :: rest =>
      if depth ≤ 1 then .error (fault .tooDeep ('[' :: rest) 1)
      else (writtenItems fuel (depth - 1) true rest).map fun (items, rest) => (.array items, rest)
    | '\x7b' :: rest =>
      if depth ≤ 1 then .error (fault .tooDeep ('\x7b' :: rest) 1)
      else (writtenFields fuel (depth - 1) true rest).map fun (fields, rest) =>
        (.object fields, rest)
    -- nothing stands inside any other value
    | _ => valueFrom 1 1 cs

/-- The items that are written in a list. -/
def writtenItems : Nat → Nat → Bool → List Char → Except Fault (List Json × List Char)
  | 0, _, _, _ => .error (fault .endInList [] 0)
  | fuel + 1, depth, first, cs => do
    match ← nextItem first cs with
    | none => .ok ([], (skipBlanks cs).tail)
    | some cs =>
      let (item, cs) ← writtenFrom fuel depth cs
      let (items, cs) ← writtenItems fuel depth false cs
      .ok (item :: items, cs)

/-- The fields that are written in a mapping. -/
def writtenFields :
    Nat → Nat → Bool → List Char → Except Fault (List (String × Json) × List Char)
  | 0, _, _, _ => .error (fault .endInObject [] 0)
  | fuel + 1, depth, first, cs => do
    match ← nextKey first cs with
    | none => .ok ([], (skipBlanks cs).tail)
    | some cs =>
      let (key, cs) ← stringFrom cs
      let cs ← colon cs
      let (value, cs) ← writtenFrom fuel depth cs
      let (fields, cs) ← writtenFields fuel depth false cs
      .ok ((key, value) :: fields, cs)

end

/-- **The value that is written** in a whole text. -/
def written (text : String) : Except Fault Json := do
  let (value, rest) ← writtenFrom (2 * text.length + 2) depthLimit text.toList
  finish rest
  .ok value

/-! ## Reading is sorting -/

theorem valueFrom_scalar {cs : List Char} (hlist : ∀ rest, skipBlanks cs ≠ '[' :: rest)
    (hmapping : ∀ rest, skipBlanks cs ≠ '\x7b' :: rest) (fuel depth : Nat) :
    valueFrom (fuel + 1) depth cs =
      (valueFrom 1 1 cs).map fun r => (r.1.sorted, r.2) := by
  rw [valueFrom, valueFrom]
  split
  · rfl
  · next rest _ => cases word ['u', 'l', 'l'] rest <;> rfl
  · next rest _ => cases word ['r', 'u', 'e'] rest <;> rfl
  · next rest _ => cases word ['a', 'l', 's', 'e'] rest <;> rfl
  · next rest _ => cases numberFrom true rest <;> rfl
  · next rest _ => cases stringFrom rest <;> rfl
  · next rest h => exact absurd h (hlist rest)
  · next rest h => exact absurd h (hmapping rest)
  · next c rest _ _ _ _ _ _ _ _ =>
    split
    · cases numberFrom false (c :: rest) <;> rfl
    · rfl

/-- With so much fuel, values, items and fields are read as they are written, sorted. -/
structure ReadsSorted (fuel : Nat) : Prop where
  value (depth : Nat) (cs : List Char) :
    valueFrom fuel depth cs = (writtenFrom fuel depth cs).map fun r => (r.1.sorted, r.2)
  items (depth : Nat) (first : Bool) (cs : List Char) : itemsFrom fuel depth first cs =
    (writtenItems fuel depth first cs).map fun r => (sortedItems r.1, r.2)
  fields (depth : Nat) (first : Bool) (cs : List Char) : fieldsFrom fuel depth first cs =
    (writtenFields fuel depth first cs).map fun r => (sortedFields r.1, r.2)

namespace ReadsSorted

variable {fuel : Nat}

theorem value_succ (h : ReadsSorted fuel) (depth : Nat) (cs : List Char) :
    valueFrom (fuel + 1) depth cs =
      (writtenFrom (fuel + 1) depth cs).map fun r => (r.1.sorted, r.2) := by
  rw [writtenFrom]
  split
  · next rest hlist =>
    rw [valueFrom, hlist]
    simp only
    split
    · rfl
    · rw [h.items]
      cases writtenItems fuel (depth - 1) true rest <;> rfl
  · next rest hmapping =>
    rw [valueFrom, hmapping]
    simp only
    split
    · rfl
    · rw [h.fields]
      cases writtenFields fuel (depth - 1) true rest <;> rfl
  · next hlist hmapping => exact valueFrom_scalar hlist hmapping fuel depth

theorem items_succ (h : ReadsSorted fuel) (depth : Nat) (first : Bool) (cs : List Char) :
    itemsFrom (fuel + 1) depth first cs =
      (writtenItems (fuel + 1) depth first cs).map fun r => (sortedItems r.1, r.2) := by
  rw [itemsFrom, writtenItems]
  cases nextItem first cs with
  | error e => rfl
  | ok more =>
    cases more with
    | none => rfl
    | some cs =>
      simp only [ok_bind, h.value]
      cases writtenFrom fuel depth cs with
      | error e => rfl
      | ok r =>
        simp only [map_ok, ok_bind, h.items]
        cases writtenItems fuel depth false r.2 <;> rfl

theorem fields_succ (h : ReadsSorted fuel) (depth : Nat) (first : Bool) (cs : List Char) :
    fieldsFrom (fuel + 1) depth first cs =
      (writtenFields (fuel + 1) depth first cs).map fun r => (sortedFields r.1, r.2) := by
  rw [fieldsFrom, writtenFields]
  cases nextKey first cs with
  | error e => rfl
  | ok more =>
    cases more with
    | none => rfl
    | some cs =>
      simp only [ok_bind]
      cases stringFrom cs with
      | error e => rfl
      | ok key =>
        simp only [ok_bind]
        cases colon key.2 with
        | error e => rfl
        | ok cs =>
          simp only [ok_bind, h.value]
          cases writtenFrom fuel depth cs with
          | error e => rfl
          | ok r =>
            simp only [map_ok, ok_bind, h.fields]
            cases writtenFields fuel depth false r.2 <;> rfl

end ReadsSorted

/-- **Whatever the fuel**, values, items and fields are read as they are written, sorted. -/
theorem readsSorted (fuel : Nat) : ReadsSorted fuel := by
  induction fuel with
  | zero => exact ⟨fun _ _ => rfl, fun _ _ _ => rfl, fun _ _ _ => rfl⟩
  | succ fuel ih => exact ⟨ih.value_succ, ih.items_succ, ih.fields_succ⟩

/-- **A text is read as what is written** in it, sorted. -/
theorem read_eq_written (text : String) : read text = (written text).map sorted := by
  rw [read, written, (readsSorted _).value]
  cases writtenFrom (2 * text.length + 2) depthLimit text.toList with
  | error e => rfl
  | ok r =>
    simp only [map_ok, ok_bind]
    cases finish r.2 <;> rfl

/-! ## The last field of a key -/

/-- The fields that stay: of those with one key, the last one. -/
def lastFields (fields : List (String × Json)) : List (String × Json) :=
  fields.pwFilter fun f g => f.1 ≠ g.1

/-- The fields that give way to a later one with their key. -/
def hiddenFields : List (String × Json) → List (String × Json)
  | [] => []
  | f :: rest => if f.1 ∈ rest.map Prod.fst then f :: hiddenFields rest else hiddenFields rest

theorem lastFields_eq_self {fields : List (String × Json)} :
    lastFields fields = fields ↔ (fields.map Prod.fst).Nodup := by
  rw [lastFields, List.pwFilter_eq_self, List.Nodup, List.pairwise_map]

theorem nodup_lastFields (fields : List (String × Json)) :
    ((lastFields fields).map Prod.fst).Nodup :=
  lastFields_eq_self.mp List.pwFilter_idem

theorem mem_of_mem_lastFields {fields : List (String × Json)} {f : String × Json}
    (h : f ∈ lastFields fields) : f ∈ fields := (List.pwFilter_sublist _).subset h

theorem mem_keys_lastFields {key : String} {fields : List (String × Json)} :
    key ∈ (lastFields fields).map Prod.fst ↔ key ∈ fields.map Prod.fst := by
  have hall : (∀ f ∈ lastFields fields, key ≠ f.1) ↔ ∀ f ∈ fields, key ≠ f.1 :=
    List.forall_mem_pwFilter (fun {_ g _} hne => (hne.ne_or_ne g.1).imp_right Ne.symm)
      (key, .null) fields
  rw [← not_iff_not]
  simpa only [List.mem_map, not_exists, not_and, ne_comm] using hall

theorem lastFields_cons_of_mem {f : String × Json} {fields : List (String × Json)}
    (h : f.1 ∈ fields.map Prod.fst) : lastFields (f :: fields) = lastFields fields := by
  obtain ⟨g, hg, heq⟩ := List.mem_map.mp (mem_keys_lastFields.mpr h)
  exact List.pwFilter_cons_of_neg fun hall => hall g hg heq.symm

theorem lastFields_cons_of_notMem {f : String × Json} {fields : List (String × Json)}
    (h : f.1 ∉ fields.map Prod.fst) : lastFields (f :: fields) = f :: lastFields fields :=
  List.pwFilter_cons_of_pos fun _ hg heq =>
    h (mem_keys_lastFields.mp (heq ▸ List.mem_map_of_mem hg))

/-- **The last field with a key** is the one that sorting keeps. -/
theorem field?_lastFields (key : String) (fields : List (String × Json)) :
    field? key (lastFields fields) = field? key fields.reverse := by
  induction fields with
  | nil => rfl
  | cons f fields ih =>
    obtain ⟨k, v⟩ := f
    rw [List.reverse_cons, field?_append, ← ih, field?_cons]
    by_cases hlater : k ∈ fields.map Prod.fst
    · rw [lastFields_cons_of_mem hlater]
      split
      · next hkey =>
        have hstays := mt field?_eq_none.mp (not_not_intro (mem_keys_lastFields.mpr hlater))
        exact (Option.or_of_isSome (hkey ▸ Option.isSome_iff_ne_none.mpr hstays)).symm
      · exact Option.or_none.symm
    · rw [lastFields_cons_of_notMem hlater, field?_cons]
      split
      · next hkey =>
        rw [hkey, field?_eq_none.mpr (mt mem_keys_lastFields.mp hlater), Option.none_or]
      · exact Option.or_none.symm

theorem lastFields_append_hiddenFields (fields : List (String × Json)) :
    (lastFields fields ++ hiddenFields fields).Perm fields := by
  induction fields with
  | nil => exact .nil
  | cons f fields ih =>
    rw [hiddenFields]
    split
    · next hlater =>
      rw [lastFields_cons_of_mem hlater]
      exact List.perm_middle.trans (ih.cons f)
    · next hlater =>
      rw [lastFields_cons_of_notMem hlater]
      exact ih.cons f

theorem hiddenFields_eq_nil {fields : List (String × Json)}
    (h : (fields.map Prod.fst).Nodup) : hiddenFields fields = [] := by
  have hperm := lastFields_append_hiddenFields fields
  rw [lastFields_eq_self.mpr h] at hperm
  have hlen := hperm.length_eq
  rw [List.length_append] at hlen
  exact List.length_eq_zero_iff.mp (by omega)

theorem field?_sorted (key : String) (fields : List (String × Json)) :
    field? key (sortFields (sortedFields fields)) =
      (field? key (lastFields fields)).map sorted := by
  rw [field?_sortFields, sortedFields_eq_map, ← List.map_reverse, field?_map, field?_lastFields]

theorem forall_key_of_sorted {fields : List (String × Json)} {p : String → Prop}
    (h : ∀ f ∈ sortFields (sortedFields fields), p f.1) : ∀ f ∈ fields, p f.1 := by
  intro f hf
  have hread : field? f.1 (sortFields (sortedFields fields)) ≠ none := by
    rw [field?_sorted, field?_lastFields, Ne, Option.map_eq_none_iff, field?_eq_none, not_not,
      List.map_reverse]
    exact List.mem_reverse.mpr (List.mem_map_of_mem hf)
  obtain ⟨value, hvalue⟩ := Option.ne_none_iff_exists'.mp hread
  exact h (f.1, value) (mem_of_field? hvalue)

end Methodology.Json
