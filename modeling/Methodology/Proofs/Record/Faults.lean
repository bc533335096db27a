import Mathlib.Data.List.Nodup
import Methodology.Proofs.Record.Grammar

/-!
# What is at fault in a record

A field is at fault for the type of its value, or for a text that does not spell what the field
holds. A record with a single field at fault fails as that field does, in whatever order its fields
stand.

* `Field.HasType`, `Field.Kind.IsSpelled`: the values of the type that a field takes, and the texts
  among them that are read.
* `Field.ofValue_of_not_hasType`, `Field.ofValue_of_not_isSpelled`: **how a field fails**.
* `Record.ofFields_eq_error`: **a record with a single field at fault** fails as the field does.
* `Record.exists_ofFields`: a record without one is read.
-/

namespace Methodology

open Json Result

namespace Field

/-- The values of the type that a kind of field takes. -/
def Kind.HasType : Kind → Json → Prop
  | term, v => (∃ b, v = .bool b) ∨ ∃ s, v = .string s
  | _, v => ∃ s, v = .string s

/-- **The values of the type that a field takes**; an optional one also takes null. -/
def HasType (f : Field) (v : Json) : Prop := f.kind.HasType v ∨ f.optional = true ∧ v = .null

/-- The texts that spell what a kind of field holds. -/
def Kind.IsSpelled : Kind → String → Prop
  | uuid, s => ∃ u, Uuid.read s = .ok u
  | instant, s => ∃ t, Instant.read s = .ok t
  | _, _ => True

/-- How messages call what a kind of field takes. -/
def Kind.noun : Kind → String
  | term => Term.noun
  | _ => "a string"

/-! ## Fields -/

theorem Kind.ofValue_of_not_hasType {k : Kind} {v : Json} (h : ¬ k.HasType v) :
    k.ofValue v = .error (.wrongType (.ofJson v) k.noun) := by
  cases k with
  | term =>
    cases v with
    | bool b => exact absurd (.inl ⟨b, rfl⟩) h
    | string text => exact absurd (.inr ⟨text, rfl⟩) h
    | _ => rfl
  | _ =>
    cases v with
    | string text => exact absurd ⟨text, rfl⟩ h
    | _ => rfl

theorem Kind.exists_ofValue {k : Kind} {v : Json} (htype : k.HasType v)
    (hspelled : ∀ text, v = .string text → k.IsSpelled text) : ∃ c, k.ofValue v = .ok c := by
  simp only [k.ofValue_eq_ok_iff]
  cases k with
  | text =>
    obtain ⟨text, rfl⟩ := htype
    exact ⟨_, .text text⟩
  | term =>
    rcases htype with ⟨b, rfl⟩ | ⟨text, rfl⟩
    · exact ⟨_, .flag b⟩
    · exact ⟨_, .word text⟩
  | uuid =>
    obtain ⟨text, rfl⟩ := htype
    obtain ⟨u, hu⟩ := hspelled text rfl
    exact ⟨u, .uuid hu⟩
  | instant =>
    obtain ⟨text, rfl⟩ := htype
    obtain ⟨t, ht⟩ := hspelled text rfl
    exact ⟨t, .instant ht⟩

theorem Kind.ofValue_of_not_isSpelled {k : Kind} {text : String} (h : ¬ k.IsSpelled text) :
    ∃ e, k.ofValue (.string text) = .error (.field e) ∧
      (k = .uuid ∧ e.field = .uuid ∨ k = .instant ∧ e.field = .updated) := by
  cases k with
  | text => exact absurd trivial h
  | term => exact absurd trivial h
  | uuid =>
    change ∃ e, (Uuid.read text).mapError Misread.field = .error (Misread.field e) ∧ _
    cases hread : Uuid.read text with
    | ok u => exact absurd ⟨u, hread⟩ h
    | error e =>
      obtain ⟨_, -, rfl⟩ := mapError_eq_error.mp hread
      exact ⟨_, rfl, .inl ⟨rfl, rfl⟩⟩
  | instant =>
    change ∃ e, (Instant.read text).mapError Misread.field = .error (Misread.field e) ∧ _
    cases hread : Instant.read text with
    | ok t => exact absurd ⟨t, hread⟩ h
    | error e =>
      obtain ⟨_, -, rfl⟩ := mapError_eq_error.mp hread
      exact ⟨_, rfl, .inr ⟨rfl, rfl⟩⟩

/-- A field fails as its kind does, except for null where it may stand. -/
theorem ofValue_eq_error_iff {f : Field} {v : Json} {m : Misread} : f.ofValue v = .error m ↔
    ¬ (f.optional = true ∧ v = .null) ∧ f.kind.ofValue v = .error m := by
  obtain ⟨name, k, optional⟩ := f
  cases optional with
  | false => exact ⟨fun h => ⟨fun hnull => (nomatch hnull.1), h⟩, fun h => h.2⟩
  | true =>
    cases v with
    | null => exact ⟨fun h => (nomatch h), fun h => absurd ⟨rfl, rfl⟩ h.1⟩
    | _ => exact map_eq_error.trans (and_iff_right fun hnull => nomatch hnull.2).symm

theorem ofValue_of_not_hasType {f : Field} {v : Json} (h : ¬ f.HasType v) :
    f.ofValue v = .error (.wrongType (.ofJson v) f.kind.noun) := by
  rw [HasType, not_or] at h
  exact ofValue_eq_error_iff.mpr ⟨h.2, Kind.ofValue_of_not_hasType h.1⟩

theorem ofValue_of_not_isSpelled {f : Field} {text : String} (h : ¬ f.kind.IsSpelled text) :
    ∃ e, f.ofValue (.string text) = .error (.field e) ∧
      (f.kind = .uuid ∧ e.field = .uuid ∨ f.kind = .instant ∧ e.field = .updated) := by
  obtain ⟨e, he, hfield⟩ := Kind.ofValue_of_not_isSpelled h
  exact ⟨e, ofValue_eq_error_iff.mpr ⟨fun hnull => (nomatch hnull.2), he⟩, hfield⟩

theorem exists_ofValue {f : Field} {v : Json} (htype : f.HasType v)
    (hspelled : ∀ text, v = .string text → f.kind.IsSpelled text) :
    ∃ slot, f.ofValue v = .ok slot := by
  cases hread : f.ofValue v with
  | ok slot => exact ⟨slot, rfl⟩
  | error m =>
    obtain ⟨hnull, hkind⟩ := ofValue_eq_error_iff.mp hread
    obtain ⟨c, hc⟩ := Kind.exists_ofValue (htype.resolve_right hnull) hspelled
    rw [hkind] at hc
    cases hc

end Field

/-! ## Records -/

theorem Row.put_eq_error (duplicate : Field → Misread) {name : String} {value : Json} {m : Misread}
    {fs : List Field} {row : Row fs} (hfree : Row.Holds fs row name none)
    (hread : ∀ f ∈ fs, f.name = name → f.ofValue value = .error m) :
    Row.put duplicate (fun f => (f.ofValue value).map fun v => (v, ())) name fs row =
      some (.error m) := by
  induction fs with
  | nil => cases hfree
  | cons f fs ih =>
    obtain ⟨slot, row⟩ := row
    rw [Row.Holds] at hfree
    simp only [Row.put]
    by_cases hname : f.name = name
    · rw [if_pos hname] at hfree ⊢
      obtain rfl : slot = none := Option.map_eq_none_iff.mp hfree
      have hf := hread f List.mem_cons_self hname
      simp only [hf]
      rfl
    · rw [if_neg hname] at hfree ⊢
      rw [ih hfree fun g hg => hread g (List.mem_cons_of_mem _ hg)]
      rfl

namespace Record

variable {s : Schema}

theorem rowOfFields_append (row : Row s.fields) (before after : List (String × Json)) :
    rowOfFields s row (before ++ after) =
      rowOfFields s row before >>= fun row => rowOfFields s row after := by
  induction before generalizing row with
  | nil => rfl
  | cons f before ih =>
    obtain ⟨key, value⟩ := f
    rw [List.cons_append, rowOfFields, rowOfFields]
    split
    · rfl
    · rfl
    · exact ih _

/-- **A record with a single field at fault** fails as the field does. -/
theorem ofFields_eq_error {fields : List (String × Json)} {key : String} {value : Json}
    {m : Misread} (hdistinct : (fields.map Prod.fst).Nodup)
    (hdeclared : ∀ f ∈ fields, f.1 ∈ s.names) (hmem : (key, value) ∈ fields)
    (hfault : ∀ f ∈ s.fields, f.name = key → f.ofValue value = .error m)
    (hothers : ∀ f ∈ fields, f.1 ≠ key → ∀ g ∈ s.fields, g.name = f.1 →
      ∃ slot, g.ofValue f.2 = .ok slot) : ofFields s fields = .error m := by
  -- whatever stands in front of the field is read
  obtain ⟨before, after, rfl⟩ := List.append_of_mem hmem
  rw [List.map_append, List.nodup_append'] at hdistinct
  obtain ⟨hbefore, -, hdisjoint⟩ := hdistinct
  have hnew : key ∉ before.map Prod.fst := fun h => hdisjoint h List.mem_cons_self
  obtain ⟨row, hrow⟩ : ∃ row, rowOfFields s (Row.empty s.fields) before = .ok row := by
    refine exists_rowOfFields hbefore (List.forall_mem_map.mpr fun f hf => ?_) fun f hf => ?_
    · exact Row.holds_empty (hdeclared f (List.mem_append_left _ hf))
    · exact hothers f (List.mem_append_left _ hf) fun h => hnew (h ▸ List.mem_map_of_mem hf)
  have hfree : Row.Holds s.fields row key none := by
    have hheld := holds_of_rowOfFields (Row.holds_empty (hdeclared _ hmem)) hrow
    rwa [field?_eq_none.mpr hnew] at hheld
  have hput := Row.put_eq_error (fun f => .duplicateField f.name) hfree hfault
  have herror : rowOfFields s row ((key, value) :: after) = .error m := by
    rw [rowOfFields, hput]
  rw [ofFields, rowOfFields_append, hrow, ok_bind, herror]
  rfl

end Record

theorem Filled.exists_fits {written : String → Option Json} {fs : List Field}
    (h : ∀ f ∈ fs, ∃ slot, f.Fits (written f.name) slot) :
    ∃ record, Filled.Fits written fs record := by
  induction fs with
  | nil => exact ⟨(), trivial⟩
  | cons f fs ih =>
    obtain ⟨⟨slot, hslot⟩, hrest⟩ := List.forall_mem_cons.mp h
    obtain ⟨rest, hrest⟩ := ih hrest
    exact ⟨(slot, rest), hslot, hrest⟩

/-- **A record without a field at fault** is read. -/
theorem Record.exists_ofFields {s : Schema} (hnodup : s.names.Nodup)
    {fields : List (String × Json)} (hform : s.Admits (.object fields))
    (hread : ∀ f ∈ s.fields, ∀ v, field? f.name fields = some v →
      ∃ slot, f.ofValue v = .ok slot) : ∃ record, ofFields s fields = .ok record ∧
        Filled.Fits (fun name => field? name fields) s.fields record := by
  cases hform with
  | mapping hdistinct hdeclared hrequired =>
    have hslots : ∀ f ∈ s.fields, ∃ slot, f.Fits (field? f.name fields) slot := by
      intro f hf
      simp only [← f.isHeld_iff_fits]
      cases hheld : field? f.name fields with
      | some v => exact hread f hf v hheld
      | none =>
        obtain ⟨name, k, optional⟩ := f
        cases optional with
        | true => exact ⟨none, rfl⟩
        | false => exact absurd (hrequired _ hf rfl) (field?_eq_none.mp hheld)
    obtain ⟨record, hfits⟩ := @Filled.exists_fits (fun name => field? name fields) s.fields hslots
    exact ⟨record, (ofFields_eq_ok_iff hnodup).mpr ⟨hdistinct, hdeclared, hfits⟩, hfits⟩

end Methodology
