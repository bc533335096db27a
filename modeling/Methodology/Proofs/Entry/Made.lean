import Methodology.Model
import Methodology.Proofs.Entry.WellFormed
import Methodology.Proofs.Instant.AsWritten

/-!
# Entries that are made

The operations make an entry from its parts, change an entry, or read one, and nothing else makes
entries.

* `Model.IsRead`: the drafts that the three readers give.
* `Modifier.Made`, `Category.Made`, `Action.Made`, `Script.Made`, `Stamp.Made`: the entries that any
  sequence of operations makes. Instants from outside, which a caller gives or a clock shows, are
  taken from a set that is a parameter.
* `Fresh.ShowsOnly`: fresh values whose clock shows instants of that set.
* **`Modifier.Made.isWellFormed`** and its like: what is made is well-formed.
* **`Stamp.Made.outside_updated`**: the instant of a stamp; `Stamp.Made.isProper`,
  `Stamp.Made.isHeld`: if those from outside are proper, or held, so is that of every stamp.
-/

namespace Methodology

open Result

/-- A draft that is read from a data value, from its text or from YAML. -/
def Model.IsRead (α : Type) [Model α] (d : Model.Draft α) : Prop :=
  (∃ v, readValue α v = .ok d) ∨ (∃ s, readText α s = .ok d) ∨ ∃ s, readYaml α s = some d

/-- **What is read is built from a proper record.** -/
theorem Model.IsRead.exists_record {α : Type} [Entry α] {d : Entry.Draft α}
    (h : Model.IsRead α d) : ∃ record : Filled (Entry.schema α).fields,
      Filled.IsProper (Entry.schema α).fields record ∧ Entry.build record = .ok d := by
  rcases h with ⟨v, h⟩ | ⟨s, h⟩ | ⟨s, h⟩
  · obtain ⟨record, hrecord, h⟩ := bind_eq_ok.mp h
    exact ⟨record, Record.isProper_of_ofValue hrecord, mapError_eq_ok.mp h⟩
  · obtain ⟨⟨draft, rest⟩, h, hrest⟩ := bind_eq_ok.mp h
    obtain ⟨_, -, heq⟩ := bind_eq_ok.mp hrest
    cases heq
    obtain ⟨⟨record, _⟩, hrecord, h⟩ := bind_eq_ok.mp h
    simp only at h
    split at h
    · next hbuild =>
      cases h
      exact ⟨record, Record.isProper_of_fromText hrecord, hbuild⟩
    · cases h
  · obtain ⟨record, hrecord, h⟩ := Option.bind_eq_some_iff.mp h
    refine ⟨record, Record.isProper_of_fromYaml hrecord, ?_⟩
    cases hbuild : Entry.build record with
    | error e =>
      rw [hbuild] at h
      cases h
    | ok draft =>
      rw [hbuild] at h
      cases h
      rfl

/-- A modifier that operations make. -/
inductive Modifier.Made : Modifier → Prop
  | make {name title : String} {m : Modifier} (h : Modifier.make name title = .ok m) : Made m
  | apply {m m' : Modifier} {c : Modifier.Change} (made : Made m) (h : m.apply c = .ok m') : Made m'
  | read {d : Modifier} (h : Model.IsRead Modifier d) : Made d

/-- A category that operations make. -/
inductive Category.Made : Category → Prop
  | mint (ids : Supply Uuid) (name : Term) (description : Option String) :
    Made (Category.mint ids name description).1
  | apply {c : Category} (made : Made c) (change : Category.Change) : Made (c.apply change)
  | read {d : Category.Draft} (h : Model.IsRead Category d) (fresh : Fresh) :
    Made (d.settle fresh).1

/-- An action that operations make. -/
inductive Action.Made : Action → Prop
  | make {name title description word : String} {a : Action}
    (h : Action.make name title description word = .ok a) : Made a
  | unique (name title description : String) : Made (Action.unique name title description)
  | apply {a a' : Action} {c : Action.Change} (made : Made a) (h : a.apply c = .ok a') : Made a'
  | read {d : Action} (h : Model.IsRead Action d) : Made d

/-- A script that operations make. -/
inductive Script.Made : Script → Prop
  | mint (ids : Supply Uuid) (text : String) : Made (Script.mint ids text).1
  | apply {s : Script} (made : Made s) (change : Script.Change) : Made (s.apply change)
  | read {d : Script.Draft} (h : Model.IsRead Script d) (fresh : Fresh) : Made (d.settle fresh).1

/-- A stamp that operations make, the instants from outside being those of a set. -/
inductive Stamp.Made (outside : Instant → Prop) : Stamp → Prop
  | make {now : Instant} {updated : Option Instant} (name description : Option String)
    (hnow : outside now) (hupdated : ∀ t, updated = some t → outside t) :
    Made outside (Stamp.make now name description updated)
  | name {s : Stamp} (made : Made outside s) (name : Option String) :
    Made outside (s.apply (.name name))
  | description {s : Stamp} (made : Made outside s) (description : Option String) :
    Made outside (s.apply (.description description))
  | updated {s : Stamp} {t : Instant} (made : Made outside s) (h : outside t) :
    Made outside (s.apply (.updated t))
  | read {d : Stamp.Draft} {fresh : Fresh} (h : Model.IsRead Stamp d)
    (hclock : outside fresh.clock.next.1) : Made outside (d.settle fresh).1

/-! ## Instants that a clock shows -/

/-- Fresh values whose clock shows nothing but instants of a set. -/
def Fresh.ShowsOnly (outside : Instant → Prop) (fresh : Fresh) : Prop :=
  ∀ k, outside (fresh.clock k)

theorem Fresh.ShowsOnly.uuid {outside : Instant → Prop} {fresh : Fresh}
    (h : fresh.ShowsOnly outside) (u : Option Uuid) : (fresh.uuid u).2.ShowsOnly outside := by
  cases u <;> exact h

theorem Fresh.ShowsOnly.instant {outside : Instant → Prop} {fresh : Fresh}
    (h : fresh.ShowsOnly outside) (t : Option Instant) : (fresh.instant t).2.ShowsOnly outside := by
  cases t with
  | none => exact fun k => h (k + 1)
  | some t => exact h

/-! ## Well-formed entries -/

theorem Modifier.Made.isWellFormed {m : Modifier} (h : Modifier.Made m) : m.IsWellFormed := by
  cases h with
  | make h => exact isWellFormed_make h
  | apply _ h => exact isWellFormed_apply h
  | read h =>
    obtain ⟨record, -, hbuild⟩ := h.exists_record
    exact isWellFormed_of_ofRecord hbuild

theorem Category.Made.isWellFormed {c : Category} (h : Category.Made c) : c.IsWellFormed := by
  induction h with
  | mint ids name description => exact isWellFormed_mint ids name description
  | apply _ change ih => exact isWellFormed_apply ih change
  | read h fresh =>
    obtain ⟨record, -, hbuild⟩ := h.exists_record
    exact isWellFormed_of_ofRecord hbuild fresh

theorem Action.Made.isWellFormed {a : Action} (h : Action.Made a) : a.IsWellFormed := by
  cases h with
  | make h => exact isWellFormed_make h
  | unique name title description => exact isWellFormed_ofParts name title description .unique
  | apply _ h => exact isWellFormed_apply h
  | read h =>
    obtain ⟨record, -, hbuild⟩ := h.exists_record
    exact isWellFormed_of_ofRecord hbuild

theorem Stamp.Made.isWellFormed {outside : Instant → Prop} {s : Stamp}
    (h : Stamp.Made outside s) : s.IsWellFormed := by
  induction h with
  | make name description _ _ => exact isWellFormed_make _ name description _
  | name _ name ih => exact isWellFormed_apply ih (.name name)
  | description _ description ih => exact isWellFormed_apply ih (.description description)
  | updated _ _ ih => exact isWellFormed_apply ih (.updated _)
  | read h _ =>
    obtain ⟨record, -, hbuild⟩ := h.exists_record
    exact isWellFormed_of_ofRecord hbuild _

/-- **The instant of a stamp that is made** is one of those from outside, if these are all that can be
read and more. -/
theorem Stamp.Made.outside_updated {outside : Instant → Prop} {s : Stamp}
    (h : Stamp.Made outside s) (hread : ∀ t, Instant.IsProper t → outside t) :
    outside s.updated := by
  induction h with
  | @make now updated name description hnow hupdated =>
    cases updated with
    | none => exact hnow
    | some t => exact hupdated t rfl
  | name _ _ ih => exact ih
  | description _ _ ih => exact ih
  | updated _ h _ => exact h
  | @read d fresh h hclock =>
    obtain ⟨record, hrecord, hbuild⟩ := h.exists_record
    have hproper := isProper_of_ofRecord hbuild hrecord
    cases hupdated : d.updated with
    | none =>
      simp only [Stamp.Draft.settle, hupdated, Fresh.instant]
      exact hclock
    | some t =>
      simp only [Stamp.Draft.settle, hupdated, Fresh.instant]
      exact hread t (hproper t hupdated)

theorem Stamp.Made.isProper {s : Stamp} (h : Stamp.Made Instant.IsProper s) :
    s.updated.IsProper := h.outside_updated fun _ h => h

theorem Stamp.Made.isHeld {s : Stamp} (h : Stamp.Made Instant.IsHeld s) : s.updated.IsHeld :=
  h.outside_updated fun _ h => h.isHeld

end Methodology
