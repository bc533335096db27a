import Methodology.Proofs.Entry.Reread
import Methodology.Proofs.Vocabulary.Accepted
import Methodology.Proofs.Vocabulary.Consistent
import Methodology.Proofs.Vocabulary.YamlRoundTrip

/-!
# What is read is read again

An instant, a stamp or a document that is read, written and read again comes back exactly if no year
in it has a sign.

* `valueOf_render`: the data value of the text of a vocabulary, in both formats.
* `hasPlainYear_of_parse_render`: a document that is read again has plain years.
* **`parse_render_iff`**: a document that is read.
* **`reread_iff`**: instants, stamps and documents that are read.
* `not_reread_lastYear`: a text whose offset carries its instant over the last plain year.
-/

namespace Methodology.Vocabulary

open Json Result

/-! ## Documents -/

theorem valueOf_render (v : Vocabulary) (format : Format) :
    valueOf format (v.render format) = .ok v.toJson.sorted := by
  cases format with
  | yaml => exact v.valueOf_render_yaml
  | json => exact v.valueOf_render_json

theorem itemsOf_history (v : Vocabulary) : itemsOf (field? Section.history.name v.sortedSections) =
    v.history.map fun s => s.toJson.sorted := by
  have hfield : field? Section.history.name v.sortedSections = if v.history = [] then none
      else some (.array (v.history.map fun s => s.toJson.sorted)) := by
    simp [field?_sortedSections, field?_sectionField, Section.name]
  rw [hfield]
  split
  · next h =>
    rw [h]
    rfl
  · rfl

theorem exists_isReadFrom {α : Type} [Entry α] {values : List Json} {items : List α}
    (h : List.Forall₂ IsReadFrom values items) {value : Json} (hvalue : value ∈ values) :
    ∃ a : α, IsReadFrom value a := by
  induction h with
  | nil => cases hvalue
  | @cons x a _ _ hread _ ih =>
    rcases List.mem_cons.mp hvalue with rfl | hvalue
    · exact ⟨a, hread⟩
    · exact ih hvalue

/-- **A document that is read again** has plain years. -/
theorem hasPlainYear_of_parse_render {v w : Vocabulary} {format : Format} {fresh : Fresh}
    (h : (parse format (v.render format) fresh).1 = .ok w) :
    ∀ s ∈ v.history, s.updated.HasPlainYear := by
  rw [parse, v.valueOf_render, sorted_toJson] at h
  have hread := (isReadOf_of_validate h).2.history
  rw [itemsOf_history] at hread
  intro s hs
  obtain ⟨_, d, _, hd, -⟩ := exists_isReadFrom hread (List.mem_map_of_mem hs)
  by_contra hyear
  rw [s.ofValue_sorted_toJson, Instant.ofValue_toText_of_not hyear] at hd
  cases hd

/-- **A document that is read**, written and read again comes back exactly if all its years are
plain. -/
theorem parse_render_iff {fresh : Fresh} (hfresh : fresh.ShowsOnly Instant.IsProper)
    {format : Format} {text : String} {v : Vocabulary} (h : (parse format text fresh).1 = .ok v)
    (format' : Format) (fresh' : Fresh) :
    (parse format' (v.render format') fresh').1 = .ok v ↔
      ∀ s ∈ v.history, s.updated.HasPlainYear := by
  refine ⟨hasPlainYear_of_parse_render, fun hyear => ?_⟩
  rw [parse, v.valueOf_render]
  exact congrArg Prod.fst (validate_sorted_toJson ((sound_parse hfresh h).readsBack hyear) fresh')

/-! ## All of it -/

/-- **What is read is read again exactly if its years are plain.** If the clock shows nothing but
proper instants:

* the text of an instant that is read is read as the same instant, if the year is plain, and refused
  if it is not; the year is then the one before or the one behind the plain years;
* a stamp that is read comes back from its data value, its text and its YAML text, if the year of
  its instant is plain, and from none of them if it is not;
* a document that is read comes back from its text, in either format, exactly if all its stamps have
  plain years. -/
theorem reread_iff {fresh : Fresh} (hfresh : fresh.ShowsOnly Instant.IsProper) :
    (∀ s t, Instant.read s = .ok t →
      (Instant.read t.toText = .ok t ↔ t.HasPlainYear) ∧
      (¬ t.HasPlainYear → (t.date.year = -1 ∨ t.date.year = 10000) ∧ Instant.read t.toText =
        .error (.instant .updated t.toText Instant.Malformed.invalid.message))) ∧
    (∀ d : Stamp.Draft, Model.IsRead Stamp d →
      (Entry.ReadsBack (d.settle fresh).1 ↔ (d.settle fresh).1.updated.HasPlainYear) ∧
      (Model.ReadsBackText (d.settle fresh).1 ↔ (d.settle fresh).1.updated.HasPlainYear) ∧
      (Model.ReadsBackYaml (d.settle fresh).1 ↔ (d.settle fresh).1.updated.HasPlainYear)) ∧
    ∀ format text v, (parse format text fresh).1 = .ok v → ∀ format' fresh',
      (parse format' (v.render format') fresh').1 = .ok v ↔
        ∀ s ∈ v.history, s.updated.HasPlainYear := by
  refine ⟨fun s t h => ⟨Instant.read_toText_iff (Instant.isProper_of_read h), fun hyear => ?_⟩,
    fun d h => ?_, fun _ _ _ h => parse_render_iff hfresh h⟩
  · have hbounds := Instant.year_of_read h
    rw [Instant.HasPlainYear] at hyear
    exact ⟨by omega, Instant.read_toText_eq_error hyear⟩
  · have made : Stamp.Made Instant.IsProper (d.settle fresh).1 := .read h (hfresh 0)
    exact ⟨Stamp.readsBack_iff made.isWellFormed made.isProper,
      Stamp.readsBackText_iff made.isWellFormed made.isProper,
      Stamp.readsBackYaml_iff made.isWellFormed made.isProper⟩

/-- A run whose clock shows the start of 1970 reads an instant of the last year that is read again,
and one that an offset carries into the next year. -/
theorem reread_iff_lastYear :
    let fresh : Fresh := ⟨Supply.constant Uuid.nil, Supply.constant ⟨0, 0⟩⟩
    fresh.ShowsOnly Instant.IsProper ∧
    (Instant.read "9999-12-31T23:59:60.5Z" = .ok ⟨253402300799, 1500000000⟩ ∧
      Instant.read (Instant.toText ⟨253402300799, 1500000000⟩) =
        .ok ⟨253402300799, 1500000000⟩) ∧
    Instant.read "9999-12-31T23:59:59-01:00" = .ok ⟨253402304399, 0⟩ ∧
      Instant.read (Instant.toText ⟨253402304399, 0⟩) ≠ .ok ⟨253402304399, 0⟩ := by
  intro fresh
  have hfresh : fresh.ShowsOnly Instant.IsProper :=
    fun _ => (by decide : Instant.IsProper ⟨0, 0⟩)
  have hlast : Instant.read "9999-12-31T23:59:60.5Z" = .ok ⟨253402300799, 1500000000⟩ := by
    decide +kernel
  have hover : Instant.read "9999-12-31T23:59:59-01:00" = .ok ⟨253402304399, 0⟩ := by
    decide +kernel
  obtain ⟨hinstants, -⟩ := reread_iff hfresh
  refine ⟨hfresh, ⟨hlast, (hinstants _ _ hlast).1.mpr (by decide +kernel)⟩, hover, fun h => ?_⟩
  exact absurd ((hinstants _ _ hover).1.mp h) (by decide +kernel)

/-- **The text of an instant that is read may be refused**: an offset carries the instant over the
last plain year, and the year is written with a sign. -/
theorem not_reread_lastYear :
    Instant.read "9999-12-31T23:59:59-01:00" = .ok ⟨253402304399, 0⟩ ∧
    Instant.toText ⟨253402304399, 0⟩ = "+10000-01-01T00:59:59Z" ∧
    Instant.read "+10000-01-01T00:59:59Z" =
      .error (.instant .updated "+10000-01-01T00:59:59Z" "input contains invalid characters") := by
  decide +kernel

end Methodology.Vocabulary
