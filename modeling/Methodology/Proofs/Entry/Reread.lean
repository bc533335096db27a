import Methodology.Proofs.Entry.TextRoundTrip
import Methodology.Proofs.Entry.YamlRoundTrip
import Methodology.Proofs.Instant.Reread

/-!
# Stamps are read again

A stamp is read again from what is written of it exactly if its year is plain, whether a data value,
its text on one line or its YAML text is written.

* `Model.ReadsBackText`: the text of a model on one line gives the model, and nothing is drawn for
  it.
* **`Stamp.readsBack_iff`**, **`Stamp.readsBackText_iff`**, **`Stamp.readsBackYaml_iff`**: stamps.
* **`Instant.readsBackText_iff`**, **`Instant.readsBackYaml_iff`**: instants on their own.
-/

namespace Methodology

open Json Result Yaml

/-- A model whose text on one line is read as a draft that settles to the model, with nothing
drawn. -/
def Model.ReadsBackText {α : Type} [Model α] (a : α) : Prop :=
  ∃ d, Model.readText α (Model.toCompact a) = .ok d ∧ ∀ fresh, Model.settle d fresh = (a, fresh)

/-! ## Instants -/

namespace Instant

theorem ofValue_toText_of_not {t : Instant} (h : ¬ t.HasPlainYear) :
    Instant.ofValue (.string t.toText) =
      .error (.field (.instant .updated t.toText Malformed.invalid.message)) := by
  rw [Instant.ofValue, textOfValue, ok_bind, read_toText_eq_error h]
  rfl

theorem readsBackText_iff {t : Instant} (h : t.IsProper) :
    Model.ReadsBackText t ↔ t.HasPlainYear := by
  have hread : ∀ d : Instant, Model.readText Instant (Model.toCompact t) = .ok d ↔
      Instant.ofValue (.string t.toText) = .ok d := fun _ =>
    Model.readText_leaf (v := .text t.toText) rfl .compact
  constructor
  · rintro ⟨d, hd, -⟩
    by_contra hyear
    have hvalue := (hread d).mp hd
    rw [ofValue_toText_of_not hyear] at hvalue
    cases hvalue
  · exact fun hyear => ⟨t, (hread t).mpr (ofValue_toText h hyear), fun _ => rfl⟩

theorem checkedFromNode_of_not {t : Instant} (h : ¬ t.HasPlainYear) (d : Document) (jumps : Nat) :
    checkedFromNode read d jumps (Leaf.node (.text t.toText)) = none := by
  simp [checkedFromNode, textFromNode_text, read_toText_eq_error h]

theorem readsBackYaml_iff {t : Instant} (h : t.IsProper) :
    Model.ReadsBackYaml t ↔ t.HasPlainYear := by
  refine ⟨fun ⟨d, hd, _⟩ => ?_, readsBackYaml h⟩
  by_contra hyear
  obtain ⟨doc, hdoc, hroot⟩ := documentOf_leaf (.text t.toText)
  change fromRoot (checkedFromNode Instant.read) (print (Leaf.toJson (.text t.toText))) = some d
    at hd
  simp [fromRoot, hdoc, hroot, checkedFromNode_of_not hyear] at hd

end Instant

/-! ## Stamps -/

theorem optionalFromNode_of_none {α : Type} {read : Reading α} {v : Leaf} (d : Document)
    (jumps : Nat) (h : read jumps v.node = none) :
    optionalFromNode read d jumps v.node = none := by
  have hfollow : d.follow jumps v.node = some (v.node, jumps) := rfl
  rw [optionalFromNode, hfollow]
  simp only [Option.bind_eq_bind, Option.bind_some, h, Option.map_none]
  rw [Leaf.node]
  simp only [isNullScalar_leaf, Option.bind_some, Bool.false_eq_true, if_false]

namespace Stamp

/-- **A stamp is read again** from its data value exactly if its year is plain. -/
theorem readsBack_iff {s : Stamp} (h : s.IsWellFormed) (hproper : s.updated.IsProper) :
    Entry.ReadsBack s ↔ s.updated.HasPlainYear := by
  refine ⟨fun ⟨d, hd, _⟩ => ?_, readsBack h hproper⟩
  by_contra hyear
  change Entry.ofValue Stamp s.toJson.sorted = .ok d at hd
  rw [s.ofValue_sorted_toJson, Instant.ofValue_toText_of_not hyear] at hd
  cases hd

theorem readsBackText_iff {s : Stamp} (h : s.IsWellFormed) (hproper : s.updated.IsProper) :
    Model.ReadsBackText s ↔ s.updated.HasPlainYear := by
  have htext : Model.ReadsBackText s ↔ Entry.ReadsBack s := Entry.readsBackFrom_text_iff .compact
  exact htext.trans (readsBack_iff h hproper)

theorem readsBackYaml_iff {s : Stamp} (h : s.IsWellFormed) (hproper : s.updated.IsProper) :
    Model.ReadsBackYaml s ↔ s.updated.HasPlainYear := by
  refine ⟨fun ⟨draft, hdraft, _⟩ => ?_, readsBackYaml h hproper⟩
  by_contra hyear
  have hnone : ∀ d jumps, Record.rowFromEntries d Stamp.schema (none, none, none, ()) jumps
      s.leaves.entries = none := by
    intro d jumps
    cases hn : s.name <;> cases hd : s.description <;>
      simp [Stamp.leaves, textLeaf, hn, hd, Leaves.entries, Record.rowFromEntries, Row.put,
        textFromNode_key, fromNode_optional, Field.Kind.fromNode,
        optionalFromNode_leaf d _ (textFromNode_text d _ _),
        optionalFromNode_of_none d _ (Instant.checkedFromNode_of_not hyear d _), Except.map]
  obtain ⟨d, hd⟩ := Entry.exists_readYaml s
  rw [show Record.rowFromEntries d (Entry.schema Stamp) (Row.empty (Entry.schema Stamp).fields)
    d.jumps (Entry.Written.leaves s).entries = none from hnone d d.jumps] at hd
  cases hd.symm.trans hdraft

end Stamp

end Methodology
