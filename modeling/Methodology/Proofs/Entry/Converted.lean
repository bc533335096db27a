import Methodology.Proofs.Entry.Leaves
import Methodology.Proofs.Record.Converted
import Methodology.Vocabulary.Format

/-!
# Entries are read from YAML as from their data values

An entry is read from the nodes of a YAML text, or from the data value that the text is converted to.

* `Model.readConverted`: the second way.
* `ReadsConverted`: **how the two ways are related.** Of the simple texts the second way takes those
  that are typed and that the first way takes, and both give the same draft.
* **`readsConverted_entries`**: every entry is read so.
* `not_readsAlike`: texts that only one way takes, or that each takes for a different draft.
-/

namespace Methodology

open Result Yaml

/-- A draft from the data value that a YAML text is converted to. -/
def Model.readConverted (α : Type) [Model α] (text : String) : Option (Model.Draft α) :=
  (Vocabulary.valueOf .yaml text).toOption.bind fun v => (Model.readValue α v).toOption

/-- **How an entry is read from a simple text by way of its data value**: a draft is read exactly if
the text is typed and the draft is read from its nodes. -/
def ReadsConverted (α : Type) [Entry α] (text : String) : Prop :=
  Record.IsSimpleText (Entry.schema α) text → ∀ draft, Model.readConverted α text = some draft ↔
    Record.IsTypedText (Entry.schema α) text ∧ Model.readYaml α text = some draft

theorem valueOf_yaml_eq_ok_iff {text : String} {j : Json} : Vocabulary.valueOf .yaml text = .ok j ↔
    ∃ w, Yaml.read text = some w ∧ w.toJson = .ok j := by
  rw [Vocabulary.valueOf]
  cases Yaml.read text with
  | none => exact ⟨fun h => (nomatch h), fun ⟨_, h, _⟩ => (nomatch h)⟩
  | some w =>
    refine mapError_eq_ok.trans ⟨fun h => ⟨w, rfl, h⟩, ?_⟩
    rintro ⟨w', heq, h⟩
    cases heq
    exact h

theorem Entry.readsConverted {α : Type} [Entry α] (hnodup : (Entry.schema α).names.Nodup)
    (text : String) : ReadsConverted α text := by
  intro hsimple draft
  have hrecord := @Record.fromYaml_iff (Entry.schema α) hnodup text hsimple
  constructor
  · intro h
    obtain ⟨j, hj, h⟩ := Option.bind_eq_some_iff.mp h
    obtain ⟨w, hw, hj⟩ := valueOf_yaml_eq_ok_iff.mp (toOption_eq_some.mp hj)
    obtain ⟨record, hr, hbuild⟩ := bind_eq_ok.mp (toOption_eq_some.mp h)
    obtain ⟨hread, htyped⟩ := hrecord.mp ⟨w, j, hw, hj, hr⟩
    refine ⟨htyped, Option.bind_eq_some_iff.mpr ⟨record, hread, ?_⟩⟩
    exact toOption_eq_some.mpr (mapError_eq_ok.mp hbuild)
  · rintro ⟨htyped, h⟩
    obtain ⟨record, hread, hbuild⟩ := Option.bind_eq_some_iff.mp h
    obtain ⟨w, j, hw, hj, hr⟩ := hrecord.mpr ⟨hread, htyped⟩
    have hvalue := toOption_eq_some.mpr (valueOf_yaml_eq_ok_iff.mpr ⟨w, hw, hj⟩)
    have hbuild : (Entry.build record).mapError Misread.field = .ok draft :=
      mapError_eq_ok.mpr (toOption_eq_some.mp hbuild)
    refine Option.bind_eq_some_iff.mpr ⟨j, hvalue, ?_⟩
    exact toOption_eq_some.mpr (bind_eq_ok.mpr ⟨record, hr, hbuild⟩)

/-- **Every entry is read so** from every text. -/
theorem readsConverted_entries (text : String) :
    ReadsConverted Modifier text ∧ ReadsConverted Category text ∧ ReadsConverted Action text ∧
    ReadsConverted Script text ∧ ReadsConverted Stamp text :=
  ⟨Entry.readsConverted (by decide) text, Entry.readsConverted (by decide) text,
    Entry.readsConverted (by decide) text, Entry.readsConverted (by decide) text,
    Entry.readsConverted (by decide) text⟩

/-! ## Texts that are printed -/

theorem simple_typed_print (s : Schema) {fs : Leaves} (hne : fs ≠ []) (hkeys : fs.HasKeys)
    (htexts : ∀ f ∈ fs, ∃ t, f.2 = .text t) :
    Record.IsSimpleText s (print (.object fs.toFields)) ∧
      Record.IsTypedText s (print (.object fs.toFields)) := by
  obtain ⟨d, hd, hroot⟩ := documentOf_leaves hne hkeys
  have htarget : d.target? d.root = some (.mapping none none fs.entries) := by
    rw [hroot]
    rfl
  have hentries : d.entries = fs.entries := by rw [Document.entries, htarget]
  have hvalue : ∀ e ∈ fs.entries, ∀ tag style text, d.IsScalar e.2 tag style text →
      localTag? tag = none ∧ scalarValue tag style text = some (.string text) := by
    refine List.forall_mem_map.mpr fun f hf => ?_
    rintro tag style text ⟨anchor, hscalar⟩
    obtain ⟨t, ht⟩ := htexts f hf
    cases hscalar
    have hleaf := untaggedValue_leaf f.2
    rw [ht] at hleaf ⊢
    refine ⟨rfl, hleaf.trans ?_⟩
    rw [Leaf.value, Leaf.chars, String.ofList_toList]
  refine ⟨fun d' hd' => ?_, d, hd, fun anchor tag h => ?_, ?_⟩
  · cases hd.symm.trans hd'
    refine ⟨fun anchor tag items h => ?_, fun e he f _ _ _ _ tag style text hscalar => ?_⟩
    · cases htarget.symm.trans h
    · obtain ⟨htag, hstring⟩ := hvalue e (hentries ▸ he) tag style text hscalar
      refine ⟨fun _ => htag, fun _ hnull => ?_⟩
      cases hstring.symm.trans hnull
  · cases htarget.symm.trans h
  · rw [hentries]
    intro e he f _ tag style hkey
    refine ⟨?_, fun tag style text hscalar _ => .inl (hvalue e he tag style text hscalar).2⟩
    obtain ⟨leaf, hleaf, rfl⟩ := List.mem_map.mp he
    obtain ⟨anchor, hkey⟩ := hkey
    simp only [keyNode, Document.target?, Option.some.injEq, Node.scalar.injEq] at hkey
    obtain ⟨-, rfl, rfl, hname⟩ := hkey
    exact ⟨rfl, hname ▸ untaggedValue_key (hkeys leaf hleaf)⟩

/-- A modifier whose name is a plus sign. -/
def mergeText : String := "name: +\ntitle: Merge\n"

theorem readsConverted_entries_mergeText :
    Record.IsSimpleText Modifier.schema mergeText ∧ Record.IsTypedText Modifier.schema mergeText ∧
      Model.readConverted Modifier mergeText = some ⟨"+", "Merge"⟩ := by
  have hread : (show Option Modifier from Model.readYaml Modifier mergeText) =
      some ⟨"+", "Merge"⟩ := by decide +kernel
  let merge : Modifier := ⟨"+", "Merge"⟩
  have hprint : print (.object (Entry.Written.leaves merge).toFields) = mergeText := by decide +kernel
  have htexts : ∀ f ∈ merge.leaves, ∃ t, f.2 = .text t :=
    List.forall_mem_cons.mpr ⟨⟨_, rfl⟩, List.forall_mem_singleton.mpr ⟨_, rfl⟩⟩
  obtain ⟨hsimple, htyped⟩ := simple_typed_print Modifier.schema (Entry.Written.ne_nil merge)
    (Entry.hasKeys_leaves merge) htexts
  rw [hprint] at hsimple htyped
  exact ⟨hsimple, htyped,
    ((readsConverted_entries mergeText).1 hsimple merge).mpr ⟨htyped, hread⟩⟩

/-- **The two ways differ**: a number is coerced to a text, a key counts under a tag, a tag, be it an
exclamation mark alone, hides a name or a null, a list is a data value of an entry, and an empty text
has none. -/
theorem not_readsAlike :
    ((Model.readYaml Modifier "name: 1\ntitle: x\n").isSome ∧
      Model.readConverted Modifier "name: 1\ntitle: x\n" = none) ∧
    ((Model.readYaml Modifier "!a name: +\ntitle: x\n").isSome ∧
      Model.readConverted Modifier "!a name: +\ntitle: x\n" = none) ∧
    (Model.readYaml Category "name: !a Retail\n" = none ∧
      (Model.readConverted Category "name: !a Retail\n").isSome) ∧
    (Model.readYaml Category "name: ! true\n" = none ∧
      (Model.readConverted Category "name: ! true\n").isSome) ∧
    ((Model.readYaml Stamp "name: !a null\n").map Stamp.Draft.name = some (some "null") ∧
      (Model.readConverted Stamp "name: !a null\n").map Stamp.Draft.name = some none) ∧
    (Model.readYaml Modifier "- +\n- Merge\n" = none ∧
      (Model.readConverted Modifier "- +\n- Merge\n").isSome) ∧
    ((Model.readYaml Stamp "").isSome ∧ Model.readConverted Stamp "" = none) := by
  simp only [← Option.not_isSome_iff_eq_none]
  decide +kernel

end Methodology
