import Methodology.Proofs.Entry.YamlRoundTrip
import Methodology.Proofs.Vocabulary.RoundTrip

/-!
# Vocabularies are read back from YAML

* `tree`: a vocabulary as a mapping of lists of mappings of flags and texts.
* `toFields_tree`: its data value is that of the vocabulary.
* `isPrinted_tree`, `isDistinct_tree`: it is one of those that are read back.
* **`valueOf_render_yaml`**: the data value of the text of a vocabulary.
* **`readsBack_yaml`**: documents made of items, every entry and every part of one are read back.
* `not_readsBack_yaml`: a leap second that is read back as another instant.
-/

namespace Methodology.Vocabulary

open Yaml

/-! ## Sections -/

section

variable {α : Type} [Entry α] [Entry.Written α]

/-- A section under its name; an empty one is left out. -/
def sectionTree (s : Section) (items : List α) : Tree :=
  if items.isEmpty then [] else [(s.name, items.map Entry.Written.leaves)]

theorem sectionTree_cons (s : Section) (a : α) (items : List α) :
    sectionTree s (a :: items) = [(s.name, (a :: items).map Entry.Written.leaves)] := rfl

theorem toFields_sectionTree (s : Section) (items : List α) :
    (sectionTree s items).toFields = sectionField s Entry.toJson items := by
  have hitems : Tree.toItems (items.map Entry.Written.leaves) = items.map Entry.toJson := by
    rw [Tree.toItems, List.map_map]
    exact List.map_congr_left fun a _ => (Entry.Written.toJson_eq a).symm
  cases items with
  | nil => rfl
  | cons a items =>
    rw [sectionField_cons, ← hitems]
    rfl

theorem isPrinted_sectionTree (s : Section) (items : List α) : (sectionTree s items).IsPrinted := by
  have hkey : ∀ s : Section, s.name ∈ knownKeys := by
    intro s
    cases s <;> decide
  cases items with
  | nil => exact ⟨by simp [sectionTree], by simp [sectionTree], by simp [sectionTree]⟩
  | cons a items =>
    rw [sectionTree_cons]
    refine ⟨?_, ?_, ?_⟩ <;> rw [List.forall_mem_singleton]
    · exact isKey_of_mem _ (hkey s)
    · exact List.cons_ne_nil _ _
    · intro fs hfs
      obtain ⟨b, -, rfl⟩ := List.mem_map.mp hfs
      exact ⟨Entry.Written.ne_nil b, Entry.hasKeys_leaves b⟩

theorem nodup_sectionTree (s : Section) (items : List α) :
    ∀ t ∈ sectionTree s items, ∀ fs ∈ t.2, (fs.map Prod.fst).Nodup := by
  cases items with
  | nil => exact List.forall_mem_nil _
  | cons a items =>
    rw [sectionTree_cons, List.forall_mem_singleton]
    intro fs hfs
    obtain ⟨b, -, rfl⟩ := List.mem_map.mp hfs
    exact Entry.nodup_leaves b

theorem sublist_sectionTree (s : Section) (items : List α) :
    ((sectionTree s items).map Prod.fst).Sublist [s.name] := by
  cases items with
  | nil => exact List.nil_sublist _
  | cons a items => exact List.Sublist.refl _

end

/-! ## Documents -/

/-- A vocabulary as a mapping of lists of mappings. -/
def tree (v : Vocabulary) : Tree :=
  sectionTree .history v.history ++ sectionTree .modifiers v.modifiers ++
    sectionTree .categories v.categories ++ sectionTree .actions v.actions ++
    sectionTree .scripts v.scripts

theorem toFields_append (t u : Tree) : Tree.toFields (t ++ u) = t.toFields ++ u.toFields :=
  List.map_append

theorem toFields_tree (v : Vocabulary) : Json.object v.tree.toFields = v.toJson := by
  simp only [tree, toFields_append, toFields_sectionTree]
  rfl

theorem isPrinted_append {t u : Tree} (ht : t.IsPrinted) (hu : u.IsPrinted) :
    Tree.IsPrinted (t ++ u) where
  keys := List.forall_mem_append.mpr ⟨ht.keys, hu.keys⟩
  items := List.forall_mem_append.mpr ⟨ht.items, hu.items⟩
  fields := List.forall_mem_append.mpr ⟨ht.fields, hu.fields⟩

theorem isPrinted_tree (v : Vocabulary) : v.tree.IsPrinted :=
  isPrinted_append (isPrinted_append (isPrinted_append (isPrinted_append
    (isPrinted_sectionTree _ _) (isPrinted_sectionTree _ _)) (isPrinted_sectionTree _ _))
    (isPrinted_sectionTree _ _)) (isPrinted_sectionTree _ _)

theorem isDistinct_tree (v : Vocabulary) : v.tree.IsDistinct := by
  have hnames : (v.tree.map Prod.fst).Sublist Section.names := by
    simp only [tree, List.map_append]
    exact ((((sublist_sectionTree .history _).append (sublist_sectionTree .modifiers _)).append
      (sublist_sectionTree .categories _)).append (sublist_sectionTree .actions _)).append
      (sublist_sectionTree .scripts _)
  refine ⟨List.Nodup.sublist hnames (by decide), ?_⟩
  simp only [tree, List.forall_mem_append]
  exact ⟨⟨⟨⟨nodup_sectionTree _ _, nodup_sectionTree _ _⟩, nodup_sectionTree _ _⟩,
    nodup_sectionTree _ _⟩, nodup_sectionTree _ _⟩

/-- **The data value of the text of a vocabulary** has the fields in the order of their keys. -/
theorem valueOf_render_yaml (v : Vocabulary) :
    valueOf .yaml (v.render .yaml) = .ok v.toJson.sorted := by
  rw [valueOf, render, ← toFields_tree, read_tree v.isPrinted_tree v.isDistinct_tree]
  simp only [toJson_tree]
  rfl

theorem parse_yaml_asWritten {v : Vocabulary} (h : Sound Instant.IsHeld v)
    (hyear : ∀ s ∈ v.history, s.updated.HasPlainYear) (fresh : Fresh) :
    parse .yaml (v.render .yaml) fresh = (.ok v.asWritten, fresh) := by
  rw [← render_asWritten h.isHeld, parse, valueOf_render_yaml]
  exact validate_sorted_toJson (h.readsBack_asWritten hyear) fresh

/-- **What operations make is read back from its YAML text.** The instants from outside are those that
a date-time holds. In a document made of items, every section comes back in its order and every item
field by field, with the instants that the text names; an entry or a part of one comes back from its
own text. No uuid and no reading of the clock is drawn. What holds instants comes back as it was
exactly if none of them is a leap second inside of a minute. -/
theorem readsBack_yaml (fresh : Fresh) :
    (∀ items : List Item, (∀ i ∈ items, i.Made Instant.IsHeld) →
      (∀ s ∈ (ofItems items).history, s.updated.HasPlainYear) →
      parse .yaml ((ofItems items).render .yaml) fresh = (.ok (ofItems items).asWritten, fresh) ∧
      (parse .yaml ((ofItems items).render .yaml) fresh = (.ok (ofItems items), fresh) ↔
        ∀ s ∈ (ofItems items).history, s.updated.IsProper)) ∧
    (∀ s : Stamp, Stamp.Made Instant.IsHeld s → s.updated.HasPlainYear →
      Model.ReadsBackYamlFrom (Model.toYaml s) s.asWritten ∧
      (Model.ReadsBackYaml s ↔ s.updated.IsProper)) ∧
    (∀ m : Modifier, Modifier.Made m → Model.ReadsBackYaml m) ∧
    (∀ c : Category, Category.Made c → Model.ReadsBackYaml c) ∧
    (∀ a : Action, Action.Made a → Model.ReadsBackYaml a) ∧
    (∀ s : Script, Script.Made s → Model.ReadsBackYaml s) ∧
    (∀ t : Term, Model.ReadsBackYaml t) ∧
    (∀ u : Uuid, Model.ReadsBackYaml u) ∧
    (∀ t : Instant, t.IsHeld → t.HasPlainYear →
      Model.ReadsBackYamlFrom (Model.toYaml t) t.asWritten ∧
      (Model.ReadsBackYaml t ↔ t.IsProper)) ∧
    ∀ shape : Shape, Model.ReadsBackYaml shape := by
  refine ⟨fun items made hyear => ?_, fun s made hyear => ?_, fun m made => ?_,
    fun c made => ?_, fun a made => ?_, fun s _ => s.readsBackYaml, Term.readsBackYaml,
    Uuid.readsBackYaml, fun t h hyear => ?_, Shape.readsBackYaml⟩
  · have sound := sound_ofItems made
    have hread := parse_yaml_asWritten sound hyear fresh
    exact ⟨hread, eq_iff_of_asWritten sound.isHeld hread⟩
  · have hread := Stamp.readsBackYamlFrom_asWritten made.isWellFormed made.isHeld hyear
    exact ⟨hread, (Model.readsBackYaml_iff_eq hread).trans (Stamp.asWritten_eq_self_iff made.isHeld)⟩
  · exact Modifier.readsBackYaml made.isWellFormed
  · exact Category.readsBackYaml made.isWellFormed
  · exact Action.readsBackYaml made.isWellFormed
  · have hread := Instant.readsBackYamlFrom_asWritten h hyear
    exact ⟨hread, (Model.readsBackYaml_iff_eq hread).trans (Instant.asWritten_eq_self_iff h)⟩

/-- Items of many kinds come back as they were, and so does a stamp with blanks; a leap second in the
first second of a minute comes back as the next second. -/
theorem readsBack_yaml_cornerItems :
    let blanks := Stamp.make ⟨1483228799, 1000000500⟩ (some "") (some " a\u2028b ") none
    let inside := Stamp.make ⟨0, 1500000000⟩ (some "a") none none
    let fresh : Fresh := ⟨Supply.constant Uuid.nil, Supply.constant ⟨0, 0⟩⟩
    (∀ i ∈ cornerItems, i.Made Instant.IsHeld) ∧
    (∀ s ∈ (ofItems cornerItems).history, s.updated.HasPlainYear) ∧
    parse .yaml ((ofItems cornerItems).render .yaml) fresh = (.ok (ofItems cornerItems), fresh) ∧
    Model.ReadsBackYaml blanks ∧
    Model.ReadsBackYamlFrom (Model.toYaml inside) (⟨some "a", none, ⟨1, 500000000⟩⟩ : Stamp) ∧
    Model.ReadsBackYaml (⟨"é", "null"⟩ : Modifier) := by
  intro blanks inside fresh
  have hnone : ∀ t, (none : Option Instant) = some t → t.IsHeld := fun _ h => nomatch h
  have made := made_cornerItems (show Instant.IsHeld ⟨1483228799, 1000000500⟩ by decide)
  have hyear : ∀ s ∈ (ofItems cornerItems).history, s.updated.HasPlainYear := by decide +kernel
  have hblanks : Stamp.Made Instant.IsHeld blanks := .make _ _ (by decide) hnone
  have hinside : Stamp.Made Instant.IsHeld inside := .make _ _ (by decide) hnone
  have hnamed : inside.asWritten = ⟨some "a", none, ⟨1, 500000000⟩⟩ := by decide +kernel
  obtain ⟨hdocument, hstamps, hmodifiers, -⟩ := readsBack_yaml fresh
  exact ⟨made, hyear, (hdocument cornerItems made hyear).2.mpr (by decide +kernel),
    (hstamps blanks hblanks (by decide +kernel)).2.mpr (by decide),
    hnamed ▸ (hstamps inside hinside (by decide +kernel)).1,
    hmodifiers _ (made (.modifier ⟨"é", "null"⟩) (by simp [cornerItems]))⟩

/-- **A leap second inside of a minute** is read back as another instant: on its own, in a stamp and
in a document, of which another stamp is the latest then. -/
theorem not_readsBack_yaml :
    let t : Instant := ⟨0, 1500000000⟩
    let a := Stamp.make t (some "a") none none
    let b := Stamp.make ⟨1, 200000000⟩ (some "b") none none
    let v := ofItems [.stamp a, .stamp b]
    let back : Vocabulary := ⟨[⟨some "a", none, ⟨1, 500000000⟩⟩, b], [], [], [], []⟩
    (t.IsHeld ∧ Item.Made Instant.IsHeld (.stamp a) ∧ Item.Made Instant.IsHeld (.stamp b)) ∧
    (∀ s ∈ v.history, s.updated.HasPlainYear) ∧
    v.render .yaml = "history:\n- name: a\n  updated: 1970-01-01T00:00:01.500Z\n" ++
      "- name: b\n  updated: 1970-01-01T00:00:01.200Z\n" ∧
    (∀ fresh, parse .yaml (v.render .yaml) fresh = (.ok back, fresh)) ∧
    back ≠ v ∧ v.latest? = some b ∧ back.latest? ≠ some b ∧
    ¬ Model.ReadsBackYaml a ∧ ¬ Model.ReadsBackYaml t := by
  intro t a b v back
  have ha : Stamp.Made Instant.IsHeld a := .make _ _ (by decide) fun _ h => nomatch h
  have hb : Stamp.Made Instant.IsHeld b := .make _ _ (by decide) fun _ h => nomatch h
  have made : ∀ i ∈ [Item.stamp a, Item.stamp b], i.Made Instant.IsHeld :=
    List.forall_mem_cons.mpr ⟨ha, List.forall_mem_singleton.mpr hb⟩
  have hyear : ∀ s ∈ v.history, s.updated.HasPlainYear := by decide +kernel
  have hnamed : v.asWritten = back := by decide +kernel
  have hstamp := Stamp.readsBackYamlFrom_asWritten ha.isWellFormed ha.isHeld (by decide +kernel)
  have hinstant := Instant.readsBackYamlFrom_asWritten (t := t) (by decide) (by decide +kernel)
  refine ⟨⟨by decide, ha, hb⟩, hyear, by decide +kernel, fun fresh => ?_, by decide +kernel,
    by decide +kernel, by decide +kernel, fun h => ?_, fun h => ?_⟩
  · exact hnamed ▸ parse_yaml_asWritten (sound_ofItems made) hyear fresh
  · exact absurd ((Model.readsBackYaml_iff_eq hstamp).mp h) (by decide +kernel)
  · exact absurd ((Model.readsBackYaml_iff_eq hinstant).mp h) (by decide)

end Methodology.Vocabulary
