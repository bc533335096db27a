import Methodology.Proofs.Entry.Made
import Methodology.Proofs.Vocabulary.Member

/-!
# Vocabularies that are reached

* `Vocabulary.Item.Made`: an item that operations make.
* `Vocabulary.attempt`, `Vocabulary.ofItems`: items put in one after the other, those that are
  refused being passed over.
* `Vocabulary.Sound`: every item is made, and no two of a part have the same identity.
* **`Vocabulary.Sound.add`**: an item that is taken keeps a vocabulary sound.
* **`Vocabulary.sound_ofItems`**: a vocabulary made of items is sound.
* `Vocabulary.cornerItems`: items of many kinds.
-/

namespace Methodology.Vocabulary

/-- An item that operations make. -/
def Item.Made (outside : Instant → Prop) : Item → Prop
  | .stamp s => Stamp.Made outside s
  | .modifier m => Modifier.Made m
  | .category c => Category.Made c
  | .action a => Action.Made a
  | .script s => Script.Made s

/-- The vocabulary with one more item, or as it was if the item is refused. -/
def attempt (v : Vocabulary) (i : Item) : Vocabulary :=
  match v.add i with
  | .ok w => w
  | .error _ => v

/-- **The vocabulary of a sequence of items**, put into an empty one. -/
def ofItems (items : List Item) : Vocabulary := items.foldl attempt empty

/-- A vocabulary of items that are made, of which no two of a part have the same identity. -/
structure Sound (outside : Instant → Prop) (v : Vocabulary) : Prop where
  history : ∀ s ∈ v.history, Stamp.Made outside s
  modifiers : ∀ m ∈ v.modifiers, Modifier.Made m
  categories : ∀ c ∈ v.categories, Category.Made c
  actions : ∀ a ∈ v.actions, Action.Made a
  scripts : ∀ s ∈ v.scripts, Script.Made s
  symbols : (Member.identities Modifier v).Nodup
  categoryUuids : (Member.identities Category v).Nodup
  names : (Member.identities Action v).Nodup
  scriptUuids : (Member.identities Script v).Nodup

variable {outside : Instant → Prop}

theorem sound_empty : Sound outside empty where
  history _ h := nomatch h
  modifiers _ h := nomatch h
  categories _ h := nomatch h
  actions _ h := nomatch h
  scripts _ h := nomatch h
  symbols := List.nodup_nil
  categoryUuids := List.nodup_nil
  names := List.nodup_nil
  scriptUuids := List.nodup_nil

theorem insert_spec (α : Type) [Entry α] [Member α] {v w : Vocabulary} {a : α}
    (h : Member.insert v a = .ok w) : w = Member.withItems v (Member.items v ++ [a]) ∧
      ((Member.identities α v).Nodup → (Member.identities α w).Nodup) := by
  rcases Member.insert_cases v a with ⟨hok, hnew⟩ | ⟨k, -, -, herror⟩
  · have hw : w = Member.withItems v (Member.items v ++ [a]) :=
      Except.ok.inj (h.symm.trans hok)
    refine ⟨hw, fun hnodup => ?_⟩
    rw [hw, Member.identities_withItems, List.filterMap_append, List.nodup_append]
    refine ⟨hnodup, ?_, fun k hk l hl => ?_⟩
    · cases hk : Member.identity? a <;> simp [hk]
    · obtain ⟨b, hb, hl⟩ := List.mem_filterMap.mp hl
      rw [List.mem_singleton.mp hb] at hl
      exact fun heq => hnew l hl (heq ▸ hk)
  · rw [herror] at h
    cases h

theorem forall_mem_concat {α : Type} {P : α → Prop} {xs : List α} {a : α} (h : ∀ x ∈ xs, P x)
    (ha : P a) : ∀ x ∈ xs ++ [a], P x := by
  intro x hx
  rcases List.mem_append.mp hx with hx | hx
  · exact h x hx
  · exact List.mem_singleton.mp hx ▸ ha

theorem Sound.record {v : Vocabulary} (h : Sound outside v) {s : Stamp}
    (made : Stamp.Made outside s) : Sound outside (v.record s) :=
  { h with history := forall_mem_concat h.history made }

theorem Sound.addModifier {v w : Vocabulary} (h : Sound outside v) {m : Modifier}
    (made : Modifier.Made m) (hw : v.addModifier m = .ok w) : Sound outside w := by
  obtain ⟨rfl, hnodup⟩ := insert_spec Modifier hw
  exact { h with modifiers := forall_mem_concat h.modifiers made, symbols := hnodup h.symbols }

theorem Sound.addCategory {v w : Vocabulary} (h : Sound outside v) {c : Category}
    (made : Category.Made c) (hw : v.addCategory c = .ok w) : Sound outside w := by
  obtain ⟨rfl, hnodup⟩ := insert_spec Category hw
  exact { h with
    categories := forall_mem_concat h.categories made
    categoryUuids := hnodup h.categoryUuids }

theorem Sound.addAction {v w : Vocabulary} (h : Sound outside v) {a : Action}
    (made : Action.Made a) (hw : v.addAction a = .ok w) : Sound outside w := by
  obtain ⟨rfl, hnodup⟩ := insert_spec Action hw
  exact { h with actions := forall_mem_concat h.actions made, names := hnodup h.names }

theorem Sound.addScript {v w : Vocabulary} (h : Sound outside v) {s : Script}
    (made : Script.Made s) (hw : v.addScript s = .ok w) : Sound outside w := by
  obtain ⟨rfl, hnodup⟩ := insert_spec Script hw
  exact { h with
    scripts := forall_mem_concat h.scripts made
    scriptUuids := hnodup h.scriptUuids }

/-- **An item that is taken** keeps a vocabulary sound. -/
theorem Sound.add {v w : Vocabulary} (h : Sound outside v) {i : Item} (made : i.Made outside)
    (hw : v.add i = .ok w) : Sound outside w := by
  cases i with
  | stamp s =>
    cases hw
    exact h.record made
  | modifier m => exact h.addModifier made hw
  | category c => exact h.addCategory made hw
  | action a => exact h.addAction made hw
  | script s => exact h.addScript made hw

theorem Sound.attempt {v : Vocabulary} (h : Sound outside v) {i : Item} (made : i.Made outside) :
    Sound outside (v.attempt i) := by
  rw [Vocabulary.attempt]
  split
  · next hw => exact h.add made hw
  · exact h

theorem sound_ofItems {items : List Item} (made : ∀ i ∈ items, i.Made outside) :
    Sound outside (ofItems items) := by
  have hfrom : ∀ v, Sound outside v → Sound outside (items.foldl Vocabulary.attempt v) := by
    intro v h
    induction items generalizing v with
    | nil => exact h
    | cons i items ih =>
      exact ih (fun j hj => made j (List.mem_cons_of_mem i hj)) _
        (h.attempt (made i List.mem_cons_self))
  exact hfrom empty sound_empty

/-! ## Items of many kinds -/

/-- Items whose texts try the corners of a notation: texts that look like other values, empty ones,
line breaks of all sorts, controls, blanks at the ends of a script, and a leap second. -/
def cornerItems : List Item :=
  [.stamp (Stamp.make ⟨1483228799, 1000000500⟩ (some "") (some " a\u2028b ") none),
    .modifier ⟨"é", "null"⟩,
    .category (Category.mint (Supply.constant Uuid.nil) (.flag true) none).1,
    .category (Category.mint (Supply.constant ⟨1⟩) (.text "true") (some "- 'it': \x22#\x22")).1,
    .action (Action.unique "~" "0x1F" "1e3"),
    .script (Script.mint (Supply.constant Uuid.nil) "  a\t\x01\n\n b 😀\n\n").1,
    .script (Script.mint (Supply.constant ⟨1⟩) "\n a\n  b\n").1]

theorem made_cornerItems (h : outside ⟨1483228799, 1000000500⟩) :
    ∀ i ∈ cornerItems, i.Made outside := by
  have hmodifier : Modifier.IsWellFormed ⟨"é", "null"⟩ := ⟨rfl, rfl, by decide +kernel⟩
  simp only [cornerItems, List.forall_mem_cons]
  exact ⟨.make _ _ h (fun _ h => nomatch h), .make hmodifier.make_eq, .mint _ _ _, .mint _ _ _,
    .unique _ _ _, .mint _ _, .mint _ _, fun _ h => nomatch h⟩

end Methodology.Vocabulary
