import Mathlib.Data.List.Nodup
import Methodology.Proofs.Vocabulary.Consistent
import Methodology.Proofs.Vocabulary.Insertion

/-!
# Look-up

What is looked up in a vocabulary that is reached is what it holds, and what is found is found again
behind every insertion.

* `IsLookup`: look-up by a key that at most one item has; `isLookup_find?`: where no two items have
  the same key.
* `Vocabulary.AnswersFromContents`: what look-up answers in a vocabulary.
* `Vocabulary.Extends`: a vocabulary whose parts begin with those of another;
  `Vocabulary.extends_attempt`: **the step**, `Vocabulary.extends_attempts`: a run of insertions.
* `Vocabulary.FindsAgain`: what is found in one vocabulary is found in another.
* **`Vocabulary.Session.lookup_run`**: look-up after every run of calls.
-/

namespace Methodology

open Text

/-- **Look-up by a key.** An item is found exactly if it is there and has the key, and at most one
item has it. -/
def IsLookup {α κ : Type} [DecidableEq κ] (items : List α) (key : α → κ) (find : κ → Option α) :
    Prop :=
  ∀ k, (∀ a, find k = some a ↔ a ∈ items ∧ key a = k) ∧ items.countP (fun a => key a = k) ≤ 1

/-- **Where no two items have the same key** the first item with a key is the only one. -/
theorem isLookup_find? {α κ : Type} [DecidableEq κ] {items : List α} {key : α → κ}
    (hdistinct : (items.map key).Nodup) :
    IsLookup items key fun k => items.find? fun a => key a = k := by
  have hfound : ∀ {k a}, items.find? (fun a => key a = k) = some a → a ∈ items ∧ key a = k :=
    fun h => ⟨List.mem_of_find?_eq_some h, by simpa using List.find?_some h⟩
  intro k
  refine ⟨fun a => ⟨hfound, ?_⟩, ?_⟩
  · rintro ⟨ha, rfl⟩
    obtain ⟨b, hb⟩ : ∃ b, items.find? (fun b => key b = key a) = some b := by
      rw [← Option.isSome_iff_exists, List.find?_isSome]
      exact ⟨a, ha, decide_eq_true rfl⟩
    obtain ⟨hmem, hkey⟩ := hfound hb
    exact hb.trans (congrArg some (List.inj_on_of_nodup_map hdistinct hmem ha hkey))
  · rw [List.countP_eq_length_filter]
    by_cases h : ∃ a ∈ items, key a = k
    · obtain ⟨a, ha, rfl⟩ := h
      rw [filter_of_nodup hdistinct ha]
      exact Nat.le_refl 1
    · have hnone : items.filter (fun a => key a = k) = [] :=
        List.filter_eq_nil_iff.mpr fun a ha hk => h ⟨a, ha, of_decide_eq_true hk⟩
      rw [hnone]
      exact Nat.zero_le 1

namespace Vocabulary

/-! ## One vocabulary -/

/-- **What look-up answers**: the item with a key, and the categories of a name in their order. A
flag and its text are two names, and a text with a blank at an end names nothing. -/
structure AnswersFromContents (v : Vocabulary) : Prop where
  modifier : IsLookup v.modifiers Modifier.symbol v.modifier?
  action : IsLookup v.actions Action.name v.action?
  category : IsLookup v.categories Category.uuid v.category?
  script : IsLookup v.scripts Script.uuid v.script?
  named_sublist : ∀ name, (v.categoriesNamed name).Sublist v.categories
  mem_named : ∀ name c, c ∈ v.categoriesNamed name ↔ c ∈ v.categories ∧ c.name = name
  flag_or_text : ∀ b, ∀ c ∈ v.categoriesNamed (.flag b),
    c ∉ v.categoriesNamed (.text (Term.flag b).display)
  blank : ∀ text : String, ¬ IsBare text.toList →
    v.action? text = none ∧ v.categoriesNamed (.text text) = []

theorem mem_categoriesNamed {v : Vocabulary} {name : Term} {c : Category} :
    c ∈ v.categoriesNamed name ↔ c ∈ v.categories ∧ c.name = name := by
  rw [categoriesNamed, List.mem_filter, decide_eq_true_iff]

theorem Consistent.answersFromContents {v : Vocabulary} (h : v.Consistent) :
    AnswersFromContents v where
  modifier := isLookup_find? h.symbols
  action := isLookup_find? h.names
  category := isLookup_find? h.categoryUuids
  script := isLookup_find? h.scriptUuids
  named_sublist _ := List.filter_sublist
  mem_named _ _ := mem_categoriesNamed
  flag_or_text b c hflag htext := by
    have hname := (mem_categoriesNamed.mp hflag).2.symm.trans (mem_categoriesNamed.mp htext).2
    cases hname
  blank text hblank := by
    -- all names that are held are trimmed
    rw [← isTrimmed_iff] at hblank
    constructor
    · rw [action?, List.find?_eq_none]
      intro a ha hname
      exact hblank (of_decide_eq_true hname ▸ (h.actions a ha).name)
    · refine List.eq_nil_iff_forall_not_mem.mpr fun c hc => ?_
      obtain ⟨hc, hname⟩ := mem_categoriesNamed.mp hc
      have htrimmed := (h.categories c hc).name
      rw [hname] at htrimmed
      exact hblank htrimmed

/-! ## Insertions -/

/-- A vocabulary whose parts begin with those of another. -/
structure Extends (v w : Vocabulary) : Prop where
  history : v.history <+: w.history
  modifiers : v.modifiers <+: w.modifiers
  categories : v.categories <+: w.categories
  actions : v.actions <+: w.actions
  scripts : v.scripts <+: w.scripts

theorem Extends.refl (v : Vocabulary) : Extends v v :=
  ⟨List.prefix_rfl, List.prefix_rfl, List.prefix_rfl, List.prefix_rfl, List.prefix_rfl⟩

theorem Extends.trans {u v w : Vocabulary} (h : Extends u v) (h' : Extends v w) : Extends u w where
  history := h.history.trans h'.history
  modifiers := h.modifiers.trans h'.modifiers
  categories := h.categories.trans h'.categories
  actions := h.actions.trans h'.actions
  scripts := h.scripts.trans h'.scripts

theorem extends_append (v : Vocabulary) (i : Item) : Extends v (v.append i) := by
  cases i with
  | stamp s => exact { Extends.refl v with history := List.prefix_append _ _ }
  | modifier m => exact { Extends.refl v with modifiers := List.prefix_append _ _ }
  | category c => exact { Extends.refl v with categories := List.prefix_append _ _ }
  | action a => exact { Extends.refl v with actions := List.prefix_append _ _ }
  | script s => exact { Extends.refl v with scripts := List.prefix_append _ _ }

/-- **One insertion**, accepted or refused. -/
theorem extends_attempt (v : Vocabulary) (i : Item) : Extends v (v.attempt i) := by
  cases h : i.repeats? (v.contents i.part) with
  | some d =>
    rw [attempt_eq_of_repeats h]
    exact Extends.refl v
  | none =>
    rw [attempt_eq_append h]
    exact extends_append v i

theorem extends_attempts (v : Vocabulary) (items : List Item) :
    Extends v (items.foldl attempt v) := by
  induction items generalizing v with
  | nil => exact Extends.refl v
  | cons i items ih => exact (extends_attempt v i).trans (ih (v.attempt i))

/-- **What is found in one vocabulary is found in another**, and more categories of a name only
behind those that are found. -/
structure FindsAgain (v w : Vocabulary) : Prop where
  modifier : ∀ k m, v.modifier? k = some m → w.modifier? k = some m
  action : ∀ k a, v.action? k = some a → w.action? k = some a
  category : ∀ k c, v.category? k = some c → w.category? k = some c
  script : ∀ k s, v.script? k = some s → w.script? k = some s
  named : ∀ name, v.categoriesNamed name <+: w.categoriesNamed name

theorem Extends.findsAgain {v w : Vocabulary} (h : Extends v w) : FindsAgain v w where
  modifier _ _ := h.modifiers.find?_eq_some
  action _ _ := h.actions.find?_eq_some
  category _ _ := h.categories.find?_eq_some
  script _ _ := h.scripts.find?_eq_some
  named _ := h.categories.filter _

/-! ## Runs -/

/-- **Look-up after every run of calls** answers from what the vocabulary holds, and whatever items
are put in then, it finds again what it found. -/
theorem Session.lookup_run {calls : List Call} (made : ∀ c ∈ calls, c.IsMade) (fresh : Fresh) :
    let v := ((⟨empty, fresh⟩ : Session).run calls).vocabulary
    AnswersFromContents v ∧ ∀ items : List Item, FindsAgain v (items.foldl attempt v) := by
  intro v
  have hconsistent : v.Consistent := (run_sound sound_empty made).consistent
  exact ⟨hconsistent.answersFromContents, fun items => (extends_attempts v items).findsAgain⟩

/-- The flag `true` and its text name one category each, and a refused copy of the first hides
nothing. -/
theorem Session.lookup_run_cornerItems :
    let calls := cornerItems.map Call.add
    let v := ((⟨empty, ⟨Supply.constant Uuid.nil, Supply.constant ⟨0, 0⟩⟩⟩ : Session).run
      calls).vocabulary
    let copy : Category := ⟨Uuid.nil, .text "true", none⟩
    (∀ c ∈ calls, c.IsMade) ∧ AnswersFromContents v ∧ v.category? Uuid.nil ≠ some copy ∧
      ∀ c, v.category? Uuid.nil = some c →
        (v.attempt (.category copy)).category? Uuid.nil = some c := by
  intro calls v copy
  have made : ∀ c ∈ calls, c.IsMade := List.forall_mem_map.mpr (made_cornerItems trivial)
  have hlookup := lookup_run made ⟨Supply.constant Uuid.nil, Supply.constant ⟨0, 0⟩⟩
  exact ⟨made, hlookup.1, by decide +kernel, (hlookup.2 [.category copy]).category Uuid.nil⟩

end Vocabulary

end Methodology
