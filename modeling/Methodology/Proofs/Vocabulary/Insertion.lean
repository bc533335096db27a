import Mathlib.Data.List.Basic
import Mathlib.Data.List.Induction
import Methodology.Proofs.Vocabulary.Reachable

/-!
# Runs of insertions

Items are put into an empty vocabulary one after the other, whatever their sections. An item is
refused if its identity was tried before in its section, and the attempts that were themselves
refused count as well.

* `Item.part`, `Item.identity?`: the section that takes an item, and its identity there.
* `Vocabulary.contents`, `Vocabulary.append`: the items of a section, and one more item in it.
* `Item.repeats?`: **which identity of earlier attempts an item repeats.**
* `firsts`: the items of a run that repeat no earlier one.
* `outcomes`, `outcomesOf`: what the calls of a run answer, and those to one section.
* `add_eq`: **the step.** One insertion, seen from what its section holds.
* `contents_ofItems`, `add_ofItems`: a run, seen from what was tried.
* **`insertion_run`**: what every run leaves and answers.
-/

namespace Methodology.Vocabulary

/-- The section that takes an item. -/
def Item.part : Item → Section
  | .stamp _ => .history
  | .modifier _ => .modifiers
  | .category _ => .categories
  | .action _ => .actions
  | .script _ => .scripts

/-- What tells an item apart in its section; stamps are not told apart. -/
def Item.identity? : Item → Option Identity
  | .stamp _ => none
  | .modifier m => some (.symbol m.symbol)
  | .category c => some (.uuid c.uuid)
  | .action a => some (.name a.name)
  | .script s => some (.uuid s.uuid)

/-- The stamp that an item is, if it is one. -/
def Item.stamp? : Item → Option Stamp
  | .stamp s => some s
  | _ => none

/-- The items of a section, in their order. -/
def contents (v : Vocabulary) : Section → List Item
  | .history => v.history.map .stamp
  | .modifiers => v.modifiers.map .modifier
  | .categories => v.categories.map .category
  | .actions => v.actions.map .action
  | .scripts => v.scripts.map .script

/-- The vocabulary with an item behind the others of its section, all else being as it was. -/
def append (v : Vocabulary) : Item → Vocabulary
  | .stamp s => { v with history := v.history ++ [s] }
  | .modifier m => { v with modifiers := v.modifiers ++ [m] }
  | .category c => { v with categories := v.categories ++ [c] }
  | .action a => { v with actions := v.actions ++ [a] }
  | .script s => { v with scripts := v.scripts ++ [s] }

/-- The items of a section among others. -/
def inPart (s : Section) (items : List Item) : List Item := items.filter fun i => i.part = s

/-- **The identity that an item repeats** from earlier items of its section, with the section. -/
def Item.repeats? (i : Item) (earlier : List Item) : Option Duplicate :=
  match i.identity? with
  | some k =>
    if k ∈ (inPart i.part earlier).filterMap identity? then some ⟨i.part, k.text⟩ else none
  | none => none

/-- **The items that repeat no earlier item**, in their order. -/
def firsts (items : List Item) : List Item :=
  (List.range items.length).filterMap fun n =>
    items[n]?.filter fun i => (i.repeats? (items.take n)).isNone

/-- **What the calls of a run answer**: each is taken or refused as a duplicate. -/
def outcomes (v : Vocabulary) : List Item → List (Except Duplicate Unit)
  | [] => []
  | i :: items => ((v.add i).map fun _ => ()) :: outcomes (v.attempt i) items

/-- What the calls of a run to one section answer, in their order. -/
def outcomesOf (s : Section) (items : List Item) : List (Except Duplicate Unit) :=
  ((items.zip (outcomes empty items)).filter fun p => p.1.part = s).map Prod.snd

/-! ## One insertion -/

theorem contents_append (v : Vocabulary) (i : Item) (s : Section) :
    (v.append i).contents s = v.contents s ++ inPart s [i] := by
  cases i <;> cases s <;> simp [append, contents, inPart, Item.part]

theorem size_append (v : Vocabulary) (i : Item) : (v.append i).size = v.size + 1 := by
  cases i <;> simp only [append, size, List.length_append, List.length_singleton] <;> omega

theorem inPart_contents (v : Vocabulary) (s : Section) :
    inPart s (v.contents s) = v.contents s := by
  cases s <;> simp [inPart, contents, Item.part]

theorem eq_of_contents_eq {v w : Vocabulary} (h : ∀ s, v.contents s = w.contents s) : v = w := by
  have hinj : ∀ {α : Type} {wrap : α → Item} {xs ys : List α},
      (∀ a b, wrap a = wrap b → a = b) → xs.map wrap = ys.map wrap → xs = ys :=
    fun hwrap h => List.map_injective_iff.mpr (fun a b => hwrap a b) h
  obtain ⟨stamps, modifiers, categories, actions, scripts⟩ := v
  obtain rfl : stamps = w.history := hinj (fun _ _ => Item.stamp.inj) (h .history)
  obtain rfl : modifiers = w.modifiers := hinj (fun _ _ => Item.modifier.inj) (h .modifiers)
  obtain rfl : categories = w.categories := hinj (fun _ _ => Item.category.inj) (h .categories)
  obtain rfl : actions = w.actions := hinj (fun _ _ => Item.action.inj) (h .actions)
  obtain rfl : scripts = w.scripts := hinj (fun _ _ => Item.script.inj) (h .scripts)
  rfl

theorem add_eq_of_member {α : Type} [Entry α] [Member α] {v : Vocabulary} {i : Item} {a : α}
    (hadd : v.add i = Member.insert v a) (hpart : i.part = Member.part α)
    (hidentity : i.identity? = Member.identity? a)
    (hheld : (v.contents i.part).filterMap Item.identity? = Member.identities α v)
    (happend : v.append i = Member.withItems v (Member.items v ++ [a])) :
    v.add i = match i.repeats? (v.contents i.part) with
      | some d => .error d
      | none => .ok (v.append i) := by
  rw [Item.repeats?, inPart_contents, hheld, hidentity, hadd, happend]
  rcases Member.insert_cases v a with ⟨hok, hnew⟩ | ⟨k, hk, hmem, herror⟩
  · rw [hok]
    cases hk : Member.identity? a with
    | none => rfl
    | some k => simp only [if_neg (hnew k hk)]
  · rw [herror, hk]
    simp only [if_pos hmem, hpart]

/-- **The step.** An item is refused if an item of its section has its identity; else it goes behind
the others. -/
theorem add_eq (v : Vocabulary) (i : Item) : v.add i =
    match i.repeats? (v.contents i.part) with
    | some d => .error d
    | none => .ok (v.append i) := by
  cases i with
  | stamp s => rfl
  | modifier m => exact add_eq_of_member rfl rfl rfl List.filterMap_map rfl
  | category c => exact add_eq_of_member rfl rfl rfl List.filterMap_map rfl
  | action a => exact add_eq_of_member rfl rfl rfl List.filterMap_map rfl
  | script s => exact add_eq_of_member rfl rfl rfl List.filterMap_map rfl

/-! ## What was tried before -/

theorem inPart_concat (s : Section) (items : List Item) (i : Item) :
    inPart s (items ++ [i]) = inPart s items ++ if i.part = s then [i] else [] := by
  rw [inPart, List.filter_append, inPart]
  by_cases h : i.part = s <;> simp [h]

theorem mem_identities_concat (s : Section) (items : List Item) (i : Item) (k : Identity) :
    k ∈ (inPart s (items ++ [i])).filterMap Item.identity? ↔
      k ∈ (inPart s items).filterMap Item.identity? ∨ (i.part = s ∧ i.identity? = some k) := by
  rw [inPart_concat, List.filterMap_append, List.mem_append]
  refine or_congr Iff.rfl ?_
  by_cases h : i.part = s <;> simp [h]

theorem repeats?_congr {i : Item} {xs ys : List Item}
    (h : ∀ k, k ∈ (inPart i.part xs).filterMap Item.identity? ↔
      k ∈ (inPart i.part ys).filterMap Item.identity?) : i.repeats? xs = i.repeats? ys := by
  rw [Item.repeats?, Item.repeats?]
  cases i.identity? with
  | none => rfl
  | some k => simp only [h k]

theorem inPart_inPart (s : Section) (items : List Item) :
    inPart s (inPart s items) = inPart s items := by
  rw [inPart, inPart, List.filter_filter]
  simp only [Bool.and_self]

theorem repeats?_inPart (i : Item) (items : List Item) :
    i.repeats? (inPart i.part items) = i.repeats? items :=
  repeats?_congr fun k => by rw [inPart_inPart]

theorem mem_identities_of_repeats? {i : Item} {items : List Item} {d : Duplicate}
    (h : i.repeats? items = some d) {k : Identity} (hk : i.identity? = some k) :
    k ∈ (inPart i.part items).filterMap Item.identity? := by
  rw [Item.repeats?, hk] at h
  simp only at h
  split at h
  · next hmem => exact hmem
  · cases h

theorem firsts_concat (items : List Item) (i : Item) : firsts (items ++ [i]) =
    firsts items ++ if (i.repeats? items).isNone then [i] else [] := by
  have hearlier : ∀ n ∈ List.range items.length,
      ((items ++ [i])[n]?.filter fun j => (j.repeats? ((items ++ [i]).take n)).isNone) =
        items[n]?.filter fun j => (j.repeats? (items.take n)).isNone := by
    intro n hn
    have hlt : n < items.length := List.mem_range.mp hn
    rw [List.getElem?_append_left hlt, List.take_append_of_le_length (Nat.le_of_lt hlt)]
  have hlast : (items ++ [i])[items.length]? = some i := List.getElem?_concat_length
  rw [firsts, List.length_append, List.length_singleton, List.range_succ, List.filterMap_append,
    List.filterMap_congr hearlier]
  congr 1
  simp only [List.filterMap_cons, List.filterMap_nil, hlast, List.take_left, Option.filter_some]
  cases i.repeats? items <;> rfl

/-- **Attempts that were refused** leave the same identities behind as the others. -/
theorem mem_identities_firsts (s : Section) (items : List Item) (k : Identity) :
    k ∈ (inPart s (firsts items)).filterMap Item.identity? ↔
      k ∈ (inPart s items).filterMap Item.identity? := by
  induction items using List.reverseRecOn with
  | nil => rfl
  | append_singleton items i ih =>
    rw [firsts_concat, mem_identities_concat]
    cases h : i.repeats? items with
    | none => rw [if_pos Option.isNone_none, mem_identities_concat, ih]
    | some d =>
      rw [if_neg (by simp), List.append_nil, ih]
      refine ⟨.inl, fun hk => hk.elim id fun ⟨hs, hk⟩ => ?_⟩
      exact hs ▸ mem_identities_of_repeats? h hk

theorem repeats?_firsts (i : Item) (items : List Item) :
    i.repeats? (firsts items) = i.repeats? items := repeats?_congr (mem_identities_firsts _ items)

/-- The items of a section that repeat none of the section are those that repeat none at all. -/
theorem inPart_firsts (s : Section) (items : List Item) :
    inPart s (firsts items) = firsts (inPart s items) := by
  induction items using List.reverseRecOn with
  | nil => rfl
  | append_singleton items i ih =>
    by_cases h : i.part = s
    · subst h
      rw [inPart_concat, if_pos rfl, firsts_concat, firsts_concat, ← ih, repeats?_inPart]
      split
      · rw [inPart_concat, if_pos rfl]
      · rw [List.append_nil, List.append_nil]
    · rw [inPart_concat, if_neg h, List.append_nil, firsts_concat, ← ih]
      split
      · rw [inPart_concat, if_neg h, List.append_nil]
      · rw [List.append_nil]

/-! ## Runs -/

theorem ofItems_concat (items : List Item) (i : Item) :
    ofItems (items ++ [i]) = (ofItems items).attempt i := by
  rw [ofItems, List.foldl_append]
  rfl

theorem attempt_eq_of_repeats {v : Vocabulary} {i : Item} {d : Duplicate}
    (h : i.repeats? (v.contents i.part) = some d) : v.attempt i = v := by
  rw [attempt, add_eq, h]

theorem attempt_eq_append {v : Vocabulary} {i : Item}
    (h : i.repeats? (v.contents i.part) = none) : v.attempt i = v.append i := by
  rw [attempt, add_eq, h]

/-- **What a run leaves in a section**: the items of the section that repeat no earlier one. -/
theorem contents_ofItems (items : List Item) (s : Section) :
    (ofItems items).contents s = inPart s (firsts items) := by
  induction items using List.reverseRecOn generalizing s with
  | nil => cases s <;> rfl
  | append_singleton items i ih =>
    have hrepeats : i.repeats? ((ofItems items).contents i.part) = i.repeats? items := by
      rw [ih, repeats?_inPart, repeats?_firsts]
    rw [ofItems_concat, firsts_concat]
    cases h : i.repeats? items with
    | none =>
      rw [attempt_eq_append (hrepeats.trans h), contents_append, ih,
        if_pos Option.isNone_none, inPart, inPart, inPart, List.filter_append]
    | some d =>
      rw [attempt_eq_of_repeats (hrepeats.trans h), ih, if_neg (by simp), List.append_nil]

theorem repeats?_contents_ofItems (items : List Item) (i : Item) :
    i.repeats? ((ofItems items).contents i.part) = i.repeats? items := by
  rw [contents_ofItems, repeats?_inPart, repeats?_firsts]

/-- **One call behind a run** is refused if its item repeats one that was tried in the run. -/
theorem add_ofItems (items : List Item) (i : Item) : (ofItems items).add i =
    match i.repeats? items with
    | some d => .error d
    | none => .ok ((ofItems items).append i) := by
  rw [add_eq, repeats?_contents_ofItems]

/-- **The history** grows by the stamp that is put in, and stays where an item is none. -/
theorem history_attempt (v : Vocabulary) (i : Item) :
    (v.attempt i).history = v.history ++ i.stamp?.toList := by
  cases h : i.repeats? (v.contents i.part) with
  | none =>
    rw [attempt_eq_append h]
    cases i <;> simp [append, Item.stamp?]
  | some d =>
    rw [attempt_eq_of_repeats h]
    cases i with
    | stamp s => cases h
    | _ => simp [Item.stamp?]

theorem history_attempts (v : Vocabulary) (items : List Item) :
    (items.foldl attempt v).history = v.history ++ items.filterMap Item.stamp? := by
  induction items generalizing v with
  | nil => simp
  | cons i items ih =>
    rw [List.foldl_cons, ih, history_attempt, List.append_assoc]
    cases h : i.stamp? <;> simp [h]

theorem history_ofItems (items : List Item) :
    (ofItems items).history = items.filterMap Item.stamp? := by
  rw [ofItems, history_attempts]
  rfl

/-! ## Answers -/

theorem length_outcomes (v : Vocabulary) (items : List Item) :
    (outcomes v items).length = items.length := by
  induction items generalizing v with
  | nil => rfl
  | cons i items ih => rw [outcomes, List.length_cons, List.length_cons, ih]

theorem outcomes_append (v : Vocabulary) (items more : List Item) :
    outcomes v (items ++ more) = outcomes v items ++ outcomes (items.foldl attempt v) more := by
  induction items generalizing v with
  | nil => rfl
  | cons i items ih =>
    rw [List.cons_append, outcomes, outcomes, ih, List.cons_append, List.foldl_cons]

/-- What a call answers whose item repeats an identity, or none. -/
def answer : Option Duplicate → Except Duplicate Unit
  | some d => .error d
  | none => .ok ()

theorem outcomes_concat (items : List Item) (i : Item) :
    outcomes empty (items ++ [i]) = outcomes empty items ++ [answer (i.repeats? items)] := by
  have hlast : ((ofItems items).add i).map (fun _ => ()) = answer (i.repeats? items) := by
    rw [add_ofItems]
    cases i.repeats? items <;> rfl
  rw [outcomes_append, ← hlast]
  rfl

theorem outcomesOf_concat (s : Section) (items : List Item) (i : Item) :
    outcomesOf s (items ++ [i]) =
      outcomesOf s items ++ if i.part = s then [answer (i.repeats? items)] else [] := by
  rw [outcomesOf, outcomes_concat, List.zip_append (length_outcomes empty items).symm,
    List.filter_append, List.map_append, ← outcomesOf]
  by_cases h : i.part = s <;> simp [h]

/-- **The answers to the calls to a section** do not depend on the other calls. -/
theorem outcomesOf_eq (s : Section) (items : List Item) :
    outcomesOf s items = outcomes empty (inPart s items) := by
  induction items using List.reverseRecOn with
  | nil => rfl
  | append_singleton items i ih =>
    rw [outcomesOf_concat, ih, inPart_concat]
    split
    · next h => rw [outcomes_concat, ← h, repeats?_inPart]
    · rw [List.append_nil, List.append_nil]

/-- **The calls that succeed** are as many as the items that are held. -/
theorem size_ofItems (items : List Item) :
    (ofItems items).size = (outcomes empty items).countP Except.isOk := by
  induction items using List.reverseRecOn with
  | nil => rfl
  | append_singleton items i ih =>
    rw [ofItems_concat, outcomes_concat, List.countP_append, ← ih]
    cases h : i.repeats? items with
    | none =>
      rw [attempt_eq_append ((repeats?_contents_ofItems items i).trans h), size_append]
      rfl
    | some d =>
      rw [attempt_eq_of_repeats ((repeats?_contents_ofItems items i).trans h)]
      rfl

/-! ## The whole run -/

/-- **What every run of insertions leaves and answers.**

* A call is refused exactly if its item repeats an identity that was tried before in its section,
  and then with that identity; it changes nothing. Any other call puts its item behind those of its
  section and changes nothing else.
* All stamps are kept in their order, and in every section the items that repeat no earlier one.
* There are as many items as calls that succeed.
* A run with the same calls to every section, however they are mixed, leaves the same vocabulary and
  answers every call in the same way. -/
theorem insertion_run (items : List Item) :
    (∀ earlier i later, items = earlier ++ i :: later →
      match i.repeats? earlier with
      | some d => (ofItems earlier).add i = .error d ∧ ofItems (earlier ++ [i]) = ofItems earlier
      | none => (ofItems earlier).add i = .ok ((ofItems earlier).append i) ∧
        ofItems (earlier ++ [i]) = (ofItems earlier).append i) ∧
    (ofItems items).history = items.filterMap Item.stamp? ∧
    (∀ s, (ofItems items).contents s = inPart s (firsts items)) ∧
    (ofItems items).size = (outcomes empty items).countP Except.isOk ∧
    ∀ other, (∀ s, inPart s other = inPart s items) →
      ofItems other = ofItems items ∧ ∀ s, outcomesOf s other = outcomesOf s items := by
  refine ⟨fun earlier i later _ => ?_, history_ofItems items, contents_ofItems items,
    size_ofItems items, fun other h => ⟨eq_of_contents_eq fun s => ?_, fun s => ?_⟩⟩
  · have hadd := add_ofItems earlier i
    rw [ofItems_concat, attempt]
    cases hrepeats : i.repeats? earlier with
    | some d =>
      rw [hrepeats] at hadd
      simp only [hadd, and_self]
    | none =>
      rw [hrepeats] at hadd
      simp only [hadd, and_self]
  · rw [contents_ofItems, contents_ofItems, inPart_firsts, inPart_firsts, h s]
  · rw [outcomesOf_eq, outcomesOf_eq, h s]

/-- A second modifier is refused and still tried: a third one with its character is refused too. -/
example :
    let plus : Item := .modifier ⟨"+", "Merge"⟩
    let again : Item := .modifier ⟨"+", "Join"⟩
    outcomesOf .modifiers [plus, .action ⟨"A", "", "", .unique⟩, again, plus] =
      [.ok (), .error ⟨.modifiers, "+"⟩, .error ⟨.modifiers, "+"⟩] := by decide +kernel

end Methodology.Vocabulary
