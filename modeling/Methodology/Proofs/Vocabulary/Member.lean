import Methodology.Vocabulary.Validation

/-!
# The parts of a vocabulary and their items

The five parts are filled in the same way: an item goes behind the others, unless its identity is
taken. Stamps have no identity.

* `Identity`: a symbol, a uuid or a name.
* `Member`: a kind of entry, the part that takes it and its identity; one instance for each part.
* `Member.insert_of_mem`, `Member.insert_of_notMem`: **insertion**, the same for all parts.
* **`Member.insertAll_of_nodup`**: items of distinct identities are all taken.
-/

namespace Methodology

/-- What tells the items of a part apart. -/
inductive Identity
  | symbol (c : Char)
  | uuid (u : Uuid)
  | name (s : String)
  deriving DecidableEq, Repr

/-- How a message shows an identity. -/
def Identity.text : Identity → String
  | symbol c => c.toString
  | uuid u => u.toText
  | name s => s

/-- **A kind of entry** with the part of a vocabulary that takes it. -/
class Member (α : Type) [Entry α] where
  part : Section
  items : Vocabulary → List α
  withItems : Vocabulary → List α → Vocabulary
  insert : Vocabulary → α → Except Duplicate Vocabulary
  identity? : α → Option Identity
  items_withItems (v : Vocabulary) (xs : List α) : items (withItems v xs) = xs
  withItems_withItems (v : Vocabulary) (xs ys : List α) :
    withItems (withItems v xs) ys = withItems v ys
  withItems_items (v : Vocabulary) : withItems v (items v) = v
  insert_of_mem {v : Vocabulary} {a : α} {k : Identity} (hk : identity? a = some k)
    (h : k ∈ (items v).filterMap identity?) : insert v a = .error ⟨part, k.text⟩
  insert_of_notMem {v : Vocabulary} {a : α}
    (h : ∀ k, identity? a = some k → k ∉ (items v).filterMap identity?) :
    insert v a = .ok (withItems v (items v ++ [a]))

theorem any_eq_mem_filterMap {α κ : Type} [DecidableEq κ] (key : α → κ) {wrap : κ → Identity}
    (hwrap : ∀ k l, wrap k = wrap l → k = l) (items : List α) (a : α) :
    (items.any fun other => key other = key a) =
      decide (wrap (key a) ∈ items.filterMap fun b => some (wrap (key b))) := by
  rw [Bool.eq_iff_iff, List.any_eq_true, decide_eq_true_iff, List.mem_filterMap]
  constructor
  · rintro ⟨b, hb, h⟩
    exact ⟨b, hb, congrArg (some ∘ wrap) (of_decide_eq_true h)⟩
  · rintro ⟨b, hb, h⟩
    exact ⟨b, hb, decide_eq_true (hwrap _ _ (Option.some.inj h))⟩

theorem insertUnique_of_mem {α κ : Type} [DecidableEq κ] {key : α → κ} {wrap : κ → Identity}
    (hwrap : ∀ k l, wrap k = wrap l → k = l) {items : List α} {a : α} {k : Identity}
    (hk : some (wrap (key a)) = some k)
    (h : k ∈ items.filterMap fun b => some (wrap (key b))) : insertUnique key items a = none := by
  cases hk
  rw [insertUnique, any_eq_mem_filterMap key hwrap, decide_eq_true h]
  rfl

theorem insertUnique_of_notMem {α κ : Type} [DecidableEq κ] {key : α → κ} {wrap : κ → Identity}
    (hwrap : ∀ k l, wrap k = wrap l → k = l) {items : List α} {a : α}
    (h : ∀ k, some (wrap (key a)) = some k → k ∉ items.filterMap fun b => some (wrap (key b))) :
    insertUnique key items a = some (items ++ [a]) := by
  rw [insertUnique, any_eq_mem_filterMap key hwrap, decide_eq_false (h _ rfl)]
  rfl

/-- **Of items of distinct keys** no two have the key of one. -/
theorem filter_of_nodup {α κ : Type} [DecidableEq κ] {key : α → κ} {items : List α}
    (hdistinct : (items.map key).Nodup) {a : α} (ha : a ∈ items) :
    items.filter (fun b => key b = key a) = [a] := by
  induction items with
  | nil => cases ha
  | cons b items ih =>
    obtain ⟨hnew, hdistinct⟩ := List.nodup_cons.mp hdistinct
    rcases List.mem_cons.mp ha with rfl | ha
    · have hrest : items.filter (fun b => key b = key a) = [] :=
        List.filter_eq_nil_iff.mpr fun b hb heq =>
          hnew (of_decide_eq_true heq ▸ List.mem_map_of_mem hb)
      rw [List.filter_cons, if_pos (decide_eq_true rfl), hrest]
    · have hne : key b ≠ key a := fun heq => hnew (heq ▸ List.mem_map_of_mem ha)
      rw [List.filter_cons, if_neg (by simpa using hne), ih hdistinct ha]

instance : Member Stamp where
  part := .history
  items v := v.history
  withItems v xs := { v with history := xs }
  insert v s := .ok (v.record s)
  identity? _ := none
  items_withItems _ _ := rfl
  withItems_withItems _ _ _ := rfl
  withItems_items _ := rfl
  insert_of_mem hk _ := nomatch hk
  insert_of_notMem _ := rfl

instance : Member Modifier where
  part := .modifiers
  items v := v.modifiers
  withItems v xs := { v with modifiers := xs }
  insert := Vocabulary.addModifier
  identity? m := some (.symbol m.symbol)
  items_withItems _ _ := rfl
  withItems_withItems _ _ _ := rfl
  withItems_items _ := rfl
  insert_of_mem hk h := by
    cases hk
    rw [Vocabulary.addModifier, insertUnique_of_mem (fun _ _ => Identity.symbol.inj) rfl h]
    rfl
  insert_of_notMem h := by
    rw [Vocabulary.addModifier, insertUnique_of_notMem (fun _ _ => Identity.symbol.inj) h]

instance : Member Category where
  part := .categories
  items v := v.categories
  withItems v xs := { v with categories := xs }
  insert := Vocabulary.addCategory
  identity? c := some (.uuid c.uuid)
  items_withItems _ _ := rfl
  withItems_withItems _ _ _ := rfl
  withItems_items _ := rfl
  insert_of_mem hk h := by
    cases hk
    rw [Vocabulary.addCategory, insertUnique_of_mem (fun _ _ => Identity.uuid.inj) rfl h]
    rfl
  insert_of_notMem h := by
    rw [Vocabulary.addCategory, insertUnique_of_notMem (fun _ _ => Identity.uuid.inj) h]

instance : Member Action where
  part := .actions
  items v := v.actions
  withItems v xs := { v with actions := xs }
  insert := Vocabulary.addAction
  identity? a := some (.name a.name)
  items_withItems _ _ := rfl
  withItems_withItems _ _ _ := rfl
  withItems_items _ := rfl
  insert_of_mem hk h := by
    cases hk
    rw [Vocabulary.addAction, insertUnique_of_mem (fun _ _ => Identity.name.inj) rfl h]
    rfl
  insert_of_notMem h := by
    rw [Vocabulary.addAction, insertUnique_of_notMem (fun _ _ => Identity.name.inj) h]

instance : Member Script where
  part := .scripts
  items v := v.scripts
  withItems v xs := { v with scripts := xs }
  insert := Vocabulary.addScript
  identity? s := some (.uuid s.uuid)
  items_withItems _ _ := rfl
  withItems_withItems _ _ _ := rfl
  withItems_items _ := rfl
  insert_of_mem hk h := by
    cases hk
    rw [Vocabulary.addScript, insertUnique_of_mem (fun _ _ => Identity.uuid.inj) rfl h]
    rfl
  insert_of_notMem h := by
    rw [Vocabulary.addScript, insertUnique_of_notMem (fun _ _ => Identity.uuid.inj) h]

namespace Member

variable {α : Type} [Entry α] [Member α]

/-- The identities that the part of a vocabulary holds. -/
def identities (α : Type) [Entry α] [Member α] (v : Vocabulary) : List Identity :=
  (items (α := α) v).filterMap identity?

/-- **An item of a new identity** is taken. -/
theorem insert_eq_ok {v : Vocabulary} {a : α} (h : ∀ k, identity? a = some k → k ∉ identities α v) :
    insert v a = .ok (withItems v (items v ++ [a])) := insert_of_notMem h

/-- **An item of an identity that is taken** is refused. -/
theorem insert_eq_error {v : Vocabulary} {a : α} {k : Identity} (hk : identity? a = some k)
    (h : k ∈ identities α v) : insert v a = .error ⟨part α, k.text⟩ := insert_of_mem hk h

theorem identities_withItems (v : Vocabulary) (xs : List α) :
    identities α (withItems v xs) = xs.filterMap identity? := by
  rw [identities, items_withItems]

theorem identities_concat (v : Vocabulary) (a : α) :
    identities α (withItems v (items v ++ [a])) =
      identities α v ++ (identity? a).toList := by
  rw [identities_withItems, List.filterMap_append]
  cases h : identity? a <;> simp [identities, h]

theorem insert_cases (v : Vocabulary) (a : α) :
    (insert v a = .ok (withItems v (items v ++ [a])) ∧
      ∀ k, identity? a = some k → k ∉ identities α v) ∨
    ∃ k, identity? a = some k ∧ k ∈ identities α v ∧ insert v a = .error ⟨part α, k.text⟩ := by
  cases hk : identity? a with
  | none =>
    have hnew : ∀ k, identity? a = some k → k ∉ identities α v := fun k h => nomatch hk ▸ h
    exact .inl ⟨insert_eq_ok hnew, hk ▸ hnew⟩
  | some k =>
    by_cases hmem : k ∈ identities α v
    · exact .inr ⟨k, rfl, hmem, insert_eq_error hk hmem⟩
    · have hnew : ∀ l, identity? a = some l → l ∉ identities α v := by
        intro l hl
        rw [hk] at hl
        exact Option.some.inj hl ▸ hmem
      exact .inl ⟨insert_eq_ok hnew, hk ▸ hnew⟩

/-- **Items of distinct identities** are all taken, in their order. -/
theorem insertAll_of_nodup (v : Vocabulary) (new : List (Nat × α))
    (h : ((items v ++ new.map Prod.snd).filterMap identity?).Nodup) :
    insertAll (part α) insert v new = (withItems v (items v ++ new.map Prod.snd), []) := by
  induction new generalizing v with
  | nil => rw [insertAll, List.map_nil, List.append_nil, withItems_items]
  | cons p new ih =>
    obtain ⟨index, a⟩ := p
    have hnew : ∀ k, identity? a = some k → k ∉ identities α v := by
      intro k hk hmem
      rw [List.map_cons, List.filterMap_append, List.filterMap_cons_some hk] at h
      exact (List.nodup_append.mp h).2.2 k hmem k List.mem_cons_self rfl
    have hassoc : items v ++ (a :: new.map Prod.snd) = items v ++ [a] ++ new.map Prod.snd := by
      rw [List.append_assoc, List.singleton_append]
    rw [List.map_cons, hassoc] at h ⊢
    rw [insertAll, insert_eq_ok hnew]
    simp only
    rw [ih (withItems v (items v ++ [a])) (by rw [items_withItems]; exact h), items_withItems,
      withItems_withItems]

end Member

end Methodology
