import Methodology.Proofs.Record.Held
import Methodology.Proofs.Vocabulary.Accepted
import Methodology.Vocabulary.Format

/-!
# What a document takes from its text

A document that is accepted holds what is written in its text, but a section or a field gives way to
a later one with its key, and nothing tells of it.

* `IsReadAsWritten`: an entry that holds what is written.
* `itemsWritten`, `itemsWritten_eq_add`, `itemsWritten_eq_sum`: how many items are written.
* `Vocabulary.IsWrittenBy`: a vocabulary whose parts are the last lists that are written.
* **`Vocabulary.isWrittenBy_of_parse`**: every document that is accepted.
* `Vocabulary.drops_repeatedKeys`: documents that are accepted although keys are repeated.
-/

namespace Methodology

open Json Result

/-! ## Entries -/

section

variable {α : Type} [Entry α]

/-- **An entry that holds what is written**: it is built from a record that does. -/
def IsReadAsWritten (value : Json) (a : α) : Prop :=
  ∃ record d fresh, Record.IsWritten (Entry.schema α) record value ∧
    Entry.build record = .ok d ∧ (Entry.settle d fresh).1 = a

theorem IsReadFrom.isReadAsWritten {value : Json} {a : α} (h : IsReadFrom value.sorted a) :
    IsReadAsWritten value a := by
  obtain ⟨d, fresh, hd, ha⟩ := h
  obtain ⟨record, hrecord, hbuild⟩ := bind_eq_ok.mp hd
  exact ⟨record, d, fresh, Record.isWritten_of_ofValue hrecord, mapError_eq_ok.mp hbuild, ha⟩

theorem itemsOf_map_sorted (value : Option Json) :
    itemsOf (value.map sorted) = (itemsOf value).map sorted := by
  cases value with
  | none => rfl
  | some value =>
    cases value with
    | array items => exact sortedItems_eq_map items
    | _ => rfl

theorem forall₂_isReadAsWritten {key : String} {fields : List (String × Json)} {items : List α}
    (h : List.Forall₂ IsReadFrom (itemsOf (field? key (sortFields (sortedFields fields)))) items) :
    List.Forall₂ IsReadAsWritten (itemsOf (field? key (lastFields fields))) items := by
  rw [field?_sorted, itemsOf_map_sorted, List.forall₂_map_left_iff] at h
  exact h.imp fun _ _ => IsReadFrom.isReadAsWritten

end

/-! ## How many items are written -/

/-- The fields of a mapping; any other value has none. -/
def fieldsOf : Json → List (String × Json)
  | .object fields => fields
  | _ => []

/-- How many items stand in the lists of a mapping. -/
def itemsWritten (fields : List (String × Json)) : Nat :=
  (fields.map fun f => (itemsOf (some f.2)).length).sum

theorem itemsWritten_eq_add (fields : List (String × Json)) : itemsWritten fields =
    itemsWritten (lastFields fields) + itemsWritten (hiddenFields fields) := by
  have hperm := (lastFields_append_hiddenFields fields).map fun f => (itemsOf (some f.2)).length
  rw [itemsWritten, ← hperm.sum_nat, List.map_append, List.sum_append]
  rfl

theorem Section.name_injective : Function.Injective Section.name := by
  intro s s' h
  cases s <;> cases s' <;> first | rfl | exact absurd h (by decide)

/-- **The items of a mapping of sections**, each with its own key, are those of all sections. -/
theorem itemsWritten_eq_sum {fields : List (String × Json)}
    (hknown : ∀ f ∈ fields, f.1 ∈ Section.names) (hnodup : (fields.map Prod.fst).Nodup) :
    itemsWritten fields =
      (Section.all.map fun s => (itemsOf (field? s.name fields)).length).sum := by
  induction fields with
  | nil => rfl
  | cons f fields ih =>
    obtain ⟨k, v⟩ := f
    obtain ⟨hk, hknown⟩ := List.forall_mem_cons.mp hknown
    obtain ⟨hnew, hnodup⟩ := List.nodup_cons.mp hnodup
    have hnone : field? k fields = none := field?_eq_none.mpr hnew
    have hstep : itemsWritten ((k, v) :: fields) =
        (itemsOf (some v)).length + itemsWritten fields := rfl
    rw [hstep, ih hknown hnodup]
    obtain ⟨s, -, rfl⟩ := List.mem_map.mp hk
    -- the section of the first field is empty in the others, and the other sections are unchanged
    have hsections : ∀ s' : Section,
        (itemsOf (field? s'.name ((s.name, v) :: fields))).length =
          (if s' = s then (itemsOf (some v)).length else 0) +
            (itemsOf (field? s'.name fields)).length := by
      intro s'
      rw [field?_cons]
      by_cases hs : s' = s
      · subst hs
        rw [if_pos rfl, if_pos rfl, hnone]
        rfl
      · rw [if_neg hs, if_neg (Section.name_injective.ne hs), Nat.zero_add]
    simp only [hsections]
    cases s <;> simp [Section.all] <;> omega

namespace Vocabulary

/-! ## Documents -/

/-- **A vocabulary that is written** in a mapping: every key names a section, and each part holds
the items of the last list under its name. -/
structure IsWrittenBy (fields : List (String × Json)) (v : Vocabulary) : Prop where
  known : ∀ f ∈ fields, f.1 ∈ Section.names
  history : List.Forall₂ IsReadAsWritten
    (itemsOf (field? Section.history.name (lastFields fields))) v.history
  modifiers : List.Forall₂ IsReadAsWritten
    (itemsOf (field? Section.modifiers.name (lastFields fields))) v.modifiers
  categories : List.Forall₂ IsReadAsWritten
    (itemsOf (field? Section.categories.name (lastFields fields))) v.categories
  actions : List.Forall₂ IsReadAsWritten
    (itemsOf (field? Section.actions.name (lastFields fields))) v.actions
  scripts : List.Forall₂ IsReadAsWritten
    (itemsOf (field? Section.scripts.name (lastFields fields))) v.scripts

theorem IsWrittenBy.size_eq {fields : List (String × Json)} {v : Vocabulary}
    (h : v.IsWrittenBy fields) : v.size = itemsWritten (lastFields fields) := by
  have hknown : ∀ f ∈ lastFields fields, f.1 ∈ Section.names :=
    fun f hf => h.known f (mem_of_mem_lastFields hf)
  rw [itemsWritten_eq_sum hknown (nodup_lastFields fields)]
  simp only [Section.all, List.map_cons, List.map_nil, List.sum_cons, List.sum_nil, Vocabulary.size,
    ← h.history.length_eq, ← h.modifiers.length_eq, ← h.categories.length_eq,
    ← h.actions.length_eq, ← h.scripts.length_eq]
  omega

theorem isWrittenBy_of_validate {fields : List (String × Json)} {fresh : Fresh} {v : Vocabulary}
    (h : (validate (Json.object fields).sorted fresh).1 = .ok v) : v.IsWrittenBy fields := by
  obtain ⟨hunknown, hread⟩ := isReadOf_of_validate h
  refine ⟨forall_key_of_sorted fun f hf => ?_, forall₂_isReadAsWritten hread.history,
    forall₂_isReadAsWritten hread.modifiers, forall₂_isReadAsWritten hread.categories,
    forall₂_isReadAsWritten hread.actions, forall₂_isReadAsWritten hread.scripts⟩
  have hkept := List.filter_eq_nil_iff.mp (List.map_eq_nil_iff.mp hunknown) f hf
  simpa using hkept

/-- **A document that is accepted** is null or a mapping of sections. Of the sections with one name
the last one is read, and of the fields of an entry with one key the last one. Nothing else gives
way: the items that are written are those of the document and those of the sections that give way,
and no section gives way if none is repeated. -/
theorem isWrittenBy_of_parse {text : String} {fresh : Fresh} {v : Vocabulary}
    (h : (parse .json text fresh).1 = .ok v) :
    (written text = .ok .null ∧ v = .empty) ∨
      ∃ fields, written text = .ok (.object fields) ∧ v.IsWrittenBy fields ∧
        itemsWritten fields = v.size + itemsWritten (hiddenFields fields) ∧
        ((fields.map Prod.fst).Nodup → v.size = itemsWritten fields) := by
  rw [parse, valueOf, read_eq_written] at h
  cases hwritten : written text with
  | error f =>
    rw [hwritten] at h
    cases h
  | ok value =>
    rw [hwritten] at h
    change (validate value.sorted fresh).1 = .ok v at h
    cases value with
    | null =>
      cases h
      exact .inl ⟨rfl, rfl⟩
    | object fields =>
      have hv := isWrittenBy_of_validate h
      have hitems : itemsWritten fields = v.size + itemsWritten (hiddenFields fields) := by
        rw [itemsWritten_eq_add, hv.size_eq]
      refine .inr ⟨fields, rfl, hv, hitems, fun hnodup => ?_⟩
      rw [hitems, hiddenFields_eq_nil hnodup]
      rfl
    | _ => cases h

/-- A text with one modifier, and no other section to give way. -/
theorem isWrittenBy_of_parse_oneModifier :
    let fresh : Fresh := ⟨Supply.constant Uuid.nil, Supply.constant ⟨0, 0⟩⟩
    let text := "\x7b\"modifiers\":[\x7b\"name\":\"+\",\"title\":\"x\"\x7d]\x7d"
    (parse .json text fresh).1 = .ok ⟨[], [⟨"+", "x"⟩], [], [], []⟩ ∧
      ∃ fields, written text = .ok (.object fields) ∧
        itemsWritten fields = 1 + itemsWritten (hiddenFields fields) := by
  intro fresh text
  have hparse : (parse .json text fresh).1 = .ok ⟨[], [⟨"+", "x"⟩], [], [], []⟩ := by
    decide +kernel
  refine ⟨hparse, ?_⟩
  rcases isWrittenBy_of_parse hparse with ⟨-, hempty⟩ | ⟨fields, hwritten, -, hitems, -⟩
  · cases hempty
  · exact ⟨fields, hwritten, hitems⟩

/-- **What a repeated key is written with is dropped**: a list of one modifier gives way to an empty
list, and the name of a modifier to another name. -/
theorem drops_repeatedKeys :
    let fresh : Fresh := ⟨Supply.constant Uuid.nil, Supply.constant ⟨0, 0⟩⟩
    let lists :=
      "\x7b\"modifiers\":[\x7b\"name\":\"+\",\"title\":\"x\"\x7d],\"modifiers\":[]\x7d"
    let names :=
      "\x7b\"modifiers\":[\x7b\"name\":\"-\",\"name\":\"+\",\"title\":\"x\"\x7d]\x7d"
    ((parse .json lists fresh).1 = .ok .empty ∧ (written lists).map compact = .ok lists ∧
      ∃ fields, written lists = .ok (.object fields) ∧ itemsWritten fields = 1) ∧
    (parse .json names fresh).1 = .ok ⟨[], [⟨"+", "x"⟩], [], [], []⟩ ∧
      (written names).map compact = .ok names := by
  intro fresh lists names
  have hcount : (written lists).map (fun value => itemsWritten (fieldsOf value)) = .ok 1 := by
    decide +kernel
  refine ⟨⟨by decide +kernel, by decide +kernel, ?_⟩, by decide +kernel, by decide +kernel⟩
  obtain ⟨value, hwritten, hvalue⟩ := map_eq_ok.mp hcount
  cases value with
  | object fields => exact ⟨fields, hwritten, hvalue⟩
  | _ => cases hvalue

end Vocabulary

end Methodology
