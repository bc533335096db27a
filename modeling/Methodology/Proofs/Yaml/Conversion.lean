import Methodology.Proofs.Json.RoundTrip
import Methodology.Proofs.Json.Fields
import Methodology.Proofs.Yaml.Target
import Methodology.Proofs.Yaml.Value
import Mathlib.Data.List.Lex

/-!
# From YAML values to data values

* `Value.HoldsAt`: what no data value can hold, and where in a value it stands.
* `Reports`: a conversion that fails for what stands at the first of some places;
  `reports_toJson`: so does that of a value. `toJson_eq_error_iff`: **the error**.
* `Untagged`: a data value that is a value without its tags.
* `HasDistinctKeys`: values that repeat no key; `hasDistinctKeys_of_read`: what is read is one.
* `toJson_eq_ok_iff`: **the data value**.
* `ofJson`: a data value as a YAML value; `toJson_ofJson`: it is converted back.
* **`conversion`**: the three together.
-/

namespace Methodology.Yaml

open Result

/-! ## What no data value can hold -/

/-- **What no data value can hold, and where.** A place is the way to it in numbers: that of an item,
twice that of an entry for its key, and one more for its value. A tag is no step. -/
inductive Value.HoldsAt : Value → List Nat → Unsuitable → Prop
  | infinity (negative : Bool) :
    HoldsAt (number (.infinity negative)) [] (.number (.infinity negative))
  | notANumber : HoldsAt (number .notANumber) [] (.number .notANumber)
  | item {items : List Value} {i : Nat} {v : Value} {p : List Nat} {u : Unsuitable}
    (hitem : items[i]? = some v) (h : v.HoldsAt p u) : HoldsAt (sequence items) (i :: p) u
  | key {entries : List (Value × Value)} {i : Nat} {k v : Value}
    (hentry : entries[i]? = some (k, v)) (hkey : ∀ s, k ≠ string s) :
    HoldsAt (mapping entries) [2 * i] (.key k)
  | value {entries : List (Value × Value)} {i : Nat} {k v : Value} {p : List Nat} {u : Unsuitable}
    (hentry : entries[i]? = some (k, v)) (h : v.HoldsAt p u) :
    HoldsAt (mapping entries) ((2 * i + 1) :: p) u
  | tagged {tag : List Char} {v : Value} {p : List Nat} {u : Unsuitable} (h : v.HoldsAt p u) :
    HoldsAt (tagged tag v) p u

/-- A conversion that fails for what stands at the first of some places, if there is one. -/
def Reports {α : Type} (r : Except Unsuitable α) (holdsAt : List Nat → Unsuitable → Prop) : Prop :=
  match r with
  | .ok _ => ∀ p u, ¬ holdsAt p u
  | .error u => ∃ p, holdsAt p u ∧ ∀ q u', holdsAt q u' → p ≤ q

namespace Reports

variable {α β : Type} {r : Except Unsuitable α} {a b : List Nat → Unsuitable → Prop}

theorem congr (h : Reports r a) (hab : ∀ p u, a p u ↔ b p u) : Reports r b := by
  have heq : a = b := funext fun p => funext fun u => propext (hab p u)
  exact heq ▸ h

theorem map (h : Reports r a) (f : α → β) : Reports (r.map f) a := by
  cases r with
  | ok x => exact h
  | error u => exact h

/-- One conversion after the other, all places of the first one being before those of the second. -/
theorem bind {f : α → Except Unsuitable β} (hr : Reports r a)
    (hf : ∀ x, r = .ok x → Reports (f x) b) (hlt : ∀ p u q u', a p u → b q u' → p < q) :
    Reports (r >>= f) fun p u => a p u ∨ b p u := by
  cases r with
  | ok x => exact (hf x rfl).congr fun p u => (or_iff_right (hr p u)).symm
  | error u =>
    obtain ⟨p, hp, hfirst⟩ := hr
    exact ⟨p, .inl hp, fun q u' h => h.elim (hfirst q u') fun hq => (hlt p u q u' hp hq).le⟩

theorem within (h : Reports r a) (i : Nat) : Reports r fun p u => ∃ q, p = i :: q ∧ a q u := by
  cases r with
  | ok x =>
    rintro _ u ⟨q, rfl, hq⟩
    exact h q u hq
  | error u =>
    obtain ⟨p, hp, hfirst⟩ := h
    refine ⟨i :: p, ⟨p, rfl, hp⟩, ?_⟩
    rintro _ u' ⟨q, rfl, hq⟩
    rw [← not_lt, List.cons_lt_cons_iff]
    rintro (hlt | ⟨-, hlt⟩)
    · exact Nat.lt_irrefl i hlt
    · exact absurd hlt (not_lt.mpr (hfirst q u' hq))

end Reports

namespace Value

/-- The places in items that are numbered from a number on. -/
def ItemsHoldAt (start : Nat) (items : List Value) (p : List Nat) (u : Unsuitable) : Prop :=
  ∃ i v q, items[i]? = some v ∧ p = (start + i) :: q ∧ v.HoldsAt q u

/-- The places in entries that are numbered from a number on. -/
def EntriesHoldAt (start : Nat) (entries : List (Value × Value)) (p : List Nat) (u : Unsuitable) :
    Prop :=
  ∃ i k v, entries[i]? = some (k, v) ∧
    ((p = [2 * (start + i)] ∧ (∀ s, k ≠ string s) ∧ u = .key k) ∨
      ∃ q, p = (2 * (start + i) + 1) :: q ∧ v.HoldsAt q u)

theorem holdsAt_sequence_iff {items : List Value} {p : List Nat} {u : Unsuitable} :
    (sequence items).HoldsAt p u ↔ ItemsHoldAt 0 items p u := by
  constructor
  · intro h
    cases h with
    | @item _ i v q _ hitem h => exact ⟨i, v, q, hitem, by rw [Nat.zero_add], h⟩
  · rintro ⟨i, v, q, hitem, rfl, h⟩
    rw [Nat.zero_add]
    exact .item hitem h

theorem holdsAt_mapping_iff {entries : List (Value × Value)} {p : List Nat} {u : Unsuitable} :
    (mapping entries).HoldsAt p u ↔ EntriesHoldAt 0 entries p u := by
  constructor
  · intro h
    cases h with
    | @key _ i k v hentry hkey =>
      exact ⟨i, k, v, hentry, .inl ⟨by rw [Nat.zero_add], hkey, rfl⟩⟩
    | @value _ i k v q _ hentry h =>
      exact ⟨i, k, v, hentry, .inr ⟨q, by rw [Nat.zero_add], h⟩⟩
  · rintro ⟨i, k, v, hentry, ⟨rfl, hkey, rfl⟩ | ⟨q, rfl, h⟩⟩
    · rw [Nat.zero_add]
      exact .key hentry hkey
    · rw [Nat.zero_add]
      exact .value hentry h

theorem itemsHoldAt_cons {start : Nat} {v : Value} {rest : List Value} (p : List Nat)
    (u : Unsuitable) : ((∃ q, p = start :: q ∧ v.HoldsAt q u) ∨
      ItemsHoldAt (start + 1) rest p u) ↔ ItemsHoldAt start (v :: rest) p u := by
  constructor
  · rintro (⟨q, rfl, h⟩ | ⟨i, w, q, hitem, rfl, h⟩)
    · exact ⟨0, v, q, rfl, rfl, h⟩
    · exact ⟨i + 1, w, q, hitem, by rw [Nat.add_right_comm, Nat.add_assoc], h⟩
  · rintro ⟨_ | i, w, q, hitem, rfl, h⟩
    · cases hitem
      exact .inl ⟨q, rfl, h⟩
    · exact .inr ⟨i, w, q, hitem, by rw [Nat.add_right_comm, Nat.add_assoc], h⟩

theorem entriesHoldAt_cons {start : Nat} {key : String} {v : Value} {rest : List (Value × Value)}
    (p : List Nat) (u : Unsuitable) : ((∃ q, p = (2 * start + 1) :: q ∧ v.HoldsAt q u) ∨
      EntriesHoldAt (start + 1) rest p u) ↔ EntriesHoldAt start ((string key, v) :: rest) p u := by
  have hstart : ∀ i, start + 1 + i = start + (i + 1) := fun i => by omega
  constructor
  · rintro (⟨q, rfl, h⟩ | ⟨i, k, w, hentry, h⟩)
    · exact ⟨0, string key, v, rfl, .inr ⟨q, rfl, h⟩⟩
    · rw [hstart] at h
      exact ⟨i + 1, k, w, hentry, h⟩
  · rintro ⟨_ | i, k, w, hentry, h⟩
    · cases hentry
      rcases h with ⟨-, hkey, -⟩ | ⟨q, rfl, h⟩
      · exact absurd rfl (hkey key)
      · exact .inl ⟨q, rfl, h⟩
    · rw [← hstart] at h
      exact .inr ⟨i, k, w, hentry, h⟩

theorem reports_entriesToJson_of_key {start : Nat} {k v : Value} {rest : List (Value × Value)}
    (hkey : ∀ s, k ≠ string s) :
    Reports (entriesToJson ((k, v) :: rest)) (EntriesHoldAt start ((k, v) :: rest)) := by
  have herror : entriesToJson ((k, v) :: rest) = .error (.key k) := by
    cases k with
    | string s => exact absurd rfl (hkey s)
    | _ => rfl
  rw [herror]
  refine ⟨[2 * start], ⟨0, k, v, rfl, .inl ⟨rfl, hkey, rfl⟩⟩, ?_⟩
  have hle : ∀ n q, 2 * start ≤ n → [2 * start] ≤ n :: q := by
    intro n q hn
    rw [← not_lt, List.cons_lt_cons_iff]
    rintro (hlt | ⟨-, hlt⟩)
    · exact absurd hn (Nat.not_le.mpr hlt)
    · exact List.not_lt_nil q hlt
  rintro p u ⟨i, k', v', -, ⟨rfl, -⟩ | ⟨q, rfl, -⟩⟩
  · exact hle _ _ (by omega)
  · exact hle _ _ (by omega)

mutual

/-- **What the conversion of a value reports** is what stands at the first place. -/
theorem reports_toJson : (v : Value) → Reports v.toJson v.HoldsAt
  | null => fun _ _ h => nomatch h
  | bool _ => fun _ _ h => nomatch h
  | string _ => fun _ _ h => nomatch h
  | number (.integer _) => fun _ _ h => nomatch h
  | number (.real _) => fun _ _ h => nomatch h
  | number (.infinity b) => ⟨[], .infinity b, fun | _, _, .infinity _ => le_refl _⟩
  | number .notANumber => ⟨[], .notANumber, fun | _, _, .notANumber => le_refl _⟩
  | sequence items => by
    rw [toJson]
    exact ((reports_itemsToJson items 0).map _).congr fun _ _ => holdsAt_sequence_iff.symm
  | mapping entries => by
    rw [toJson]
    exact ((reports_entriesToJson entries 0).map _).congr fun _ _ => holdsAt_mapping_iff.symm
  | tagged tag v => by
    rw [toJson]
    exact (reports_toJson v).congr fun _ _ => ⟨.tagged, fun | .tagged h => h⟩

theorem reports_itemsToJson : (items : List Value) → (start : Nat) →
    Reports (itemsToJson items) (ItemsHoldAt start items)
  | [], _ => by
    rintro p u ⟨i, v, q, hitem, -⟩
    cases hitem
  | v :: rest, start => by
    rw [itemsToJson]
    have hrest := reports_itemsToJson rest (start + 1)
    refine (((reports_toJson v).within start).bind (fun j _ => hrest.map (j :: ·)) ?_).congr
      itemsHoldAt_cons
    rintro _ u _ u' ⟨q, rfl, -⟩ ⟨i, w, q', -, rfl, -⟩
    exact List.cons_lt_cons_iff.mpr (.inl (by omega))

theorem reports_entriesToJson : (entries : List (Value × Value)) → (start : Nat) →
    Reports (entriesToJson entries) (EntriesHoldAt start entries)
  | [], _ => by
    rintro p u ⟨i, k, v, hentry, -⟩
    cases hentry
  | (k, v) :: rest, start => by
    by_cases htext : ∃ key, k = string key
    · obtain ⟨key, rfl⟩ := htext
      rw [entriesToJson]
      have hrest := reports_entriesToJson rest (start + 1)
      refine (((reports_toJson v).within (2 * start + 1)).bind
        (fun j _ => hrest.map ((key, j) :: ·)) ?_).congr entriesHoldAt_cons
      rintro _ u _ u' ⟨q, rfl, -⟩ ⟨i, k, w, -, ⟨rfl, -⟩ | ⟨q', rfl, -⟩⟩ <;>
        exact List.cons_lt_cons_iff.mpr (.inl (by omega))
    · exact reports_entriesToJson_of_key fun s hs => htext ⟨s, hs⟩

end

theorem HoldsAt.unique {v : Value} {p : List Nat} {u u' : Unsuitable} (h : v.HoldsAt p u)
    (h' : v.HoldsAt p u') : u = u' := by
  induction h with
  | infinity => cases h'; rfl
  | notANumber => cases h'; rfl
  | item hitem _ ih =>
    cases h' with
    | item hitem' h' => exact ih (Option.some.inj (hitem.symm.trans hitem') ▸ h')
  | @key _ i k v hentry hkey =>
    obtain ⟨j, k', v', hentry', ⟨hp, -, rfl⟩ | ⟨q, hp, -⟩⟩ := holdsAt_mapping_iff.mp h'
    · have hij : i = j := by
        have := (List.cons.inj hp).1
        omega
      rw [hij, hentry'] at hentry
      cases hentry
      rfl
    · have := (List.cons.inj hp).1
      omega
  | @value _ i k v p u hentry _ ih =>
    obtain ⟨j, k', v', hentry', ⟨hp, -⟩ | ⟨q, hp, h'⟩⟩ := holdsAt_mapping_iff.mp h'
    · have := (List.cons.inj hp).1
      omega
    · have hij : i = j := by
        have := (List.cons.inj hp).1
        omega
      rw [hij, hentry'] at hentry
      cases hentry
      exact ih ((List.cons.inj hp).2 ▸ h')
  | tagged _ ih =>
    cases h' with
    | tagged h' => exact ih h'

/-- **The error** is for what stands at the first place. -/
theorem toJson_eq_error_iff {v : Value} {u : Unsuitable} : v.toJson = .error u ↔
    ∃ p, v.HoldsAt p u ∧ ∀ q u', v.HoldsAt q u' → p ≤ q := by
  have h := reports_toJson v
  constructor
  · intro hv
    rw [hv] at h
    exact h
  · rintro ⟨p, hp, hfirst⟩
    cases hv : v.toJson with
    | ok j =>
      rw [hv] at h
      exact absurd hp (h p u)
    | error u' =>
      rw [hv] at h
      obtain ⟨p', hp', hfirst'⟩ := h
      obtain rfl := le_antisymm (hfirst p' u' hp') (hfirst' p u hp)
      rw [hp.unique hp']

/-- A number that is not finite stands before a key under a tag, and that before its own value. -/
example : (mapping [(string "a", sequence [null, number .notANumber]),
    (tagged ['x'] (string "b"), number .notANumber)]).toJson = .error (.number .notANumber) := rfl

/-- An exclamation mark alone is a tag as any other, so a key under it is refused. -/
example : ((read "\x7b! a: []\x7d").bind fun v => match v.toJson with
    | .ok _ => none
    | .error u => some u.message) =
      some "mapping keys must be strings, got TaggedValue \x7b tag: !!, value: String(\"a\") \x7d" := by
  decide +kernel

theorem exists_toJson_iff {v : Value} : (∃ j, v.toJson = .ok j) ↔ ∀ p u, ¬ v.HoldsAt p u := by
  have h := reports_toJson v
  constructor
  · rintro ⟨j, hv⟩
    rw [hv] at h
    exact h
  · intro hno
    cases hv : v.toJson with
    | ok j => exact ⟨j, rfl⟩
    | error u =>
      obtain ⟨p, hp, -⟩ := toJson_eq_error_iff.mp hv
      exact absurd hp (hno p u)

/-! ## The data value -/

mutual

/-- **A value without its tags.** Numbers, flags and texts are what they were, the items of a list
are in their order, and a mapping has the values of all entries under their keys, in the order of the
keys. -/
inductive Untagged : Value → Json → Prop
  | null : Untagged null .null
  | bool (b : Bool) : Untagged (bool b) (.bool b)
  | integer (n : Int) : Untagged (number (.integer n)) (.number (.integer n))
  | real (x : Binary64) : Untagged (number (.real x)) (.number (.real x))
  | string (s : String) : Untagged (string s) (.string s)
  | sequence {items : List Value} {js : List Json} (h : UntaggedItems items js) :
    Untagged (sequence items) (.array js)
  | mapping {entries : List (Value × Value)} {fields sorted : List (String × Json)}
    (h : UntaggedEntries entries fields) (hperm : sorted.Perm fields)
    (hsorted : sorted.Pairwise fun f g => f.1 < g.1) : Untagged (mapping entries) (.object sorted)
  | tagged (tag : List Char) {v : Value} {j : Json} (h : Untagged v j) : Untagged (tagged tag v) j

/-- The items of a list without their tags. -/
inductive UntaggedItems : List Value → List Json → Prop
  | nil : UntaggedItems [] []
  | cons {v : Value} {j : Json} {items : List Value} {js : List Json} (h : Untagged v j)
    (hrest : UntaggedItems items js) : UntaggedItems (v :: items) (j :: js)

/-- The entries of a mapping without the tags of their values. -/
inductive UntaggedEntries : List (Value × Value) → List (String × Json) → Prop
  | nil : UntaggedEntries [] []
  | cons (key : String) {v : Value} {j : Json} {entries : List (Value × Value)}
    {fields : List (String × Json)} (h : Untagged v j) (hrest : UntaggedEntries entries fields) :
    UntaggedEntries ((.string key, v) :: entries) ((key, j) :: fields)

end

mutual

/-- **Values that repeat no key**: in no mapping of the value a key equals an earlier one. -/
def HasDistinctKeys : Value → Prop
  | sequence items => AllHaveDistinctKeys items
  | mapping entries =>
    (entries.map Prod.fst).Pairwise (fun k k' => k'.same k = false) ∧ EntriesHaveDistinctKeys entries
  | tagged _ v => HasDistinctKeys v
  | null => True
  | bool _ => True
  | number _ => True
  | string _ => True

/-- All items repeat no key. -/
def AllHaveDistinctKeys : List Value → Prop
  | [] => True
  | v :: rest => HasDistinctKeys v ∧ AllHaveDistinctKeys rest

/-- The values of all entries repeat no key. -/
def EntriesHaveDistinctKeys : List (Value × Value) → Prop
  | [] => True
  | (_, v) :: rest => HasDistinctKeys v ∧ EntriesHaveDistinctKeys rest

end

mutual

theorem untagged_of_toJson : (v : Value) → {j : Json} → v.HasDistinctKeys → v.toJson = .ok j →
    Untagged v j
  | null, _, _, .refl _ => .null
  | bool b, _, _, .refl _ => .bool b
  | string s, _, _, .refl _ => .string s
  | number (.integer n), _, _, .refl _ => .integer n
  | number (.real x), _, _, .refl _ => .real x
  | sequence items, _, hdistinct, h => by
    obtain ⟨js, hjs, rfl⟩ := map_eq_ok.mp h
    exact .sequence (untaggedItems_of_itemsToJson items hdistinct hjs)
  | mapping entries, _, hdistinct, h => by
    obtain ⟨fields, hfields, rfl⟩ := map_eq_ok.mp h
    exact .mapping (untaggedEntries_of_entriesToJson entries hdistinct.2 hfields)
      (Json.perm_sortFields (nodup_of_entriesToJson hdistinct.1 hfields))
      (Json.pairwise_sortFields fields)
  | tagged tag v, _, hdistinct, h => .tagged tag (untagged_of_toJson v hdistinct h)

theorem untaggedItems_of_itemsToJson : (items : List Value) → {js : List Json} →
    AllHaveDistinctKeys items → itemsToJson items = .ok js → UntaggedItems items js
  | [], _, _, .refl _ => .nil
  | v :: rest, _, ⟨hv, hrest⟩, h => by
    obtain ⟨j, hj, h⟩ := bind_eq_ok.mp h
    obtain ⟨js, hjs, heq⟩ := bind_eq_ok.mp h
    cases heq
    exact .cons (untagged_of_toJson v hv hj) (untaggedItems_of_itemsToJson rest hrest hjs)

theorem untaggedEntries_of_entriesToJson : (entries : List (Value × Value)) →
    {fields : List (String × Json)} → EntriesHaveDistinctKeys entries →
    entriesToJson entries = .ok fields → UntaggedEntries entries fields
  | [], _, _, .refl _ => .nil
  | (k, v) :: rest, _, ⟨hv, hrest⟩, h => by
    obtain ⟨key, j, others, rfl, hj, hothers, rfl⟩ := entriesToJson_cons_eq_ok_iff.mp h
    exact .cons key (untagged_of_toJson v hv hj)
      (untaggedEntries_of_entriesToJson rest hrest hothers)

end

mutual

theorem toJson_of_untagged : (v : Value) → {j : Json} → Untagged v j → v.toJson = .ok j
  | null, _, .null => rfl
  | bool _, _, .bool _ => rfl
  | string _, _, .string _ => rfl
  | number _, _, .integer _ => rfl
  | number _, _, .real _ => rfl
  | sequence items, _, .sequence h => by
    rw [toJson, itemsToJson_of_untagged items h]
    rfl
  | mapping entries, _, .mapping h hperm hsorted => by
    rw [toJson, entriesToJson_of_untagged entries h, ← Json.sortFields_eq_of_perm hperm hsorted]
    rfl
  | tagged _ v, _, .tagged _ h => toJson_of_untagged v h

theorem itemsToJson_of_untagged : (items : List Value) → {js : List Json} →
    UntaggedItems items js → itemsToJson items = .ok js
  | [], _, .nil => rfl
  | v :: rest, _, .cons h hrest => by
    rw [itemsToJson, toJson_of_untagged v h, itemsToJson_of_untagged rest hrest]
    rfl

theorem entriesToJson_of_untagged : (entries : List (Value × Value)) →
    {fields : List (String × Json)} → UntaggedEntries entries fields →
    entriesToJson entries = .ok fields
  | [], _, .nil => rfl
  | (_, v) :: rest, _, .cons _ h hrest => by
    rw [entriesToJson, toJson_of_untagged v h, entriesToJson_of_untagged rest hrest]
    rfl

end

/-- **The data value** is the value without its tags. -/
theorem toJson_eq_ok_iff {v : Value} (hdistinct : v.HasDistinctKeys) {j : Json} :
    v.toJson = .ok j ↔ Untagged v j :=
  ⟨untagged_of_toJson v hdistinct, toJson_of_untagged v⟩

end Value

/-! ## What is read -/

section Read

variable {read : Reading Value} {jumps left : Nat}

theorem hasDistinctKeys_of_scalarValue {tag : Option TagText} {style : Style} {text : String}
    {v : Value} (h : scalarValue tag style text = some v) : v.HasDistinctKeys := by
  obtain rfl | ⟨b, rfl⟩ | ⟨x, rfl⟩ | rfl := scalarValue_cases h <;> trivial

section Content

variable (hread : ∀ jumps n v left, read jumps n = some (v, left) → v.HasDistinctKeys)

include hread

theorem allHaveDistinctKeys_of_eachItem {nodes : List (Node Nat)} {items : List Value}
    (h : eachItem read jumps nodes = some (items, left)) : Value.AllHaveDistinctKeys items := by
  induction nodes generalizing jumps items with
  | nil =>
    cases h
    trivial
  | cons n rest ih =>
    obtain ⟨⟨v, jumps'⟩, hv, h⟩ := Option.bind_eq_some_iff.mp h
    obtain ⟨⟨vs, left'⟩, hvs, heq⟩ := Option.bind_eq_some_iff.mp h
    cases heq
    exact ⟨hread _ _ _ _ hv, ih hvs⟩

theorem entriesHaveDistinctKeys_of_eachEntry {met : List Value}
    {nodes : List (Node Nat × Node Nat)} {entries : List (Value × Value)}
    (h : eachEntry read met jumps nodes = some (entries, left)) :
    Value.EntriesHaveDistinctKeys entries := by
  induction nodes generalizing met jumps entries with
  | nil =>
    cases h
    trivial
  | cons e rest ih =>
    obtain ⟨k, n⟩ := e
    obtain ⟨key, jumps₁, value, jumps₂, others, -, -, hvalue, hothers, rfl⟩ :=
      eachEntry_cons_eq_some_iff.mp h
    exact ⟨hread _ _ _ _ hvalue, ih hothers⟩

end Content

theorem hasDistinctKeys_of_contentOf {inner : Option (Reading Value)}
    (hinner : ∀ read ∈ inner, ∀ jumps n v left,
      read jumps n = some (v, left) → v.HasDistinctKeys)
    {n : Node Nat} {v : Value} (h : contentOf inner jumps n = some (v, left)) :
    v.HasDistinctKeys := by
  cases n with
  | scalar anchor tag style text =>
    obtain ⟨w, hw, heq⟩ := Option.map_eq_some_iff.mp h
    cases heq
    exact hasDistinctKeys_of_scalarValue hw
  | sequence anchor tag nodes =>
    obtain ⟨read, hread, h⟩ := Option.bind_eq_some_iff.mp h
    obtain ⟨⟨items, left'⟩, hitems, heq⟩ := Option.bind_eq_some_iff.mp h
    cases heq
    exact allHaveDistinctKeys_of_eachItem (hinner read hread) hitems
  | mapping anchor tag nodes =>
    obtain ⟨read, hread, h⟩ := Option.bind_eq_some_iff.mp h
    obtain ⟨⟨entries, left'⟩, hentries, heq⟩ := Option.bind_eq_some_iff.mp h
    cases heq
    exact ⟨(pairwise_of_eachEntry hentries).1,
      entriesHaveDistinctKeys_of_eachEntry (hinner read hread) hentries⟩
  | reference i => cases h

theorem hasDistinctKeys_of_valueWith {d : Document} {inner : Option (Reading Value)}
    (hinner : ∀ read ∈ inner, ∀ jumps n v left,
      read jumps n = some (v, left) → v.HasDistinctKeys)
    {n : Node Nat} {v : Value} (h : valueWith d inner jumps n = some (v, left)) :
    v.HasDistinctKeys := by
  obtain ⟨m, jumps', w, -, hw, rfl⟩ := valueWith_eq_some_iff.mp h
  have hdistinct := hasDistinctKeys_of_contentOf hinner hw
  cases localTag? m.tag? with
  | none => exact hdistinct
  | some tag => exact hdistinct

theorem hasDistinctKeys_of_valueAt {d : Document} {depth : Nat} {n : Node Nat} {v : Value}
    (h : valueAt d depth jumps n = some (v, left)) : v.HasDistinctKeys := by
  induction depth generalizing jumps n v left with
  | zero => exact hasDistinctKeys_of_valueWith (fun read hread => absurd hread (Option.not_mem_none read)) h
  | succ depth ih =>
    refine hasDistinctKeys_of_valueWith (fun read hread jumps n v left hv => ?_) h
    cases hread
    exact ih hv

/-- **What is read repeats no key.** -/
theorem hasDistinctKeys_of_read {text : String} {v : Value} (h : Yaml.read text = some v) :
    v.HasDistinctKeys := by
  obtain ⟨d, -, h⟩ := Option.bind_eq_some_iff.mp h
  cases d with
  | none =>
    cases h
    trivial
  | some d =>
    obtain ⟨⟨w, left⟩, hw, rfl⟩ := Option.map_eq_some_iff.mp h
    exact hasDistinctKeys_of_valueAt hw

end Read

namespace Value

/-! ## Data values as YAML values -/

mutual

/-- **A data value as a YAML value.** -/
def ofJson : Json → Value
  | .null => null
  | .bool b => bool b
  | .number (.integer n) => number (.integer n)
  | .number (.real x) => number (.real x)
  | .string s => string s
  | .array items => sequence (ofItems items)
  | .object fields => mapping (ofFields fields)

/-- The items of a list as YAML values. -/
def ofItems : List Json → List Value
  | [] => []
  | j :: rest => ofJson j :: ofItems rest

/-- The fields of a mapping as entries. -/
def ofFields : List (String × Json) → List (Value × Value)
  | [] => []
  | (key, j) :: rest => (string key, ofJson j) :: ofFields rest

end

mutual

/-- **A data value is converted back**, its fields in the order of their keys. -/
theorem toJson_ofJson : (j : Json) → (ofJson j).toJson = .ok j.sorted
  | .null => rfl
  | .bool _ => rfl
  | .number (.integer _) => rfl
  | .number (.real _) => rfl
  | .string _ => rfl
  | .array items => by
    rw [ofJson, toJson, itemsToJson_ofItems items]
    rfl
  | .object fields => by
    rw [ofJson, toJson, entriesToJson_ofFields fields]
    rfl

theorem itemsToJson_ofItems : (items : List Json) →
    itemsToJson (ofItems items) = .ok (Json.sortedItems items)
  | [] => rfl
  | j :: rest => by
    rw [ofItems, itemsToJson, toJson_ofJson j, itemsToJson_ofItems rest]
    rfl

theorem entriesToJson_ofFields : (fields : List (String × Json)) →
    entriesToJson (ofFields fields) = .ok (Json.sortedFields fields)
  | [] => rfl
  | (key, j) :: rest => by
    rw [ofFields, entriesToJson, toJson_ofJson j, entriesToJson_ofFields rest]
    rfl

end

end Value

/-! ## The conversion -/

/-- **The conversion of YAML values.**

* It fails exactly for values that hold something that no data value can hold, whatever it is nested
  in, and the error is for what stands at the first place.
* What it gives of a value that repeats no key, as every value that is read, is the value without its
  tags.
* A data value whose fields are in the order of their keys is converted back. -/
theorem conversion :
    (∀ v : Value, (∃ j, v.toJson = .ok j) ↔ ∀ p u, ¬ v.HoldsAt p u) ∧
    (∀ (v : Value) (u : Unsuitable), v.toJson = .error u ↔
      ∃ p, v.HoldsAt p u ∧ ∀ q u', v.HoldsAt q u' → p ≤ q) ∧
    (∀ (v : Value) (j : Json), v.HasDistinctKeys → (v.toJson = .ok j ↔ v.Untagged j)) ∧
    (∀ (text : String) (v : Value), read text = some v → v.HasDistinctKeys) ∧
    ∀ j : Json, j.sorted = j → (Value.ofJson j).toJson = .ok j :=
  ⟨fun _ => Value.exists_toJson_iff, fun _ _ => Value.toJson_eq_error_iff,
    fun _ _ hdistinct => Value.toJson_eq_ok_iff hdistinct, fun _ _ => hasDistinctKeys_of_read,
    fun j hj => (Value.toJson_ofJson j).trans (congrArg _ hj)⟩

/-- A mapping with tags, whose keys are not in their order. -/
def taggedEntries : List (Value × Value) :=
  [(.string "b", .tagged ['x'] (.sequence [.number (.integer 1), .tagged ['y'] .null])),
    (.string "a", .bool true)]

theorem conversion_taggedEntries :
    let v : Value := .mapping taggedEntries
    let j : Json := .object [("a", .bool true), ("b", .array [.number (.integer 1), .null])]
    v.HasDistinctKeys ∧ v.toJson = .ok j ∧ v.Untagged j ∧
    (∃ w, read "b: !x [1, !y ~]\na: true" = some w ∧ w.HasDistinctKeys) ∧
    j.sorted = j ∧ (Value.ofJson j).toJson = .ok j := by
  intro v j
  have hdistinct : v.HasDistinctKeys :=
    ⟨by decide, ⟨trivial, trivial, trivial⟩, trivial, trivial⟩
  have hv : v.toJson = .ok j := rfl
  obtain ⟨w, hw⟩ : ∃ w, read "b: !x [1, !y ~]\na: true" = some w :=
    Option.isSome_iff_exists.mp (by decide +kernel)
  have hsorted : j.sorted = j := rfl
  obtain ⟨-, -, hvalue, hread, hback⟩ := conversion
  exact ⟨hdistinct, hv, (hvalue v j hdistinct).mp hv, ⟨w, hw, hread _ w hw⟩, hsorted,
    hback j hsorted⟩

end Methodology.Yaml
