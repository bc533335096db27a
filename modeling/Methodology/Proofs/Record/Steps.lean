import Methodology.Proofs.Result
import Methodology.Record.OfValue
import Methodology.Record.OfYaml

/-!
# The steps of reading a record

What each step does when it succeeds, so that no later proof takes the readers apart.

* `Field.IsHeld`: the slot of a field, which is written or left out.
* `Row.put_cons_eq_ok`, `Row.complete_cons_eq_ok`: a field that is met, and the end of the record.
* `Row.put_eq_ok_congr`: a field that is met is put in its slot, whatever it is read from.
* `Record.rowOfFields_cons_eq_ok`, `Record.ofItems_cons_eq_ok`: one field of a mapping and one item
  of a list.
* `textFromNode_eq_some_iff`, `checkedFromNode_eq_some_iff`: the text of a node.
* `Record.rowFromEntries_cons_eq_some_iff`: one entry of a document.
-/

namespace Methodology

open Result Yaml

/-- What a slot holds of a field that is written, or is left out. -/
def Field.IsHeld (f : Field) (slot : f.Slot) : Option Json → Prop
  | some value => f.ofValue value = .ok slot
  | none => f.absent? = some slot

namespace Row

section

variable {ε σ : Type} {duplicate : Field → ε} {read : (f : Field) → Except ε (f.Slot × σ)}
  {name : String}

/-- **A field that is met** fills its slot, which was empty, and no other. -/
theorem put_cons_eq_ok {f : Field} {fs : List Field} {slot : Option f.Slot} {row : Row fs}
    {row' : Row (f :: fs)} {r : σ}
    (h : Row.put duplicate read name (f :: fs) (slot, row) = some (.ok (row', r))) :
    (f.name = name ∧ slot = none ∧ ∃ v, read f = .ok (v, r) ∧ row' = (some v, row)) ∨
      (f.name ≠ name ∧ ∃ rest, Row.put duplicate read name fs row = some (.ok (rest, r)) ∧
        row' = (slot, rest)) := by
  simp only [Row.put] at h
  split at h
  · next hname =>
    cases slot with
    | some v => cases h
    | none =>
      obtain ⟨⟨v, _⟩, hv, heq⟩ := map_eq_ok.mp (Option.some.inj h)
      cases heq
      exact .inl ⟨hname, rfl, v, hv, rfl⟩
  · next hname =>
    obtain ⟨found, hfound, heq⟩ := Option.map_eq_some_iff.mp h
    obtain ⟨⟨rest, _⟩, hrest, heq⟩ := map_eq_ok.mp heq
    cases heq
    exact .inr ⟨hname, rest, hrest ▸ hfound, rfl⟩

theorem mem_names_of_put {fs : List Field} {row row' : Row fs} {r : σ}
    (h : Row.put duplicate read name fs row = some (.ok (row', r))) : name ∈ fs.map Field.name := by
  induction fs with
  | nil => cases h
  | cons f fs ih =>
    rcases put_cons_eq_ok h with ⟨hname, -⟩ | ⟨-, rest, hrest, -⟩
    · exact List.mem_cons.mpr (.inl hname.symm)
    · exact List.mem_cons_of_mem _ (ih hrest)

end

section

variable {ε ε' σ σ' : Type} {read : (f : Field) → Except ε (f.Slot × σ)}
  {read' : (f : Field) → Except ε' (f.Slot × σ')} {name : String} {r : σ} {r' : σ'}

theorem exists_read_of_put {duplicate : Field → ε} {fs : List Field} {row row' : Row fs}
    (h : Row.put duplicate read name fs row = some (.ok (row', r))) :
    ∃ f ∈ fs, f.name = name ∧ ∃ v, read f = .ok (v, r) := by
  induction fs with
  | nil => cases h
  | cons f fs ih =>
    rcases put_cons_eq_ok h with ⟨hname, -, v, hv, -⟩ | ⟨-, rest, hrest, -⟩
    · exact ⟨f, List.mem_cons_self, hname, v, hv⟩
    · obtain ⟨g, hg, hread⟩ := ih hrest
      exact ⟨g, List.mem_cons_of_mem f hg, hread⟩

theorem put_eq_ok_of (duplicate : Field → ε) (duplicate' : Field → ε') {fs : List Field}
    (hread : ∀ f ∈ fs, f.name = name → ∀ v, read f = .ok (v, r) → read' f = .ok (v, r'))
    {row row' : Row fs} (h : Row.put duplicate read name fs row = some (.ok (row', r))) :
    Row.put duplicate' read' name fs row = some (.ok (row', r')) := by
  induction fs with
  | nil => cases h
  | cons f fs ih =>
    obtain ⟨slot, row⟩ := row
    rcases put_cons_eq_ok h with ⟨hname, rfl, v, hv, rfl⟩ | ⟨hname, rest, hrest, rfl⟩
    · simp only [Row.put, if_pos hname, hread f List.mem_cons_self hname v hv, map_ok]
    · have hput := ih (fun g hg => hread g (List.mem_cons_of_mem f hg)) hrest
      simp only [Row.put, if_neg hname, hput, Option.map_some, map_ok]

/-- **A field that is met** fills its slot with what is read, whatever it is read from. -/
theorem put_eq_ok_congr (duplicate : Field → ε) (duplicate' : Field → ε') {fs : List Field}
    (hread : ∀ f ∈ fs, f.name = name → ∀ v, read f = .ok (v, r) ↔ read' f = .ok (v, r'))
    {row row' : Row fs} : Row.put duplicate read name fs row = some (.ok (row', r)) ↔
      Row.put duplicate' read' name fs row = some (.ok (row', r')) :=
  ⟨put_eq_ok_of duplicate duplicate' fun f hf hname v => (hread f hf hname v).mp,
    put_eq_ok_of duplicate' duplicate fun f hf hname v => (hread f hf hname v).mpr⟩

end

/-- **At the end of the record** an empty slot is left out. -/
theorem complete_cons_eq_ok {f : Field} {fs : List Field} {slot : Option f.Slot} {row : Row fs}
    {record : Filled (f :: fs)} (h : Row.complete (f :: fs) (slot, row) = .ok record) :
    ∃ v rest, slot.or f.absent? = some v ∧ Row.complete fs row = .ok rest ∧
      record = (v, rest) := by
  rw [Row.complete] at h
  split at h
  · next v hv =>
    obtain ⟨rest, hrest, heq⟩ := map_eq_ok.mp h
    exact ⟨v, rest, hv, hrest, heq.symm⟩
  · cases h

end Row

namespace Record

theorem rowOfFields_cons_eq_ok {s : Schema} {key : String} {value : Json}
    {fields : List (String × Json)} {row row' : Row s.fields}
    (h : rowOfFields s row ((key, value) :: fields) = .ok row') :
    ∃ row₁, row.put (fun f => Misread.duplicateField f.name)
        (fun f => (f.ofValue value).map fun v => (v, ())) key s.fields = some (.ok (row₁, ())) ∧
      rowOfFields s row₁ fields = .ok row' := by
  rw [rowOfFields] at h
  split at h
  · cases h
  · cases h
  · next row₁ _ hput => exact ⟨row₁, hput, h⟩

theorem ofItems_cons_eq_ok {noun : String} {place : Nat} {f : Field} {fs : List Field}
    {items left : List Json} {record : Filled (f :: fs)}
    (h : ofItems noun place (f :: fs) items = .ok (record, left)) :
    ∃ v rest, f.IsHeld v items.head? ∧
      ofItems noun (place + 1) fs items.tail = .ok (rest, left) ∧ record = (v, rest) := by
  cases items with
  | nil =>
    rw [ofItems] at h
    split at h
    · next v hv =>
      obtain ⟨⟨rest, _⟩, hrest, heq⟩ := map_eq_ok.mp h
      cases heq
      exact ⟨v, rest, hv, hrest, rfl⟩
    · cases h
  | cons item items =>
    rw [ofItems] at h
    obtain ⟨v, hv, h⟩ := bind_eq_ok.mp h
    obtain ⟨⟨rest, _⟩, hrest, heq⟩ := bind_eq_ok.mp h
    cases heq
    exact ⟨v, rest, hv, hrest, rfl⟩

end Record

/-! ## Documents -/

section

variable {d : Document} {jumps left : Nat} {n : Node Nat}

/-- **The text of a node** is that of the scalar it leads to. -/
theorem textFromNode_eq_some_iff {s : String} : textFromNode d jumps n = some (s, left) ↔
    ∃ anchor tag style, d.follow jumps n = some (.scalar anchor tag style s, left) := by
  rw [textFromNode]
  constructor
  · intro h
    obtain ⟨⟨m, left'⟩, hm, h⟩ := Option.bind_eq_some_iff.mp h
    cases m with
    | scalar anchor tag style text =>
      cases h
      exact ⟨anchor, tag, style, hm⟩
    | _ => cases h
  · rintro ⟨anchor, tag, style, hm⟩
    exact Option.bind_eq_some_iff.mpr ⟨_, hm, rfl⟩

theorem checkedFromNode_eq_some_iff {α ε : Type} {read : String → Except ε α} {a : α} :
    checkedFromNode read d jumps n = some (a, left) ↔
      ∃ s, textFromNode d jumps n = some (s, left) ∧ read s = .ok a := by
  rw [checkedFromNode]
  constructor
  · intro h
    obtain ⟨⟨s, left'⟩, hs, h⟩ := Option.bind_eq_some_iff.mp h
    simp only at h
    split at h
    · next hread =>
      cases h
      exact ⟨s, hs, hread⟩
    · cases h
  · rintro ⟨s, hs, hread⟩
    refine Option.bind_eq_some_iff.mpr ⟨_, hs, ?_⟩
    simp only [hread]

end

namespace Record

variable {d : Document} {s : Schema} {jumps : Nat}

/-- What a field holds that is read from a node. -/
def readNode (d : Document) (jumps : Nat) (n : Node Nat) (f : Field) : Except Unit (f.Slot × Nat) :=
  match f.fromNode d jumps n with
  | some r => .ok r
  | none => .error ()

theorem readNode_eq_ok_iff {n : Node Nat} {f : Field} {r : f.Slot × Nat} :
    readNode d jumps n f = .ok r ↔ f.fromNode d jumps n = some r := by
  rw [readNode]
  split
  · next h => rw [h, Except.ok.injEq, Option.some.injEq]
  · next h => rw [h]; exact ⟨fun h => (nomatch h), fun h => (nomatch h)⟩

theorem rowFromEntries_cons {k v : Node Nat} {rest : List (Node Nat × Node Nat)}
    {row : Row s.fields} : rowFromEntries d s row jumps ((k, v) :: rest) =
      (textFromNode d jumps k).bind fun (key, jumps) =>
        match Row.put (fun _ => ()) (readNode d jumps v) key s.fields row with
        | some (.ok (row, jumps)) => rowFromEntries d s row jumps rest
        | _ => none := rfl

theorem rowFromEntries_cons_eq_some_iff {k v : Node Nat} {rest : List (Node Nat × Node Nat)}
    {row row' : Row s.fields} : rowFromEntries d s row jumps ((k, v) :: rest) = some row' ↔
      ∃ key jumps₁ row₁ jumps₂, textFromNode d jumps k = some (key, jumps₁) ∧
        Row.put (fun _ => ()) (readNode d jumps₁ v) key s.fields row = some (.ok (row₁, jumps₂)) ∧
        rowFromEntries d s row₁ jumps₂ rest = some row' := by
  rw [rowFromEntries_cons]
  constructor
  · intro h
    obtain ⟨⟨key, jumps₁⟩, hkey, h⟩ := Option.bind_eq_some_iff.mp h
    simp only at h
    split at h
    · next row₁ jumps₂ hput => exact ⟨key, jumps₁, row₁, jumps₂, hkey, hput, h⟩
    · cases h
  · rintro ⟨key, jumps₁, row₁, jumps₂, hkey, hput, h⟩
    refine Option.bind_eq_some_iff.mpr ⟨_, hkey, ?_⟩
    simp only [hput, h]

end Record

end Methodology
