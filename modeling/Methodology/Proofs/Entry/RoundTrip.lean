import Methodology.Model
import Methodology.Proofs.Entry.WellFormed
import Methodology.Proofs.Instant.AsWritten
import Methodology.Proofs.Json.RoundTrip
import Methodology.Proofs.Uuid.RoundTrip

/-!
# Entries are read back

The data value of a well-formed entry, with its fields sorted as reading a text leaves them, gives a
draft that lacks nothing.

* `sorted_toJson`: the sorted fields of each kind of entry.
* `Entry.ReadsBack`: the data value gives the entry, and nothing is drawn for it.
* **`Modifier.readsBack`**, **`Category.readsBack`**, **`Action.readsBack`**,
  **`Script.readsBack`**, **`Stamp.readsBack`**.
* `Stamp.asWritten`: a stamp with the instant that its text names; **`Stamp.readsBack_asWritten`**.
-/

namespace Methodology

open Json Result

/-- An entry whose sorted data value is read as a draft that settles to the entry, with nothing
drawn. -/
def Entry.ReadsBack {α : Type} [Entry α] (a : α) : Prop :=
  ∃ d, Entry.ofValue α (Entry.toJson a).sorted = .ok d ∧
    ∀ fresh, Entry.settle d fresh = (a, fresh)

theorem Uuid.ofValue_toText (u : Uuid) : Uuid.ofValue (.string u.toText) = .ok u := by
  rw [Uuid.ofValue, textOfValue, ok_bind, Uuid.read_toText]
  rfl

theorem Instant.ofValue_toText {t : Instant} (h : t.IsProper) (hyear : t.HasPlainYear) :
    Instant.ofValue (.string t.toText) = .ok t := by
  rw [Instant.ofValue, textOfValue, ok_bind, Instant.read_toText h hyear]
  rfl

theorem Term.ofValue_toJson (t : Term) : Term.ofValue t.toJson = .ok t := by
  cases t <;> rfl

/-! ## Modifiers -/

theorem Modifier.sorted_toJson (m : Modifier) :
    m.toJson.sorted = .object [("name", .string m.name), ("title", .string m.title)] := by
  simp only [Modifier.toJson, sorted, sortedFields, sortFields, List.foldl, insertField,
    String.reduceEq, String.reduceLT, reduceIte]

theorem Modifier.record_toJson (m : Modifier) :
    Record.ofValue Modifier.schema m.toJson.sorted = .ok (m.name, m.title, ()) := by
  rw [m.sorted_toJson]
  rfl

theorem Modifier.readsBack {m : Modifier} (h : m.IsWellFormed) : Entry.ReadsBack m := by
  refine ⟨m, ?_, fun _ => rfl⟩
  rw [Entry.ofValue]
  change (Record.ofValue Modifier.schema m.toJson.sorted >>= _) = _
  rw [m.record_toJson, ok_bind]
  change (make m.name m.title).mapError _ = _
  rw [h.make_eq]
  rfl

/-! ## Categories -/

theorem Category.sorted_toJson (c : Category) : c.toJson.sorted =
    .object (textField "description" c.description ++
      [("name", c.name.toJson), ("uuid", .string c.uuid.toText)]) := by
  have hname : c.name.toJson.sorted = c.name.toJson := by cases c.name <;> rfl
  cases hd : c.description <;>
    simp only [Category.toJson, textField, hd, hname, List.append_nil, List.nil_append,
      List.cons_append, sorted, sortedFields, sortFields, List.foldl, insertField,
      String.reduceEq, String.reduceLT, reduceIte]

theorem Category.record_toJson (c : Category) :
    Record.ofValue Category.schema c.toJson.sorted =
      .ok (some c.uuid, c.name, c.description, ()) := by
  rw [c.sorted_toJson]
  cases hd : c.description <;>
    simp [textField, Record.ofValue, Record.ofFields, Record.rowOfFields, Row.put, Row.empty,
      Row.complete, Field.absent?, Field.ofValue, Field.Kind.ofValue, textOfValue,
      Term.ofValue_toJson, Uuid.ofValue_toText, ok_bind, map_ok]

theorem Category.readsBack {c : Category} (h : c.IsWellFormed) : Entry.ReadsBack c := by
  refine ⟨⟨some c.uuid, c.name, c.description⟩, ?_, fun _ => rfl⟩
  rw [Entry.ofValue]
  change (Record.ofValue Category.schema c.toJson.sorted >>= _) = _
  rw [c.record_toJson, ok_bind]
  change (Except.ok (Draft.make (some c.uuid) c.name c.description)).mapError _ = _
  rw [Draft.make, h.name.normalized_eq, map_trim_eq_self h.description]
  rfl

/-! ## Actions -/

theorem Action.sorted_toJson (a : Action) : a.toJson.sorted =
    .object [("description", .string a.description), ("name", .string a.name),
      ("structure", .string a.shape.word), ("title", .string a.title)] := by
  simp only [Action.toJson, sorted, sortedFields, sortFields, List.foldl, insertField,
    String.reduceEq, String.reduceLT, reduceIte]

theorem Action.record_toJson (a : Action) :
    Record.ofValue Action.schema a.toJson.sorted =
      .ok (a.name, a.title, a.description, some a.shape.word, ()) := by
  rw [a.sorted_toJson]
  rfl

theorem Shape.read_word (shape : Shape) : Shape.read shape.word = .ok shape := by
  cases shape <;> rfl

theorem Action.readsBack {a : Action} (h : a.IsWellFormed) : Entry.ReadsBack a := by
  refine ⟨a, ?_, fun _ => rfl⟩
  rw [Entry.ofValue]
  change (Record.ofValue Action.schema a.toJson.sorted >>= _) = _
  rw [a.record_toJson, ok_bind]
  change (make a.name a.title a.description a.shape.word).mapError _ = _
  rw [make, Shape.read_word, map_ok, h.ofParts_eq]
  rfl

/-! ## Scripts -/

theorem Script.sorted_toJson (s : Script) : s.toJson.sorted =
    .object [("script", .string s.text), ("uuid", .string s.uuid.toText)] := by
  simp only [Script.toJson, sorted, sortedFields, sortFields, List.foldl, insertField,
    String.reduceEq, String.reduceLT, reduceIte]

theorem Script.record_toJson (s : Script) :
    Record.ofValue Script.schema s.toJson.sorted = .ok (some s.uuid, s.text, ()) := by
  rw [s.sorted_toJson]
  simp [Record.ofValue, Record.ofFields, Record.rowOfFields, Row.put, Row.empty, Row.complete,
    Field.absent?, Field.ofValue, Field.Kind.ofValue, textOfValue, Uuid.ofValue_toText, ok_bind,
    map_ok]

theorem Script.readsBack (s : Script) : Entry.ReadsBack s := by
  refine ⟨⟨some s.uuid, s.text⟩, ?_, fun _ => rfl⟩
  rw [Entry.ofValue]
  change (Record.ofValue Script.schema s.toJson.sorted >>= _) = _
  rw [s.record_toJson]
  rfl

/-! ## Stamps -/

theorem Stamp.sorted_toJson (s : Stamp) : s.toJson.sorted =
    .object (textField "description" s.description ++ textField "name" s.name ++
      [("updated", .string s.updated.toText)]) := by
  cases hn : s.name <;> cases hd : s.description <;>
    simp only [Stamp.toJson, textField, hn, hd, List.append_nil, List.nil_append,
      List.cons_append, sorted, sortedFields, sortFields, List.foldl, insertField,
      String.reduceEq, String.reduceLT, reduceIte]

theorem Stamp.record_toJson (s : Stamp) : Record.ofValue Stamp.schema s.toJson.sorted =
    (Instant.ofValue (.string s.updated.toText)).map fun t =>
      (s.name, s.description, some t, ()) := by
  rw [s.sorted_toJson]
  cases hread : Instant.ofValue (.string s.updated.toText) <;> cases hn : s.name <;>
    cases hd : s.description <;>
    simp [textField, Record.ofValue, Record.ofFields, Record.rowOfFields, Row.put, Row.empty,
      Row.complete, Field.absent?, Field.ofValue, Field.Kind.ofValue, textOfValue, hread,
      Except.map, bind, Except.bind]

theorem Stamp.ofValue_sorted_toJson (s : Stamp) : Entry.ofValue Stamp s.toJson.sorted =
    (Instant.ofValue (.string s.updated.toText)).map fun t =>
      Draft.make s.name s.description (some t) := by
  rw [Entry.ofValue]
  change (Record.ofValue Stamp.schema s.toJson.sorted >>= _) = _
  rw [Stamp.record_toJson]
  cases Instant.ofValue (.string s.updated.toText) <;> rfl

/-- **A well-formed stamp is read back**, if its instant is. -/
theorem Stamp.readsBack {s : Stamp} (h : s.IsWellFormed) (hproper : s.updated.IsProper)
    (hyear : s.updated.HasPlainYear) : Entry.ReadsBack s := by
  refine ⟨⟨s.name, s.description, some s.updated⟩, ?_, fun _ => rfl⟩
  change Entry.ofValue Stamp s.toJson.sorted = _
  rw [s.ofValue_sorted_toJson, Instant.ofValue_toText hproper hyear, map_ok, h.draft_eq]

namespace Stamp

/-- A stamp with the instant that its text names. -/
def asWritten (s : Stamp) : Stamp := { s with updated := s.updated.asWritten }

theorem asWritten_eq_asWritten_iff {s s' : Stamp} :
    s.asWritten = s'.asWritten ↔ s.name = s'.name ∧ s.description = s'.description ∧
      s.updated.asWritten = s'.updated.asWritten := by
  rw [asWritten, asWritten, mk.injEq]

variable {s : Stamp}

theorem asWritten_eq_self_iff (h : s.updated.IsHeld) : s.asWritten = s ↔ s.updated.IsProper := by
  rw [← Instant.asWritten_eq_self_iff h]
  exact ⟨congrArg updated, fun heq => by rw [asWritten, heq]⟩

theorem toJson_asWritten (h : s.updated.IsHeld) : s.asWritten.toJson = s.toJson := by
  simp only [toJson, asWritten, Instant.toText_asWritten h]

theorem IsWellFormed.asWritten (h : s.IsWellFormed) : s.asWritten.IsWellFormed :=
  ⟨h.name, h.description⟩

/-- **A well-formed stamp is read back as it is written.** -/
theorem readsBack_asWritten (h : s.IsWellFormed) (hheld : s.updated.IsHeld)
    (hyear : s.updated.HasPlainYear) : Entry.ReadsBack s.asWritten :=
  readsBack h.asWritten (Instant.isProper_asWritten hheld)
    ((Instant.hasPlainYear_asWritten hheld).mpr hyear)

end Stamp

end Methodology
