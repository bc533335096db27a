import Methodology.Proofs.Entry.WellFormed
import Methodology.Proofs.Text.Lines
import Methodology.Proofs.Vocabulary.Violations

/-!
# Messages about data that does not fit

Which of the messages about an item have a line break. What stands in a document is quoted in them,
except for the name of a field that is unknown and a character that no uuid has.

* `Fails`: what holds of every failure of a step; `Fails.bind`, `Fails.map`, `Fails.mapError`.
* `Misread.IsPlain`: a failure whose wording has no line break; `Misread.IsForged`: one that repeats
  a line break of the document.
* `Misread.hasBreak_message_iff`: a message has a line break exactly if it repeats one.
* `Record.fails_ofValue`, `Entry.fails_ofValue`, `Section.fails_identityOf`: **the failures of
  reading** a record, an entry and an item.
* **`Section.hasBreak_message_iff`**: the messages about the items of a section.
-/

namespace Methodology

open Text Result

/-! ## Failures -/

section Failures

variable {ε ε' α β : Type}

/-- What holds of every failure of a step. -/
def Fails (P : ε → Prop) (x : Except ε α) : Prop := ∀ e, x = .error e → P e

theorem fails_ok (P : ε → Prop) (a : α) : Fails P (.ok a) := nofun

theorem fails_error {P : ε → Prop} {e : ε} (h : P e) : Fails P (.error e : Except ε α) := by
  intro e' he
  cases he
  exact h

theorem Fails.bind {P : ε → Prop} {x : Except ε α} {f : α → Except ε β} (hx : Fails P x)
    (hf : ∀ a, Fails P (f a)) : Fails P (x >>= f) := by
  cases x with
  | error e => exact fails_error (hx e rfl)
  | ok a => exact hf a

theorem Fails.map {P : ε → Prop} {x : Except ε α} (hx : Fails P x) (f : α → β) :
    Fails P (x.map f) := fun e he => hx e (map_eq_error.mp he)

theorem Fails.mapError {P : ε' → Prop} {f : ε → ε'} {x : Except ε α}
    (hx : Fails (fun e => P (f e)) x) : Fails P (x.mapError f) := by
  cases x with
  | error e => exact fails_error (hx e rfl)
  | ok a => exact fails_ok P a

end Failures

/-! ## Wordings -/

theorem Found.not_hasBreak_message (f : Found) : ¬ HasBreak f.message := by
  have hwords : ¬ HasBreak "integer `" ∧ ¬ HasBreak "floating point `" ∧ ¬ HasBreak "`" ∧
      ¬ HasBreak "string " := by simp [HasBreak]
  unfold message
  cases f with
  | bool b => cases b <;> simp [HasBreak]
  | number n => cases n <;> simp [hwords]
  | string s => simp [hwords]
  | _ => simp [HasBreak]

theorem Uuid.Malformed.hasBreak_message_iff (e : Uuid.Malformed) :
    HasBreak e.message ↔ ∃ index, e = .character '\n' index := by
  have hwords : ¬ HasBreak "invalid character: found `" ∧ ¬ HasBreak "` at " ∧
      ¬ HasBreak "invalid length: found " ∧
      ¬ HasBreak "invalid group count: expected 5, found " ∧
      ¬ HasBreak "invalid group length in group " ∧ ¬ HasBreak ": expected " ∧
      ¬ HasBreak ", found " := by simp [HasBreak]
  have hchar : ∀ c : Char, HasBreak c.toString ↔ c = '\n' := by
    intro c
    rw [HasBreak, Char.toString_eq_singleton, String.toList_singleton, List.mem_singleton, eq_comm]
  unfold Uuid.Malformed.message
  cases e with
  | character c index =>
    simp only [hasBreak_append, hwords, hchar, not_hasBreak_number, false_or, or_false,
      character.injEq, exists_and_left, exists_eq', and_true]
  | _ => simp [hwords]

theorem Instant.Malformed.not_hasBreak_message (e : Instant.Malformed) :
    ¬ HasBreak e.message := by
  cases e <;> decide

namespace FieldError

/-- A failed constraint whose reason is one of the readers. -/
def IsPlain : FieldError → Prop
  | uuid _ _ reason => ∃ e : Uuid.Malformed, reason = e.message
  | instant _ _ reason => ∃ e : Instant.Malformed, reason = e.message
  | _ => True

end FieldError

namespace Misread

/-- **A failure that reading an entry gives**, its wording being without line breaks. -/
def IsPlain : Misread → Prop
  | wrongType _ expected => ¬ HasBreak expected
  | wrongLength _ expected => ¬ HasBreak expected
  | unknownField _ known => ∀ name ∈ known, ¬ HasBreak name
  | missingField name => ¬ HasBreak name
  | duplicateField name => ¬ HasBreak name
  | field e => e.IsPlain
  | _ => False

/-- **A failure that repeats a line break of the document**: that of the name of a field that is
unknown, or one in place of a uuid's digit. -/
inductive IsForged : Misread → Prop
  | field {name : String} (h : HasBreak name) (known : List String) :
    IsForged (.unknownField name known)
  | uuid (field : FieldName) (value : String) (index : Nat) :
    IsForged (.field (.uuid field value (Uuid.Malformed.character '\n' index).message))

theorem hasBreak_marked {name : String} : HasBreak (marked name) ↔ HasBreak name := by
  have hmark : ¬ HasBreak "`" := by decide
  simp [marked, hmark]

theorem not_hasBreak_oneOf {names : List String} (h : ∀ name ∈ names, ¬ HasBreak name) :
    ¬ HasBreak (oneOf names) := by
  have hwords : ¬ HasBreak "expected " ∧ ¬ HasBreak " or " ∧ ¬ HasBreak "expected one of " := by
    simp [HasBreak]
  unfold oneOf
  split
  · decide
  · simp_all [hasBreak_marked]
  · simp_all [hasBreak_marked]
  · rw [hasBreak_append, not_or, hasBreak_intercalate (by decide)]
    refine ⟨hwords.2.2, ?_⟩
    rintro ⟨_, hmem, hbreak⟩
    obtain ⟨name, hname, rfl⟩ := List.mem_map.mp hmem
    exact h name hname (hasBreak_marked.mp hbreak)

end Misread

theorem FieldError.hasBreak_message_iff {e : FieldError} (h : e.IsPlain) :
    HasBreak e.message ↔ ∃ field value index,
      e = .uuid field value (Uuid.Malformed.character '\n' index).message := by
  have hfield : ∀ f : FieldName, ¬ HasBreak f.text := by
    intro f
    cases f <;> decide
  have hwords : ¬ HasBreak ": " ∧ ¬ HasBreak " (" ∧ ¬ HasBreak ")" ∧
      ¬ HasBreak "modifier name must be a single character, got " ∧
      ¬ HasBreak "structure must be boolean or unique, got " ∧ ¬ HasBreak "invalid uuid " ∧
      ¬ HasBreak "invalid timestamp " := by simp [HasBreak]
  unfold message complaint
  cases e with
  | modifierName name => simp [hfield, hwords]
  | shape word => simp [hfield, hwords]
  | uuid field value reason =>
    obtain ⟨e, rfl⟩ := h
    simp only [hasBreak_append, hfield, hwords, not_hasBreak_quoted, false_or, or_false]
    rw [e.hasBreak_message_iff]
    constructor
    · rintro ⟨index, rfl⟩
      exact ⟨field, value, index, rfl⟩
    · rintro ⟨_, _, index, heq⟩
      rw [uuid.injEq] at heq
      rw [← e.hasBreak_message_iff, heq.2.2, Uuid.Malformed.hasBreak_message_iff]
      exact ⟨index, rfl⟩
  | instant field value reason =>
    obtain ⟨e, rfl⟩ := h
    simp [hfield, hwords, e.not_hasBreak_message]

namespace Misread

/-- **A message has a line break** exactly if it repeats one of the document. -/
theorem hasBreak_message_iff {m : Misread} (h : m.IsPlain) : HasBreak m.message ↔ m.IsForged := by
  have hwords : ¬ HasBreak "invalid type: " ∧ ¬ HasBreak ", expected " ∧
      ¬ HasBreak "invalid length " ∧ ¬ HasBreak "unknown field " ∧ ¬ HasBreak ", " ∧
      ¬ HasBreak "missing field " ∧ ¬ HasBreak "duplicate field " := by simp [HasBreak]
  unfold message
  cases m with
  | wrongType found expected =>
    have hexpected : ¬ HasBreak expected := h
    exact iff_of_false (by simp [hwords, found.not_hasBreak_message, hexpected]) (by rintro ⟨⟩)
  | wrongLength length expected =>
    have hexpected : ¬ HasBreak expected := h
    exact iff_of_false (by simp [hwords, hexpected]) (by rintro ⟨⟩)
  | unknownField name known =>
    simp only [hasBreak_append, hwords, hasBreak_marked, not_hasBreak_oneOf h, false_or, or_false]
    refine ⟨fun hname => .field hname known, fun hforged => ?_⟩
    cases hforged
    assumption
  | missingField name =>
    have hname : ¬ HasBreak name := h
    exact iff_of_false (by simp [hwords, hasBreak_marked, hname]) (by rintro ⟨⟩)
  | duplicateField name =>
    have hname : ¬ HasBreak name := h
    exact iff_of_false (by simp [hwords, hasBreak_marked, hname]) (by rintro ⟨⟩)
  | field e =>
    simp only [FieldError.hasBreak_message_iff h]
    constructor
    · rintro ⟨field, value, index, rfl⟩
      exact .uuid field value index
    · intro hforged
      cases hforged with
      | uuid field value index => exact ⟨field, value, index, rfl⟩
  | _ => exact absurd h id

end Misread

/-! ## Reading entries -/

/-- The words of a record: those of its fields, and how messages call it. -/
structure Schema.IsPlain (s : Schema) : Prop where
  noun : ¬ HasBreak s.noun
  names : ∀ f ∈ s.fields, ¬ HasBreak f.name

theorem fails_textOfValue (v : Json) : Fails Misread.IsPlain (textOfValue v) := by
  have hword : ¬ HasBreak "a string" := by decide
  cases v with
  | string s => exact fails_ok _ s
  | _ => exact fails_error hword

theorem Term.fails_ofValue (v : Json) : Fails Misread.IsPlain (Term.ofValue v) := by
  have hnoun : ¬ HasBreak Term.noun := by decide
  cases v with
  | bool b => exact fails_ok _ _
  | string s => exact fails_ok _ _
  | _ => exact fails_error hnoun

theorem Uuid.fails_read (s : String) : Fails FieldError.IsPlain (Uuid.read s) :=
  Fails.mapError fun e _ => ⟨e, rfl⟩

theorem Instant.fails_read (s : String) : Fails FieldError.IsPlain (Instant.read s) :=
  Fails.mapError fun e _ => ⟨e, rfl⟩

theorem Field.Kind.fails_ofValue (k : Field.Kind) (v : Json) :
    Fails Misread.IsPlain (k.ofValue v) := by
  cases k with
  | text => exact fails_textOfValue v
  | term => exact Term.fails_ofValue v
  | uuid =>
    exact (fails_textOfValue v).bind fun s =>
      Fails.mapError (f := Misread.field) (Uuid.fails_read s)
  | instant =>
    exact (fails_textOfValue v).bind fun s =>
      Fails.mapError (f := Misread.field) (Instant.fails_read s)

theorem Field.fails_ofValue (f : Field) (v : Json) : Fails Misread.IsPlain (f.ofValue v) := by
  obtain ⟨name, kind, optional⟩ := f
  cases optional with
  | false => exact kind.fails_ofValue v
  | true =>
    cases v with
    | null => exact fails_ok _ none
    | _ => exact (kind.fails_ofValue _).map some

theorem Row.fails_put {ε σ : Type} {P : ε → Prop} {duplicate : Field → ε}
    {read : (f : Field) → Except ε (f.Slot × σ)} {name : String}
    (hread : ∀ f, Fails P (read f)) {fs : List Field} (hduplicate : ∀ f ∈ fs, P (duplicate f))
    {row : Row fs} {r : Except ε (Row fs × σ)} (h : row.put duplicate read name fs = some r) :
    Fails P r := by
  induction fs with
  | nil => cases h
  | cons f fs ih =>
    obtain ⟨slot, row⟩ := row
    obtain ⟨hf, hduplicate⟩ := List.forall_mem_cons.mp hduplicate
    simp only [Row.put] at h
    split at h
    · cases slot with
      | some v => exact Option.some.inj h ▸ fails_error hf
      | none => exact Option.some.inj h ▸ (hread f).map _
    · obtain ⟨found, hfound, rfl⟩ := Option.map_eq_some_iff.mp h
      exact (ih hduplicate hfound).map _

theorem Row.fails_complete {fs : List Field} (hnames : ∀ f ∈ fs, ¬ HasBreak f.name) (row : Row fs) :
    Fails Misread.IsPlain (Row.complete fs row) := by
  induction fs with
  | nil => exact fails_ok _ ()
  | cons f fs ih =>
    obtain ⟨slot, row⟩ := row
    obtain ⟨hname, hnames⟩ := List.forall_mem_cons.mp hnames
    rw [Row.complete]
    split
    · exact (ih hnames row).map _
    · exact fails_error hname

namespace Record

theorem fails_rowOfFields {s : Schema} (hs : s.IsPlain) (row : Row s.fields)
    (fields : List (String × Json)) : Fails Misread.IsPlain (rowOfFields s row fields) := by
  induction fields generalizing row with
  | nil => exact fails_ok _ row
  | cons f fields ih =>
    obtain ⟨key, value⟩ := f
    rw [rowOfFields]
    split
    · exact fails_error (List.forall_mem_map.mpr hs.names)
    · next e h =>
      exact fails_error (Row.fails_put (fun f => (f.fails_ofValue value).map _) hs.names h e rfl)
    · exact ih _

theorem fails_ofFields {s : Schema} (hs : s.IsPlain) (fields : List (String × Json)) :
    Fails Misread.IsPlain (ofFields s fields) :=
  (fails_rowOfFields hs _ fields).bind (Row.fails_complete hs.names)

theorem fails_ofItems {noun : String} (hnoun : ¬ HasBreak noun) (place : Nat) (fs : List Field)
    (items : List Json) : Fails Misread.IsPlain (ofItems noun place fs items) := by
  induction fs generalizing place items with
  | nil => exact fails_ok _ _
  | cons f fs ih =>
    cases items with
    | nil =>
      rw [ofItems]
      split
      · exact (ih _ []).map _
      · exact fails_error hnoun
    | cons item items =>
      refine (f.fails_ofValue item).bind fun v => (ih _ items).bind fun _ => fails_ok _ _

theorem fails_ofValue {s : Schema} (hs : s.IsPlain) (v : Json) :
    Fails Misread.IsPlain (ofValue s v) := by
  have hword : ¬ HasBreak "fewer elements in array" := by decide
  have hlist : ¬ HasBreak s.listNoun := by
    have hwords : ¬ HasBreak " with " ∧ ¬ HasBreak " element" ∧ ¬ HasBreak " elements" := by decide
    unfold Schema.listNoun
    split <;> simp [hwords, hs.noun]
  cases v with
  | object fields => exact fails_ofFields hs fields
  | array items =>
    refine (fails_ofItems hlist 0 s.fields items).bind fun r => ?_
    obtain ⟨row, left⟩ := r
    simp only
    split
    · exact fails_ok _ row
    · exact fails_error hword
  | _ => exact fails_error hs.noun

end Record

/-- **The failures of reading an entry**, if those of its constructor are worded by the readers. -/
theorem Entry.fails_ofValue {α : Type} [Entry α] (hschema : (Entry.schema α).IsPlain)
    (hbuild : ∀ record, Fails FieldError.IsPlain (Entry.build (α := α) record)) (v : Json) :
    Fails Misread.IsPlain (Entry.ofValue α v) :=
  (Record.fails_ofValue hschema v).bind fun record =>
    Fails.mapError (f := Misread.field) (hbuild record)

theorem Modifier.fails_make (name title : String) :
    Fails FieldError.IsPlain (Modifier.make name title) := by
  intro e he
  obtain ⟨rfl, -⟩ := Modifier.make_eq_error_iff.mp he
  trivial

theorem Action.fails_make (name title description word : String) :
    Fails FieldError.IsPlain (Action.make name title description word) := by
  refine Fails.map (fun e he => ?_) _
  rw [Shape.read] at he
  split at he
  · cases he
  · cases he
    trivial

/-- **The failures of reading an item** of a section. -/
theorem Section.fails_identityOf (s : Section) (v : Json) :
    Fails Misread.IsPlain (s.identityOf v) := by
  cases s with
  | history => exact (Entry.fails_ofValue ⟨by decide, by decide⟩ (fun _ => fails_ok _ _) v).map _
  | modifiers =>
    exact (Entry.fails_ofValue ⟨by decide, by decide⟩ (fun _ => Modifier.fails_make _ _) v).map _
  | categories => exact (Entry.fails_ofValue ⟨by decide, by decide⟩ (fun _ => fails_ok _ _) v).map _
  | actions =>
    refine (Entry.fails_ofValue ⟨by decide, by decide⟩ (fun record => ?_) v).map _
    obtain ⟨name, title, description, word, ⟨⟩⟩ := record
    cases word with
    | none => exact fails_ok _ _
    | some word => exact Action.fails_make name title description word
  | scripts => exact (Entry.fails_ofValue ⟨by decide, by decide⟩ (fun _ => fails_ok _ _) v).map _

/-- **The message about an item** that does not read has a line break exactly if it repeats one of
the document. -/
theorem Section.hasBreak_message_iff {s : Section} {v : Json} {m : Misread}
    (h : s.identityOf v = .error m) : HasBreak m.message ↔ m.IsForged :=
  m.hasBreak_message_iff (s.fails_identityOf v m h)

end Methodology
