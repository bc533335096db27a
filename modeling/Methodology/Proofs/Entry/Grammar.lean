import Methodology.Model
import Methodology.Proofs.Entry.WellFormed
import Methodology.Proofs.Record.Grammar

/-!
# The grammar of the entries

Which data values are modifiers, categories, actions, scripts and stamps, and what they are read as.

* `Modifier.Grammar`, `Category.Grammar`, `Action.Grammar`, `Script.Grammar`, `Stamp.Grammar`: the
  data values of each kind of entry, with the parts that they spell.
* `Entry.ofValue_eq_ok_iff`: an entry is read from a record that fits and is built.
* **`entry_grammar`**: a data value is read exactly if it is in the grammar, and what is read is what
  the constructor makes of the parts.
-/

namespace Methodology

open Result

/-- **The grammar of modifiers.** -/
structure Modifier.Grammar (v : Json) (name title : String) : Prop where
  form : Modifier.schema.Admits v
  symbol : ∃ c, (Text.trim name).toList = [c]
  name : Field.Kind.text.Fills (Modifier.schema.written? v "name") name
  title : Field.Kind.text.Fills (Modifier.schema.written? v "title") title

/-- **The grammar of categories.** -/
structure Category.Grammar (v : Json) (uuid : Option Uuid) (name : Term)
    (description : Option String) : Prop where
  form : Category.schema.Admits v
  uuid : Field.Kind.uuid.MayFill (Category.schema.written? v "uuid") uuid
  name : Field.Kind.term.Fills (Category.schema.written? v "name") name
  description : Field.Kind.text.MayFill (Category.schema.written? v "description") description

/-- **The grammar of actions.** -/
structure Action.Grammar (v : Json) (name title description : String) (word : Option String) :
    Prop where
  form : Action.schema.Admits v
  name : Field.Kind.text.Fills (Action.schema.written? v "name") name
  title : Field.Kind.text.Fills (Action.schema.written? v "title") title
  description : Field.Kind.text.Fills (Action.schema.written? v "description") description
  shape : Field.Kind.text.MayFill (Action.schema.written? v "structure") word
  known : ∀ w, word = some w → w = "boolean" ∨ w = "unique"

/-- **The grammar of scripts.** -/
structure Script.Grammar (v : Json) (uuid : Option Uuid) (text : String) : Prop where
  form : Script.schema.Admits v
  uuid : Field.Kind.uuid.MayFill (Script.schema.written? v "uuid") uuid
  text : Field.Kind.text.Fills (Script.schema.written? v "script") text

/-- **The grammar of stamps.** -/
structure Stamp.Grammar (v : Json) (name description : Option String) (updated : Option Instant) :
    Prop where
  form : Stamp.schema.Admits v
  name : Field.Kind.text.MayFill (Stamp.schema.written? v "name") name
  description : Field.Kind.text.MayFill (Stamp.schema.written? v "description") description
  updated : Field.Kind.instant.MayFill (Stamp.schema.written? v "updated") updated

/-- The uuids that an entry is minted from: the one that is given for ever, or else those that are
drawn. -/
def Fresh.idsFor (fresh : Fresh) : Option Uuid → Supply Uuid
  | some u => .constant u
  | none => fresh.uuids

/-! ## Each kind of entry -/

theorem Entry.ofValue_eq_ok_iff {α : Type} [Entry α] (hnodup : (Entry.schema α).names.Nodup)
    {v : Json} {d : Entry.Draft α} : Entry.ofValue α v = .ok d ↔
      ∃ record : Filled (Entry.schema α).fields, (Entry.schema α).Admits v ∧
        Filled.Fits ((Entry.schema α).written? v) (Entry.schema α).fields record ∧
        Entry.build record = .ok d := by
  constructor
  · intro h
    obtain ⟨record, hrecord, hbuild⟩ := bind_eq_ok.mp h
    obtain ⟨hform, hfits⟩ := (Record.ofValue_eq_ok_iff hnodup).mp hrecord
    exact ⟨record, hform, hfits, mapError_eq_ok.mp hbuild⟩
  · rintro ⟨record, hform, hfits, hbuild⟩
    have hrecord := (Record.ofValue_eq_ok_iff hnodup).mpr ⟨hform, hfits⟩
    exact bind_eq_ok.mpr ⟨record, hrecord, mapError_eq_ok.mpr hbuild⟩

namespace Modifier

theorem ofValue_eq_ok_iff {v : Json} {m : Modifier} : Entry.ofValue Modifier v = .ok m ↔
    ∃ name title, Grammar v name title ∧ make name title = .ok m := by
  refine (Entry.ofValue_eq_ok_iff (α := Modifier) (by decide)).trans ?_
  constructor
  · rintro ⟨⟨name, title, ⟨⟩⟩, hform, ⟨hname, htitle, -⟩, hbuild⟩
    exact ⟨name, title, ⟨hform, exists_make_iff.mp ⟨m, hbuild⟩, hname, htitle⟩, hbuild⟩
  · rintro ⟨name, title, h, hmake⟩
    exact ⟨(name, title, ()), h.form, ⟨h.name, h.title, trivial⟩, hmake⟩

theorem exists_ofValue {v : Json} {name title : String} (h : Grammar v name title) :
    ∃ m, Entry.ofValue Modifier v = .ok m ∧ make name title = .ok m := by
  obtain ⟨m, hmake⟩ := exists_make_iff.mpr h.symbol
  exact ⟨m, ofValue_eq_ok_iff.mpr ⟨name, title, h, hmake⟩, hmake⟩

theorem exists_ofValue_iff {v : Json} : (∃ m, Entry.ofValue Modifier v = .ok m) ↔
    ∃ name title, Grammar v name title := by
  constructor
  · rintro ⟨m, h⟩
    obtain ⟨name, title, h, -⟩ := ofValue_eq_ok_iff.mp h
    exact ⟨name, title, h⟩
  · rintro ⟨name, title, h⟩
    obtain ⟨m, hm, -⟩ := exists_ofValue h
    exact ⟨m, hm⟩

end Modifier

namespace Category

theorem ofValue_eq_ok_iff {v : Json} {d : Draft} : Entry.ofValue Category v = .ok d ↔
    ∃ uuid name description, Grammar v uuid name description ∧
      d = Draft.make uuid name description := by
  refine (Entry.ofValue_eq_ok_iff (α := Category) (by decide)).trans ?_
  constructor
  · rintro ⟨⟨uuid, name, description, ⟨⟩⟩, hform, ⟨huuid, hname, hdescription, -⟩, hbuild⟩
    exact ⟨uuid, name, description, ⟨hform, huuid, hname, hdescription⟩,
      (Except.ok.inj hbuild).symm⟩
  · rintro ⟨uuid, name, description, h, rfl⟩
    exact ⟨(uuid, name, description, ()), h.form, ⟨h.uuid, h.name, h.description, trivial⟩, rfl⟩

theorem settle_make (uuid : Option Uuid) (name : Term) (description : Option String)
    (fresh : Fresh) : (Draft.make uuid name description).settle fresh =
      ((mint (fresh.idsFor uuid) name description).1, (fresh.uuid uuid).2) := by
  cases uuid <;> rfl

theorem exists_ofValue {v : Json} {uuid : Option Uuid} {name : Term} {description : Option String}
    (h : Grammar v uuid name description) :
    ∃ d, Entry.ofValue Category v = .ok d ∧ ∀ fresh, Entry.settle d fresh =
      ((mint (fresh.idsFor uuid) name description).1, (fresh.uuid uuid).2) :=
  ⟨_, ofValue_eq_ok_iff.mpr ⟨uuid, name, description, h, rfl⟩, settle_make uuid name description⟩

theorem exists_ofValue_iff {v : Json} : (∃ d, Entry.ofValue Category v = .ok d) ↔
    ∃ uuid name description, Grammar v uuid name description := by
  constructor
  · rintro ⟨d, h⟩
    obtain ⟨uuid, name, description, h, -⟩ := ofValue_eq_ok_iff.mp h
    exact ⟨uuid, name, description, h⟩
  · rintro ⟨uuid, name, description, h⟩
    obtain ⟨d, hd, -⟩ := exists_ofValue h
    exact ⟨d, hd⟩

end Category

namespace Action

theorem exists_make_iff {name title description word : String} :
    (∃ a, make name title description word = .ok a) ↔ word = "boolean" ∨ word = "unique" := by
  constructor
  · rintro ⟨a, h⟩
    obtain ⟨shape, hshape, -⟩ := map_eq_ok.mp h
    by_contra hne
    rw [not_or] at hne
    rw [Shape.read, Shape.ofWord?, if_neg hne.1, if_neg hne.2] at hshape
    cases hshape
  · rintro (rfl | rfl) <;> exact ⟨_, rfl⟩

theorem ofValue_eq_ok_iff {v : Json} {a : Action} : Entry.ofValue Action v = .ok a ↔
    ∃ name title description word, Grammar v name title description word ∧
      make name title description (word.getD "unique") = .ok a := by
  refine (Entry.ofValue_eq_ok_iff (α := Action) (by decide)).trans ?_
  constructor
  · rintro ⟨⟨name, title, description, word, ⟨⟩⟩, hform, ⟨hname, htitle, hdescription, hword, -⟩,
      hbuild⟩
    have hmake : make name title description (word.getD "unique") = .ok a := by
      cases word <;> exact hbuild
    refine ⟨name, title, description, word,
      ⟨hform, hname, htitle, hdescription, hword, fun w hw => ?_⟩, hmake⟩
    subst hw
    exact exists_make_iff.mp ⟨a, hmake⟩
  · rintro ⟨name, title, description, word, h, hmake⟩
    refine ⟨(name, title, description, word, ()), h.form,
      ⟨h.name, h.title, h.description, h.shape, trivial⟩, ?_⟩
    cases word <;> exact hmake

theorem exists_ofValue {v : Json} {name title description : String} {word : Option String}
    (h : Grammar v name title description word) :
    ∃ a, Entry.ofValue Action v = .ok a ∧
      make name title description (word.getD "unique") = .ok a := by
  have hknown : word.getD "unique" = "boolean" ∨ word.getD "unique" = "unique" := by
    cases word with
    | none => exact .inr rfl
    | some w => exact h.known w rfl
  obtain ⟨a, hmake⟩ := exists_make_iff.mpr hknown
  exact ⟨a, ofValue_eq_ok_iff.mpr ⟨name, title, description, word, h, hmake⟩, hmake⟩

theorem exists_ofValue_iff {v : Json} : (∃ a, Entry.ofValue Action v = .ok a) ↔
    ∃ name title description word, Grammar v name title description word := by
  constructor
  · rintro ⟨a, h⟩
    obtain ⟨name, title, description, word, h, -⟩ := ofValue_eq_ok_iff.mp h
    exact ⟨name, title, description, word, h⟩
  · rintro ⟨name, title, description, word, h⟩
    obtain ⟨a, ha, -⟩ := exists_ofValue h
    exact ⟨a, ha⟩

end Action

namespace Script

theorem ofValue_eq_ok_iff {v : Json} {d : Draft} : Entry.ofValue Script v = .ok d ↔
    ∃ uuid text, Grammar v uuid text ∧ d = ⟨uuid, text⟩ := by
  refine (Entry.ofValue_eq_ok_iff (α := Script) (by decide)).trans ?_
  constructor
  · rintro ⟨⟨uuid, text, ⟨⟩⟩, hform, ⟨huuid, htext, -⟩, hbuild⟩
    exact ⟨uuid, text, ⟨hform, huuid, htext⟩, (Except.ok.inj hbuild).symm⟩
  · rintro ⟨uuid, text, h, rfl⟩
    exact ⟨(uuid, text, ()), h.form, ⟨h.uuid, h.text, trivial⟩, rfl⟩

theorem settle_eq (uuid : Option Uuid) (text : String) (fresh : Fresh) :
    (⟨uuid, text⟩ : Draft).settle fresh =
      ((mint (fresh.idsFor uuid) text).1, (fresh.uuid uuid).2) := by
  cases uuid <;> rfl

theorem exists_ofValue {v : Json} {uuid : Option Uuid} {text : String} (h : Grammar v uuid text) :
    ∃ d, Entry.ofValue Script v = .ok d ∧ ∀ fresh, Entry.settle d fresh =
      ((mint (fresh.idsFor uuid) text).1, (fresh.uuid uuid).2) :=
  ⟨_, ofValue_eq_ok_iff.mpr ⟨uuid, text, h, rfl⟩, settle_eq uuid text⟩

theorem exists_ofValue_iff {v : Json} : (∃ d, Entry.ofValue Script v = .ok d) ↔
    ∃ uuid text, Grammar v uuid text := by
  constructor
  · rintro ⟨d, h⟩
    obtain ⟨uuid, text, h, -⟩ := ofValue_eq_ok_iff.mp h
    exact ⟨uuid, text, h⟩
  · rintro ⟨uuid, text, h⟩
    obtain ⟨d, hd, -⟩ := exists_ofValue h
    exact ⟨d, hd⟩

end Script

namespace Stamp

theorem ofValue_eq_ok_iff {v : Json} {d : Draft} : Entry.ofValue Stamp v = .ok d ↔
    ∃ name description updated, Grammar v name description updated ∧
      d = Draft.make name description updated := by
  refine (Entry.ofValue_eq_ok_iff (α := Stamp) (by decide)).trans ?_
  constructor
  · rintro ⟨⟨name, description, updated, ⟨⟩⟩, hform, ⟨hname, hdescription, hupdated, -⟩, hbuild⟩
    exact ⟨name, description, updated, ⟨hform, hname, hdescription, hupdated⟩,
      (Except.ok.inj hbuild).symm⟩
  · rintro ⟨name, description, updated, h, rfl⟩
    exact ⟨(name, description, updated, ()), h.form,
      ⟨h.name, h.description, h.updated, trivial⟩, rfl⟩

theorem settle_make (name description : Option String) (updated : Option Instant)
    (fresh : Fresh) : (Draft.make name description updated).settle fresh =
      (make fresh.clock.next.1 name description updated, (fresh.instant updated).2) := by
  cases updated <;> rfl

theorem exists_ofValue {v : Json} {name description : Option String} {updated : Option Instant}
    (h : Grammar v name description updated) :
    ∃ d, Entry.ofValue Stamp v = .ok d ∧ ∀ fresh, Entry.settle d fresh =
      (make fresh.clock.next.1 name description updated, (fresh.instant updated).2) :=
  ⟨_, ofValue_eq_ok_iff.mpr ⟨name, description, updated, h, rfl⟩,
    settle_make name description updated⟩

theorem exists_ofValue_iff {v : Json} : (∃ d, Entry.ofValue Stamp v = .ok d) ↔
    ∃ name description updated, Grammar v name description updated := by
  constructor
  · rintro ⟨d, h⟩
    obtain ⟨name, description, updated, h, -⟩ := ofValue_eq_ok_iff.mp h
    exact ⟨name, description, updated, h⟩
  · rintro ⟨name, description, updated, h⟩
    obtain ⟨d, hd, -⟩ := exists_ofValue h
    exact ⟨d, hd⟩

end Stamp

/-! ## All of them -/

/-- **The grammar of the entries.** A data value is read as a kind of entry exactly if it is in the
grammar of the kind, and the entry is what the constructor makes of the parts that it spells:

* an action that states no shape is made with the word `unique`;
* a category and a script keep the uuid that they state, and nothing is drawn for them; they are
  minted with the next uuid if they state none;
* a stamp keeps the instant that it states, and is made at the next reading of the clock if it states
  none. -/
theorem entry_grammar (v : Json) :
    ((∃ m, Entry.ofValue Modifier v = .ok m) ↔ ∃ name title, Modifier.Grammar v name title) ∧
    (∀ name title, Modifier.Grammar v name title →
      ∃ m, Entry.ofValue Modifier v = .ok m ∧ Modifier.make name title = .ok m) ∧
    ((∃ d, Entry.ofValue Category v = .ok d) ↔
      ∃ uuid name description, Category.Grammar v uuid name description) ∧
    (∀ uuid name description, Category.Grammar v uuid name description →
      ∃ d, Entry.ofValue Category v = .ok d ∧ ∀ fresh, Entry.settle d fresh =
        ((Category.mint (fresh.idsFor uuid) name description).1, (fresh.uuid uuid).2)) ∧
    ((∃ a, Entry.ofValue Action v = .ok a) ↔
      ∃ name title description word, Action.Grammar v name title description word) ∧
    (∀ name title description word, Action.Grammar v name title description word →
      ∃ a, Entry.ofValue Action v = .ok a ∧
        Action.make name title description (word.getD "unique") = .ok a) ∧
    ((∃ d, Entry.ofValue Script v = .ok d) ↔ ∃ uuid text, Script.Grammar v uuid text) ∧
    (∀ uuid text, Script.Grammar v uuid text →
      ∃ d, Entry.ofValue Script v = .ok d ∧ ∀ fresh, Entry.settle d fresh =
        ((Script.mint (fresh.idsFor uuid) text).1, (fresh.uuid uuid).2)) ∧
    ((∃ d, Entry.ofValue Stamp v = .ok d) ↔
      ∃ name description updated, Stamp.Grammar v name description updated) ∧
    ∀ name description updated, Stamp.Grammar v name description updated →
      ∃ d, Entry.ofValue Stamp v = .ok d ∧ ∀ fresh, Entry.settle d fresh =
        (Stamp.make fresh.clock.next.1 name description updated, (fresh.instant updated).2) :=
  ⟨Modifier.exists_ofValue_iff, fun _ _ => Modifier.exists_ofValue, Category.exists_ofValue_iff,
    fun _ _ _ => Category.exists_ofValue, Action.exists_ofValue_iff,
    fun _ _ _ _ => Action.exists_ofValue, Script.exists_ofValue_iff,
    fun _ _ => Script.exists_ofValue, Stamp.exists_ofValue_iff, fun _ _ _ => Stamp.exists_ofValue⟩

/-- One value for each kind of entry, mappings and lists. A list may leave off the fields at its end,
and the text `true` stays a text. -/
theorem entry_grammar_oneOfEach :
    let modifier : Json := .object [("title", .string "Merge"), ("name", .string " + ")]
    let category : Json := .array [.null, .string " true "]
    let action : Json := .array [.string "A", .string "", .string "d", .null]
    let script : Json := .object [("script", .string " x ")]
    (Modifier.Grammar modifier " + " "Merge" ∧
      Entry.ofValue Modifier modifier = .ok (⟨"+", "Merge"⟩ : Modifier)) ∧
    (Category.Grammar category none (.text " true ") none ∧
      ∃ d, Entry.ofValue Category category = .ok d ∧ ∀ fresh, Entry.settle d fresh =
        ((Category.mint fresh.uuids (.text " true ") none).1, (fresh.uuid none).2)) ∧
    (Action.Grammar action "A" "" "d" none ∧
      Entry.ofValue Action action = .ok (⟨"A", "", "d", .unique⟩ : Action)) ∧
    (Script.Grammar script none " x " ∧
      ∃ d, Entry.ofValue Script script = .ok d ∧ ∀ fresh, Entry.settle d fresh =
        ((Script.mint fresh.uuids " x ").1, (fresh.uuid none).2)) ∧
    Stamp.Grammar (.object []) none none none ∧
      ∃ d, Entry.ofValue Stamp (.object []) = .ok d ∧ ∀ fresh, Entry.settle d fresh =
        (Stamp.make fresh.clock.next.1 none none none, (fresh.instant none).2) := by
  intro modifier category action script
  have hmodifier : Modifier.Grammar modifier " + " "Merge" :=
    ⟨.mapping (by decide) (by decide) (by decide), ⟨'+', by decide +kernel⟩, ⟨_, rfl, .text _⟩,
      ⟨_, rfl, .text _⟩⟩
  have hcategory : Category.Grammar category none (.text " true ") none :=
    ⟨.list (by decide) (by decide), .null, ⟨_, rfl, .word _⟩, .absent⟩
  have haction : Action.Grammar action "A" "" "d" none :=
    ⟨.list (by decide) (by decide), ⟨_, rfl, .text _⟩, ⟨_, rfl, .text _⟩, ⟨_, rfl, .text _⟩, .null,
      fun _ h => nomatch h⟩
  have hscript : Script.Grammar script none " x " :=
    ⟨.mapping (by decide) (by decide) (by decide), .absent, ⟨_, rfl, .text _⟩⟩
  have hstamp : Stamp.Grammar (.object []) none none none :=
    ⟨.mapping (by decide) (by decide) (by decide), .absent, .absent, .absent⟩
  obtain ⟨-, hreadModifier, -⟩ := entry_grammar modifier
  obtain ⟨-, -, -, hreadCategory, -⟩ := entry_grammar category
  obtain ⟨-, -, -, -, -, hreadAction, -⟩ := entry_grammar action
  obtain ⟨-, -, -, -, -, -, -, hreadScript, -⟩ := entry_grammar script
  obtain ⟨-, -, -, -, -, -, -, -, -, hreadStamp⟩ := entry_grammar (.object [])
  obtain ⟨m, hm, hmake⟩ := hreadModifier _ _ hmodifier
  obtain ⟨a, ha, hmake'⟩ := hreadAction _ _ _ _ haction
  have hplus : Modifier.make " + " "Merge" = .ok ⟨"+", "Merge"⟩ := by decide +kernel
  have hunique : Action.make "A" "" "d" "unique" = .ok ⟨"A", "", "d", .unique⟩ := by decide +kernel
  obtain rfl := Except.ok.inj (hmake.symm.trans hplus)
  obtain rfl := Except.ok.inj (hmake'.symm.trans hunique)
  exact ⟨⟨hmodifier, hm⟩, ⟨hcategory, hreadCategory _ _ _ hcategory⟩, ⟨haction, ha⟩,
    ⟨hscript, hreadScript _ _ hscript⟩, hstamp, hreadStamp _ _ _ hstamp⟩

end Methodology
