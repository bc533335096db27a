import Methodology.Proofs.Record.Faults
import Methodology.Proofs.Vocabulary.Located
import Methodology.Proofs.Vocabulary.Spelled

/-!
# Which messages name the field at fault

An item with a single field at fault is reported once. If the field holds a text that it must not
hold, the message leads with its name; if it holds a value of another type, the message is that of
the decoder, which knows of no field.

* `Section.Permits`, `Section.Accepts`: what the fields of an item may hold.
* `Section.FaultsOnly`: **an item with a single field at fault**.
* `Section.FaultsOnly.exists_misread`: why it is not read.
* `filter_place_validateFields`: an item that is not read is reported once.
* **`violation_names_field`**: the message names the field exactly if the type is right.
-/

namespace Methodology

open Json Result

theorem Entry.ofValue_of_ofFields {α : Type} [Entry α] {entry : List (String × Json)} {m : Misread}
    (h : Record.ofFields (Entry.schema α) entry = .error m) :
    Entry.ofValue α (.object entry) = .error m := by
  rw [Entry.ofValue, Record.ofValue, h]
  rfl

namespace Section

/-- **The texts that a field of an item may hold**: those that spell what it holds, a single
character as the name of a modifier, and one of two words as the structure of an action. -/
def Permits (s : Section) (f : Field) (text : String) : Prop :=
  f.kind.IsSpelled text ∧
    (s = modifiers → f.name = "name" → ∃ c, (Text.trim text).toList = [c]) ∧
    (s = actions → f.name = "structure" → text = "boolean" ∨ text = "unique")

/-- The values that a field of an item may hold. -/
def Accepts (s : Section) (f : Field) (v : Json) : Prop :=
  f.HasType v ∧ ∀ text, v = .string text → s.Permits f text

/-- **An item with a single field at fault**: a mapping with declared fields only, none of them
twice and every required one among them, of which one holds a value that it may not hold. -/
structure FaultsOnly (s : Section) (entry : List (String × Json)) (f : Field) (v : Json) :
    Prop where
  form : s.schema.Admits (.object entry)
  declared : f ∈ s.schema.fields
  held : field? f.name entry = some v
  fault : ¬ s.Accepts f v
  others : ∀ g ∈ s.schema.fields, g ≠ f → ∀ w, field? g.name entry = some w → s.Accepts g w

/-! ## Why an item is not read -/

theorem nodup_names (s : Section) : s.schema.names.Nodup := by cases s <;> decide

theorem eq_of_name {s : Section} {f g : Field} (hf : f ∈ s.schema.fields)
    (hg : g ∈ s.schema.fields) (h : g.name = f.name) : g = f :=
  List.inj_on_of_nodup_map s.nodup_names hg hf h

theorem name_of_kind {s : Section} {f : Field} (hf : f ∈ s.schema.fields) :
    (f.kind = .uuid → f.name = "uuid") ∧ (f.kind = .instant → f.name = "updated") := by
  revert f
  cases s <;> decide

theorem Accepts.exists_ofValue {s : Section} {f : Field} {v : Json} (h : s.Accepts f v) :
    ∃ slot, f.ofValue v = .ok slot :=
  Field.exists_ofValue h.1 fun text htext => (h.2 text htext).1

theorem identityOf_of_ofFields {s : Section} {entry : List (String × Json)} {m : Misread}
    (h : Record.ofFields s.schema entry = .error m) : s.identityOf (.object entry) = .error m := by
  cases s <;> exact congrArg (Except.map _) (Entry.ofValue_of_ofFields h)

end Section

theorem Modifier.ofValue_eq_error {entry : List (String × Json)} {text : String}
    {record : Filled Modifier.schema.fields}
    (hrecord : Record.ofFields Modifier.schema entry = .ok record)
    (hfits : Filled.Fits (fun name => field? name entry) Modifier.schema.fields record)
    (hheld : field? "name" entry = some (.string text))
    (h : ¬ ∃ c, (Text.trim text).toList = [c]) :
    Entry.ofValue Modifier (.object entry) =
      .error (.field (.modifierName (Text.trim text))) := by
  obtain ⟨name, title, ⟨⟩⟩ := record
  obtain ⟨⟨v, hv, hspells⟩, -⟩ := hfits
  obtain rfl : Json.string text = v := Option.some.inj (hheld.symm.trans hv)
  cases hspells
  have hmake : Modifier.make text title = .error (.modifierName (Text.trim text)) :=
    Modifier.make_eq_error_iff.mpr ⟨rfl, h⟩
  change (Record.ofFields Modifier.schema entry >>= fun record =>
    (Modifier.ofRecord record).mapError Misread.field) = _
  rw [hrecord, ok_bind, Modifier.ofRecord, hmake]
  rfl

theorem Action.ofValue_eq_error {entry : List (String × Json)} {text : String}
    {record : Filled Action.schema.fields}
    (hrecord : Record.ofFields Action.schema entry = .ok record)
    (hfits : Filled.Fits (fun name => field? name entry) Action.schema.fields record)
    (hheld : field? "structure" entry = some (.string text))
    (h : ¬ (text = "boolean" ∨ text = "unique")) :
    Entry.ofValue Action (.object entry) = .error (.field (.shape text)) := by
  obtain ⟨name, title, description, word, ⟨⟩⟩ := record
  obtain ⟨-, -, -, hword, -⟩ := hfits
  have hword : Field.Kind.text.MayFill (some (.string text)) word := hheld ▸ hword
  cases hword with
  | value hspells =>
    cases hspells
    rw [not_or] at h
    have hmake : Action.make name title description text = .error (.shape text) := by
      rw [Action.make, Shape.read, Shape.ofWord?, if_neg h.1, if_neg h.2]
      rfl
    change (Record.ofFields Action.schema entry >>= fun record =>
      (Action.ofRecord record).mapError Misread.field) = _
    rw [hrecord, ok_bind, Action.ofRecord, hmake]
    rfl

namespace Section.FaultsOnly

variable {s : Section} {entry : List (String × Json)} {f : Field} {v : Json}
  (h : s.FaultsOnly entry f v)

include h

/-- **An item fails as its only field at fault.** -/
theorem identityOf_eq_error {m : Misread} (hm : f.ofValue v = .error m) :
    s.identityOf (.object entry) = .error m := by
  cases h.form with
  | mapping hdistinct hdeclared _ =>
    refine identityOf_of_ofFields (Record.ofFields_eq_error hdistinct hdeclared
      (mem_of_field? h.held) (fun g hg hname => ?_) fun p hp hne g hg hname => ?_)
    · rw [eq_of_name h.declared hg hname, hm]
    · have hother : g ≠ f := fun heq => hne (hname ▸ congrArg Field.name heq)
      have hheld : field? g.name entry = some p.2 := hname ▸ field?_of_mem hdistinct hp
      exact (h.others g hg hother p.2 hheld).exists_ofValue

/-- **A text that is read, but that the field must not hold.** -/
theorem identityOf_of_isSpelled {text : String} (hv : v = .string text)
    (htype : f.HasType v) (hspelled : f.kind.IsSpelled text) :
    ∃ e, s.identityOf (.object entry) = .error (.field e) ∧ e.field.text = f.name := by
  have hf : ∃ slot, f.ofValue v = .ok slot := by
    refine Field.exists_ofValue htype fun text' htext' => ?_
    rw [hv] at htext'
    exact Json.string.inj htext' ▸ hspelled
  have hread : ∀ g ∈ s.schema.fields, ∀ w, field? g.name entry = some w →
      ∃ slot, g.ofValue w = .ok slot := by
    intro g hg w hw
    by_cases hgf : g = f
    · subst hgf
      rw [h.held] at hw
      exact Option.some.inj hw ▸ hf
    · exact (h.others g hg hgf w hw).exists_ofValue
  obtain ⟨record, hrecord, hfits⟩ := Record.exists_ofFields s.nodup_names h.form hread
  have hheld := h.held
  have hfault : ¬ s.Permits f text := by
    intro hpermits
    refine h.fault ⟨htype, fun text' htext' => ?_⟩
    rw [hv] at htext'
    exact Json.string.inj htext' ▸ hpermits
  rw [Permits, and_iff_right hspelled, not_and_or] at hfault
  rw [hv] at hheld
  simp only [Classical.not_imp] at hfault
  rcases hfault with ⟨rfl, hname, hfault⟩ | ⟨rfl, hname, hfault⟩
  · rw [hname] at hheld
    refine ⟨.modifierName (Text.trim text), ?_, hname.symm⟩
    rw [identityOf, Modifier.ofValue_eq_error hrecord hfits hheld hfault]
    rfl
  · rw [hname] at hheld
    refine ⟨.shape text, ?_, hname.symm⟩
    rw [identityOf, Action.ofValue_eq_error hrecord hfits hheld hfault]
    rfl

/-- **Why the item is not read**: for the type of what the field holds, which the decoder finds, or
for a text that the field must not hold. -/
theorem exists_misread : ∃ m, s.identityOf (.object entry) = .error m ∧
    (¬ f.HasType v → m = .wrongType (.ofJson v) f.kind.noun) ∧
    (f.HasType v → ∃ e, m = .field e ∧ e.field.text = f.name) := by
  by_cases htype : f.HasType v
  · obtain ⟨text, hv, hfault⟩ : ∃ text, v = .string text ∧ ¬ s.Permits f text := by
      by_contra hnone
      refine h.fault ⟨htype, fun text hv => ?_⟩
      by_contra hfault
      exact hnone ⟨text, hv, hfault⟩
    by_cases hspelled : f.kind.IsSpelled text
    · obtain ⟨e, hread, hfield⟩ := h.identityOf_of_isSpelled hv htype hspelled
      exact ⟨_, hread, fun hno => absurd htype hno, fun _ => ⟨e, rfl, hfield⟩⟩
    · obtain ⟨e, hread, hkind⟩ := Field.ofValue_of_not_isSpelled hspelled
      obtain ⟨huuid, hinstant⟩ := name_of_kind h.declared
      have hfield : e.field.text = f.name := by
        rcases hkind with ⟨hkind, hfield⟩ | ⟨hkind, hfield⟩
        · rw [hfield, huuid hkind]
          rfl
        · rw [hfield, hinstant hkind]
          rfl
      exact ⟨_, h.identityOf_eq_error (hv ▸ hread), fun hno => absurd htype hno,
        fun _ => ⟨e, rfl, hfield⟩⟩
  · exact ⟨_, h.identityOf_eq_error (Field.ofValue_of_not_hasType htype), fun _ => rfl,
      fun hno => absurd hno htype⟩

end Section.FaultsOnly

/-! ## Messages -/

/-- A message that leads with a name and a colon. -/
def LeadsWith (name message : String) : Prop := ∃ rest, message = name ++ ":" ++ rest

theorem FieldError.leadsWith (e : FieldError) : LeadsWith e.field.text e.message := by
  refine ⟨" " ++ e.complaint, ?_⟩
  rw [message, ← String.append_assoc, show ": " = ":" ++ " " from rfl, ← String.append_assoc]

theorem Misread.message_wrongType (found : Found) (expected : String) :
    (wrongType found expected).message =
      "invalid type: " ++ found.message ++ ", expected " ++ expected := rfl

/-- **The message about a type names no field**: none has a name that begins like it. -/
theorem Section.not_leadsWith_wrongType {s : Section} {f : Field} (hf : f ∈ s.schema.fields)
    (found : Found) (expected : String) :
    ¬ LeadsWith f.name (Misread.wrongType found expected).message := by
  have hname : ∃ c, f.name.toList.head? = some c ∧ c ≠ 'i' := by
    have hnames : f.name = "name" ∨ f.name = "description" ∨ f.name = "updated" ∨
        f.name = "title" ∨ f.name = "uuid" ∨ f.name = "structure" ∨ f.name = "script" := by
      revert f
      cases s <;> decide
    rcases hnames with h | h | h | h | h | h | h <;> rw [h] <;> exact ⟨_, rfl, by decide⟩
  have hword : "invalid type: ".toList.head? = some 'i' := rfl
  obtain ⟨c, hc, hne⟩ := hname
  rintro ⟨rest, h⟩
  have hhead := congrArg (fun text => text.toList.head?) h
  simp only [Misread.message_wrongType, String.toList_append, List.head?_append, hword, hc,
    Option.some_or, Option.some.injEq] at hhead
  exact hne hhead.symm

/-! ## Reports -/

theorem mem_readItems {α : Type} [Entry α] {part : Section} {start i : Nat} {items : List Json}
    {v : Json} {m : Misread} (hitem : items[i]? = some v) (hread : Entry.ofValue α v = .error m) :
    violationAt part (start + i) m.message ∈ (readItems α part start items).1 := by
  induction items generalizing start i with
  | nil => cases hitem
  | cons w items ih =>
    simp only [readItems]
    cases i with
    | zero =>
      obtain rfl : w = v := Option.some.inj hitem
      rw [hread]
      exact List.mem_cons_self
    | succ i =>
      have hrest : violationAt part (start + 1 + i) m.message ∈
          (readItems α part (start + 1) items).1 := ih hitem
      rw [Nat.add_assoc, Nat.add_comm 1] at hrest
      split
      · exact hrest
      · exact List.mem_cons_of_mem _ hrest

/-- The violations that are listed for a section, with why any of its items is not read. -/
structure IsComplete (fields : List (String × Json)) (s : Section) (found : List Violation) :
    Prop where
  located : IsLocated fields s found
  unread : ∀ items i v m, field? s.name fields = some (.array items) → items[i]? = some v →
    s.identityOf v = .error m → violationAt s i m.message ∈ found

theorem isComplete_takeMember (α : Type) [Entry α] [Member α] [Stated α]
    (fields : List (String × Json)) (s : Validation) :
    ∃ found, (s.takeMember α fields).violations = s.violations ++ found ∧
      IsComplete fields (Member.part α) found := by
  obtain ⟨found, hfound, hlocated⟩ := isLocated_takeMember α fields s
  obtain ⟨found', hfound', hcases⟩ := takeMember_cases (α := α) fields s
  obtain rfl := List.append_cancel_left (hfound.symm.trans hfound')
  refine ⟨found, hfound, hlocated, fun items i v m hlist hitem hm => ?_⟩
  rw [Stated.identityOf_eq, map_eq_error] at hm
  rcases hcases with ⟨items', hlist', rfl⟩ | ⟨hnone, -⟩
  · rw [hlist] at hlist'
    cases hlist'
    have hmem : violationAt (Member.part α) (0 + i) m.message ∈
        (readItems α (Member.part α) 0 items).1 := mem_readItems hitem hm
    rw [Nat.zero_add] at hmem
    exact List.mem_append_left _ hmem
  · rw [hlist] at hnone
    rw [show items = [] from hnone] at hitem
    cases hitem

/-- **An item that is not read is reported once.** -/
theorem filter_place_validateFields {fields : List (String × Json)} {s : Section}
    {items : List Json} {i : Nat} {v : Json} {m : Misread}
    (hlist : field? s.name fields = some (.array items)) (hitem : items[i]? = some v)
    (hm : s.identityOf v = .error m) (fresh : Fresh) :
    (validateFields fields fresh).violations.filter (fun x => x.place = .item s i) =
      [⟨.item s i, m.message⟩] := by
  obtain ⟨found, hfound, hcomplete⟩ :=
    exists_sections (fun α _ _ _ => isComplete_takeMember α fields) fresh
  have hsection : (validateFields fields fresh).violations.filter (fun x => x.place.isIn s) =
      found s := by
    rw [hfound]
    exact filter_sections (fun t => (hcomplete t).located.inside) fields s
  have hwithin : ∀ x : Violation,
      (decide (x.place = .item s i) && x.place.isIn s) = decide (x.place = .item s i) := by
    intro x
    by_cases h : x.place = .item s i
    · rw [h]
      simp [Place.isIn]
    · simp [h]
  have hmem := (hcomplete s).unread items i v m hlist hitem hm
  have hone := filter_of_nodup (hcomplete s).located.nodup hmem
  rw [← hsection, List.filter_filter] at hone
  exact (List.filter_congr fun x _ => (hwithin x).symm).trans hone

/-! ## Documents -/

/-- **The report about an item with a single field at fault**, whatever else stands in the document
and whatever uuids are drawn. There is one, and it names the field, with a colon behind the name,
exactly if the field holds a value of its type, which is then a text that it must not hold. Of a
value of another type the message says what it is and what was expected, but not where. -/
theorem violation_names_field {fields : List (String × Json)} {s : Section} {items : List Json}
    {i : Nat} {entry : List (String × Json)} {f : Field} {v : Json}
    (hlist : field? s.name fields = some (.array items))
    (hitem : items[i]? = some (.object entry)) (hfault : s.FaultsOnly entry f v) (fresh : Fresh) :
    ∃ violations message, (validate (.object fields) fresh).1 = .error (.invalid violations) ∧
      violations.filter (fun x => x.place = .item s i) = [⟨.item s i, message⟩] ∧
      (LeadsWith f.name message ↔ f.HasType v) ∧
      (f.HasType v → ∃ e : FieldError, e.field.text = f.name ∧ message = e.message) ∧
      (¬ f.HasType v → message =
        "invalid type: " ++ (Found.ofJson v).message ++ ", expected " ++ f.kind.noun) := by
  obtain ⟨m, hm, hmistyped, hunfit⟩ := hfault.exists_misread
  have hreported := filter_place_validateFields hlist hitem hm fresh
  have hrefused : (validate (.object fields) fresh).1 =
      .error (.invalid (validateFields fields fresh).violations) := by
    have hne : (validateFields fields fresh).violations.isEmpty = false := by
      refine Bool.eq_false_iff.mpr fun hempty => ?_
      rw [List.isEmpty_iff.mp hempty] at hreported
      cases hreported
    simp only [validate, hne, Bool.false_eq_true, if_false]
  refine ⟨_, m.message, hrefused, hreported, ?_, fun htype => ?_, fun htype => ?_⟩
  · constructor
    · intro hleads
      by_contra htype
      rw [hmistyped htype] at hleads
      exact Section.not_leadsWith_wrongType hfault.declared _ _ hleads
    · intro htype
      obtain ⟨e, rfl, hfield⟩ := hunfit htype
      exact hfield ▸ e.leadsWith
  · obtain ⟨e, rfl, hfield⟩ := hunfit htype
    exact ⟨e, hfield, rfl⟩
  · rw [hmistyped htype, Misread.message_wrongType]

/-- A modifier with a name of two characters. -/
def longName : List (String × Json) := [("name", .string "++"), ("title", .string "Double")]

/-- A modifier with a number for its title. -/
def numberTitle : List (String × Json) :=
  [("name", .string "+"), ("title", .number (.integer 5))]

/-- A document with the two. -/
def faultyFields : List (String × Json) :=
  [("modifiers", .array [.object longName, .object numberTitle])]

theorem faultsOnly_longName :
    Section.modifiers.FaultsOnly longName ⟨"name", .text, false⟩ (.string "++") where
  form := .mapping (by decide) (by decide) (by decide)
  declared := by decide
  held := rfl
  fault h := by
    obtain ⟨c, hc⟩ := (h.2 "++" rfl).2.1 rfl rfl
    have hlength : (Text.trim "++").toList.length = 2 := by decide +kernel
    rw [hc] at hlength
    cases hlength
  others g hg hne w hw := by
    obtain rfl | rfl : g = ⟨"name", .text, false⟩ ∨ g = ⟨"title", .text, false⟩ := by
      simpa [Section.schema, Modifier.schema] using hg
    · exact absurd rfl hne
    · obtain rfl : Json.string "Double" = w := Option.some.inj hw
      exact ⟨.inl ⟨_, rfl⟩, fun _ _ => ⟨trivial, fun _ h => absurd h (by decide), nofun⟩⟩

theorem faultsOnly_numberTitle :
    Section.modifiers.FaultsOnly numberTitle ⟨"title", .text, false⟩ (.number (.integer 5)) where
  form := .mapping (by decide) (by decide) (by decide)
  declared := by decide
  held := rfl
  fault h := by
    rcases h.1 with ⟨text, htext⟩ | ⟨hoptional, -⟩
    · cases htext
    · cases hoptional
  others g hg hne w hw := by
    obtain rfl | rfl : g = ⟨"name", .text, false⟩ ∨ g = ⟨"title", .text, false⟩ := by
      simpa [Section.schema, Modifier.schema] using hg
    · obtain rfl : Json.string "+" = w := Option.some.inj hw
      refine ⟨.inl ⟨_, rfl⟩, fun text htext => ?_⟩
      cases htext
      have htrimmed : (Text.trim "+").toList = ['+'] := by decide +kernel
      exact ⟨trivial, fun _ _ => ⟨_, htrimmed⟩, nofun⟩
    · exact absurd rfl hne

theorem violation_names_field_longName :
    let fresh : Fresh := ⟨Supply.constant Uuid.nil, Supply.constant ⟨0, 0⟩⟩
    ∃ violations message,
      (validate (.object faultyFields) fresh).1 = .error (.invalid violations) ∧
      violations.filter (fun x => x.place = .item .modifiers 0) =
        [⟨.item .modifiers 0, message⟩] ∧ LeadsWith "name" message := by
  intro fresh
  have hlist : field? Section.modifiers.name faultyFields =
      some (.array [.object longName, .object numberTitle]) := rfl
  have hitem : [Json.object longName, .object numberTitle][0]? = some (.object longName) := rfl
  obtain ⟨violations, message, hrefused, hreported, hleads, -⟩ :=
    violation_names_field hlist hitem faultsOnly_longName fresh
  exact ⟨violations, message, hrefused, hreported, hleads.mpr (.inl ⟨_, rfl⟩)⟩

/-- **The message about a field may leave its name out.** -/
theorem not_violation_names_field : ¬ ∀ (fields : List (String × Json)) (s : Section)
    (items : List Json) (i : Nat) (entry : List (String × Json)) (f : Field) (v : Json)
    (fresh : Fresh) (violations : List Violation),
    field? s.name fields = some (.array items) → items[i]? = some (.object entry) →
    s.FaultsOnly entry f v →
    (validate (.object fields) fresh).1 = .error (.invalid violations) →
    ∀ x ∈ violations, x.place = .item s i → LeadsWith f.name x.message := by
  intro h
  let fresh : Fresh := ⟨Supply.constant Uuid.nil, Supply.constant ⟨0, 0⟩⟩
  let x : Violation := ⟨.item .modifiers 1, "invalid type: integer `5`, expected a string"⟩
  have hrefused : (validate (.object faultyFields) fresh).1 =
      .error (.invalid (validateFields faultyFields fresh).violations) := by decide +kernel
  have hx : x ∈ (validateFields faultyFields fresh).violations := by decide +kernel
  have hleads := h faultyFields .modifiers _ 1 _ _ _ fresh _ rfl rfl faultsOnly_numberTitle
    hrefused x hx rfl
  have hmistyped : x.message = (Misread.wrongType (.number (.integer 5)) "a string").message := by
    decide +kernel
  rw [hmistyped] at hleads
  exact Section.not_leadsWith_wrongType faultsOnly_numberTitle.declared _ _ hleads

end Methodology
