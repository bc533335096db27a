import Methodology.Proofs.Entry.Leaves
import Methodology.Proofs.Entry.Made
import Methodology.Proofs.Entry.RoundTrip
import Methodology.Proofs.Instant.RoundTrip
import Methodology.Proofs.Record.Typed

/-!
# Entries and their parts are read back from YAML

A model is read from the nodes of its own text, not by way of a data value.

* `Model.ReadsBackYamlFrom`, `Model.ReadsBackYaml`: a text that gives the model, nothing being drawn
  for it; the text of the model does.
* `optionalFromNode_leaf`: no scalar of a flag or a text is taken for null.
* `Entry.readsBackYaml`: an entry is read back, if the row of its fields makes it.
* **`Modifier.readsBackYaml`**, **`Category.readsBackYaml`**, **`Action.readsBackYaml`**,
  **`Script.readsBackYaml`**, **`Stamp.readsBackYaml`**: entries.
* **`Stamp.readsBackYamlFrom_asWritten`**, **`Instant.readsBackYamlFrom_asWritten`**: stamps and
  instants that are written as other ones.
* **`Term.readsBackYaml`**, **`Uuid.readsBackYaml`**, **`Instant.readsBackYaml`**,
  **`Shape.readsBackYaml`**: parts of entries.
-/

namespace Methodology

open Yaml

/-- A YAML text that is read as a draft that settles to the model, with nothing drawn. -/
def Model.ReadsBackYamlFrom {α : Type} [Model α] (text : String) (a : α) : Prop :=
  ∃ d, Model.readYaml α text = some d ∧ ∀ fresh, Model.settle d fresh = (a, fresh)

/-- A model whose YAML text is read as a draft that settles to the model, with nothing drawn. -/
def Model.ReadsBackYaml {α : Type} [Model α] (a : α) : Prop :=
  Model.ReadsBackYamlFrom (Model.toYaml a) a

theorem Model.readsBackYaml_iff_eq {α : Type} [Model α] {a b : α}
    (h : ReadsBackYamlFrom (toYaml a) b) : ReadsBackYaml a ↔ b = a := by
  refine ⟨fun ⟨d, hd, hsettle⟩ => ?_, fun heq => by rwa [heq] at h⟩
  obtain ⟨d', hd', hsettle'⟩ := h
  obtain rfl : d = d' := Option.some.inj (hd.symm.trans hd')
  let fresh : Fresh := ⟨Supply.constant Uuid.nil, Supply.constant ⟨0, 0⟩⟩
  exact congrArg Prod.fst ((hsettle' fresh).symm.trans (hsettle fresh))

/-! ## Scalars -/

section

variable (d : Document) (jumps : Nat)

theorem textFromNode_key (k : String) : textFromNode d jumps (keyNode k) = some (k, jumps) := rfl

theorem textFromNode_text (s : String) :
    textFromNode d jumps (Leaf.node (.text s)) = some (s, jumps) := by
  simp [textFromNode, Document.follow, Leaf.node, Leaf.chars]

theorem checkedFromNode_text {α ε : Type} {read : String → Except ε α} {s : String} {a : α}
    (h : read s = .ok a) :
    checkedFromNode read d jumps (Leaf.node (.text s)) = some (a, jumps) := by
  simp [checkedFromNode, textFromNode_text, h]

theorem fromNode_uuid (u : Uuid) :
    checkedFromNode Uuid.read d jumps (Leaf.node (.text u.toText)) = some (u, jumps) :=
  checkedFromNode_text d jumps u.read_toText

theorem fromNode_instant {t : Instant} (h : t.IsProper) (hyear : t.HasPlainYear) :
    checkedFromNode Instant.read d jumps (Leaf.node (.text t.toText)) = some (t, jumps) :=
  checkedFromNode_text d jumps (Instant.read_toText h hyear)

theorem Term.fromNode_leaf (t : Term) : Term.fromNode d jumps t.leaf.node = some (t, jumps) := by
  have hvalue : scalarValue none t.leaf.style (String.ofList t.leaf.chars) = some t.leaf.value :=
    untaggedValue_leaf t.leaf
  have hterm : Term.ofScalar t.leaf.value = some t := by cases t <;> rfl
  simp [Term.fromNode, Document.follow, Leaf.node, localTag?, hvalue, hterm]

theorem isNullScalar_leaf (v : Leaf) :
    isNullScalar none v.style (String.ofList v.chars) = some false := by
  have hnull : v.value ≠ .null := by
    intro h
    cases v <;> cases h
  exact isNullScalar_of_ne_null (untaggedValue_leaf v) hnull

/-- **No scalar of a flag or a text** is taken for null. -/
theorem optionalFromNode_leaf {α : Type} {read : Reading α} {v : Leaf} {a : α}
    (h : read jumps v.node = some (a, jumps)) :
    optionalFromNode read d jumps v.node = some (some a, jumps) := by
  have hfollow : d.follow jumps v.node = some (v.node, jumps) := rfl
  rw [optionalFromNode, hfollow]
  simp only [Option.bind_eq_bind, Option.bind_some, h, Option.map_some]
  rw [Leaf.node]
  simp only [isNullScalar_leaf, Option.bind_some, Bool.false_eq_true, if_false]

end

/-! ## Entries -/

theorem Entry.exists_readYaml {α : Type} [Entry α] [Entry.Written α] (a : α) :
    ∃ d, Model.readYaml α (Model.toYaml a) = ((Record.rowFromEntries d (Entry.schema α)
      (Row.empty (Entry.schema α).fields) d.jumps (Entry.Written.leaves a).entries).bind fun row =>
        (Row.complete (Entry.schema α).fields row).toOption).bind fun record =>
          (Entry.build record).toOption := by
  obtain ⟨d, hd, hroot⟩ := documentOf_leaves (Entry.Written.ne_nil a) (Entry.hasKeys_leaves a)
  have hfollow : d.follow d.jumps (Entry.Written.leaves a).node =
      some ((Entry.Written.leaves a).node, d.jumps) := rfl
  have hentries : Record.entriesOf (Entry.Written.leaves a).node =
      some (Entry.Written.leaves a).entries := rfl
  have hrecord : Record.fromYaml (Entry.schema α) (print (Entry.toJson a)) =
      (Record.rowFromEntries d (Entry.schema α) (Row.empty (Entry.schema α).fields) d.jumps
        (Entry.Written.leaves a).entries).bind fun row =>
          (Row.complete (Entry.schema α).fields row).toOption := by
    rw [Entry.Written.toJson_eq, Record.fromYaml, hd]
    simp only [Option.bind_eq_bind, Option.bind_some, Record.fromNode, hroot, hfollow, hentries]
  refine ⟨d, ?_⟩
  change Entry.fromYaml α (print (Entry.toJson a)) = _
  rw [Entry.fromYaml, hrecord]
  rfl

/-- **An entry is read back** if the row of its fields is full and makes it. -/
theorem Entry.readsBackYaml {α : Type} [Entry α] [Entry.Written α] {a : α}
    (row : Row (Entry.schema α).fields) (record : Filled (Entry.schema α).fields)
    (draft : Entry.Draft α) (hrow : ∀ d jumps, Record.rowFromEntries d (Entry.schema α)
      (Row.empty (Entry.schema α).fields) jumps (Entry.Written.leaves a).entries = some row)
    (hcomplete : Row.complete (Entry.schema α).fields row = .ok record)
    (hbuild : Entry.build record = .ok draft)
    (hsettle : ∀ fresh, Entry.settle draft fresh = (a, fresh)) : Model.ReadsBackYaml a := by
  obtain ⟨d, hd⟩ := Entry.exists_readYaml a
  rw [hrow, Option.bind_some, hcomplete, show (Except.ok record : Except Misread _).toOption =
    some record from rfl, Option.bind_some, hbuild] at hd
  exact ⟨draft, hd, hsettle⟩

theorem fromNode_required (d : Document) (name : String) (k : Field.Kind) :
    Field.fromNode d ⟨name, k, false⟩ = k.fromNode d := rfl

theorem fromNode_optional (d : Document) (name : String) (k : Field.Kind) :
    Field.fromNode d ⟨name, k, true⟩ = optionalFromNode (k.fromNode d) d := rfl

theorem Modifier.readsBackYaml {m : Modifier} (h : m.IsWellFormed) : Model.ReadsBackYaml m := by
  refine Entry.readsBackYaml (some m.name, some m.title, ()) (m.name, m.title, ()) m
    (fun d jumps => ?_) rfl h.make_eq fun _ => rfl
  change Record.rowFromEntries d Modifier.schema (none, none, ()) jumps m.leaves.entries = _
  simp [Modifier.leaves, Leaves.entries, Record.rowFromEntries, Row.put, textFromNode_key,
    fromNode_required, Field.Kind.fromNode, textFromNode_text, Result.map_ok]

theorem Category.readsBackYaml {c : Category} (h : c.IsWellFormed) : Model.ReadsBackYaml c := by
  have hbuild : Category.Draft.make (some c.uuid) c.name c.description =
      ⟨some c.uuid, c.name, c.description⟩ := by
    rw [Draft.make, h.name.normalized_eq, map_trim_eq_self h.description]
  refine Entry.readsBackYaml (some (some c.uuid), some c.name, c.description.map some, ())
    (some c.uuid, c.name, c.description, ()) ⟨some c.uuid, c.name, c.description⟩
    (fun d jumps => ?_) ?_ (congrArg Except.ok hbuild) fun _ => rfl
  · change Record.rowFromEntries d Category.schema (none, none, none, ()) jumps c.leaves.entries = _
    cases hd : c.description <;>
      simp [Category.leaves, textLeaf, hd, Leaves.entries, Record.rowFromEntries, Row.put,
        textFromNode_key, fromNode_required, fromNode_optional, Field.Kind.fromNode,
        Term.fromNode_leaf, optionalFromNode_leaf d _ (fromNode_uuid d _ _),
        optionalFromNode_leaf d _ (textFromNode_text d _ _), Result.map_ok]
  · cases hd : c.description <;> rfl

theorem Action.readsBackYaml {a : Action} (h : a.IsWellFormed) : Model.ReadsBackYaml a := by
  have hbuild : Action.make a.name a.title a.description a.shape.word = .ok a := by
    rw [make, Shape.read_word, Result.map_ok, h.ofParts_eq]
  refine Entry.readsBackYaml
    (some a.name, some a.title, some a.description, some (some a.shape.word), ())
    (a.name, a.title, a.description, some a.shape.word, ()) a (fun d jumps => ?_) rfl hbuild
    fun _ => rfl
  change Record.rowFromEntries d Action.schema (none, none, none, none, ()) jumps
    a.leaves.entries = _
  simp [Action.leaves, Leaves.entries, Record.rowFromEntries, Row.put, textFromNode_key,
    fromNode_required, fromNode_optional, Field.Kind.fromNode, textFromNode_text,
    optionalFromNode_leaf d _ (textFromNode_text d _ _), Result.map_ok]

theorem Script.readsBackYaml (s : Script) : Model.ReadsBackYaml s := by
  refine Entry.readsBackYaml (some (some s.uuid), some s.text, ()) (some s.uuid, s.text, ())
    ⟨some s.uuid, s.text⟩ (fun d jumps => ?_) rfl rfl fun _ => rfl
  change Record.rowFromEntries d Script.schema (none, none, ()) jumps s.leaves.entries = _
  simp [Script.leaves, Leaves.entries, Record.rowFromEntries, Row.put, textFromNode_key,
    fromNode_required, fromNode_optional, Field.Kind.fromNode, textFromNode_text,
    optionalFromNode_leaf d _ (fromNode_uuid d _ _), Result.map_ok]

theorem Stamp.readsBackYaml {s : Stamp} (h : s.IsWellFormed) (hproper : s.updated.IsProper)
    (hyear : s.updated.HasPlainYear) : Model.ReadsBackYaml s := by
  refine Entry.readsBackYaml (s.name.map some, s.description.map some, some (some s.updated), ())
    (s.name, s.description, some s.updated, ()) ⟨s.name, s.description, some s.updated⟩
    (fun d jumps => ?_) ?_ (congrArg Except.ok h.draft_eq) fun _ => rfl
  · change Record.rowFromEntries d Stamp.schema (none, none, none, ()) jumps s.leaves.entries = _
    cases hn : s.name <;> cases hd : s.description <;>
      simp [Stamp.leaves, textLeaf, hn, hd, Leaves.entries, Record.rowFromEntries, Row.put,
        textFromNode_key, fromNode_optional, Field.Kind.fromNode,
        optionalFromNode_leaf d _ (textFromNode_text d _ _),
        optionalFromNode_leaf d _ (fromNode_instant d _ hproper hyear), Result.map_ok]
  · cases hn : s.name <;> cases hd : s.description <;> rfl

/-- **The text of a stamp** gives the stamp with the instant that it names. -/
theorem Stamp.readsBackYamlFrom_asWritten {s : Stamp} (h : s.IsWellFormed)
    (hheld : s.updated.IsHeld) (hyear : s.updated.HasPlainYear) :
    Model.ReadsBackYamlFrom (Model.toYaml s) s.asWritten := by
  have htext : Model.toYaml s.asWritten = Model.toYaml s :=
    congrArg print (toJson_asWritten hheld)
  rw [← htext]
  exact readsBackYaml h.asWritten (Instant.isProper_asWritten hheld)
    ((Instant.hasPlainYear_asWritten hheld).mpr hyear)

/-! ## Parts of entries -/

theorem fromRoot_leaf {α : Type} {read : Document → Reading α} {v : Leaf} {a : α}
    (h : ∀ d jumps, read d jumps v.node = some (a, jumps)) :
    fromRoot read (print v.toJson) = some a := by
  obtain ⟨d, hd, hroot⟩ := documentOf_leaf v
  simp only [fromRoot, hd, hroot, h, Option.bind_eq_bind, Option.bind_some, Option.map_some]

theorem Term.readsBackYaml (t : Term) : Model.ReadsBackYaml t := by
  refine ⟨t, ?_, fun _ => rfl⟩
  change fromRoot Term.fromNode (print t.toJson) = some t
  rw [← t.toJson_leaf]
  exact fromRoot_leaf fun d jumps => fromNode_leaf d jumps t

theorem Uuid.readsBackYaml (u : Uuid) : Model.ReadsBackYaml u := by
  refine ⟨u, ?_, fun _ => rfl⟩
  change fromRoot (checkedFromNode Uuid.read) (print (Leaf.toJson (.text u.toText))) = some u
  exact fromRoot_leaf fun d jumps => fromNode_uuid d jumps u

theorem Instant.readsBackYaml {t : Instant} (h : t.IsProper) (hyear : t.HasPlainYear) :
    Model.ReadsBackYaml t := by
  refine ⟨t, ?_, fun _ => rfl⟩
  change fromRoot (checkedFromNode Instant.read) (print (Leaf.toJson (.text t.toText))) = some t
  exact fromRoot_leaf fun d jumps => fromNode_instant d jumps h hyear

/-- **The text of an instant** gives the instant that it names. -/
theorem Instant.readsBackYamlFrom_asWritten {t : Instant} (h : t.IsHeld) (hyear : t.HasPlainYear) :
    Model.ReadsBackYamlFrom (Model.toYaml t) t.asWritten := by
  have htext : Model.toYaml t.asWritten = Model.toYaml t :=
    congrArg (fun s => print (.string s)) (toText_asWritten h)
  rw [← htext]
  exact readsBackYaml (isProper_asWritten h) ((hasPlainYear_asWritten h).mpr hyear)

theorem Shape.readsBackYaml (shape : Shape) : Model.ReadsBackYaml shape := by
  refine ⟨shape, ?_, fun _ => rfl⟩
  obtain ⟨d, hd, hroot⟩ := documentOf_leaf (.text shape.word)
  have hfollow : d.follow d.jumps (Leaf.node (.text shape.word)) =
      some (Leaf.node (.text shape.word), d.jumps) := rfl
  have hword : ofWord? shape.word = some shape := by cases shape <;> rfl
  change (documentOf (print (Leaf.toJson (.text shape.word))) >>= fun d => d >>= fromNode) = _
  simp only [hd, Option.bind_eq_bind, Option.bind_some, fromNode, hroot, hfollow]
  simp [Leaf.node, Leaf.chars, localTag?, hword]

end Methodology
