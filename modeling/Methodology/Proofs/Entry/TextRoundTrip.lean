import Methodology.Proofs.Entry.RoundTrip
import Methodology.Proofs.Entry.Streamed
import Methodology.Proofs.Json.Layout

/-!
# Models are read back from their text

A model is read from its own text as the characters go by, with no data value between, in whichever
layout the text is.

* `Model.text`: the text of a model in a layout.
* `Model.ReadsBackFrom`, `Model.ReadsBack`: a text that gives the model, nothing being drawn for it;
  the texts in all layouts do.
* **`Model.readText_leaf`**, **`Entry.readText_text`**: the text of a part of an entry, and of an
  entry, is read as its data value is.
* **`Entry.readsBackFrom_iff`**: entries; `Term.readsBack` and its like: parts of entries.
* **`Stamp.readsBackFrom_asWritten`**, **`Instant.readsBackFrom_asWritten`**: stamps and instants
  that are written as other ones.
-/

namespace Methodology

open Json Yaml Result

/-! ## Texts -/

namespace Model

/-- **The text of a model** in a layout. -/
def text {α : Type} [Model α] (l : Layout) (a : α) : String :=
  match l with
  | .compact => toCompact a
  | .pretty => toPretty a

theorem text_eq_print {α : Type} [Model α] (l : Layout) (a : α) :
    text l a = l.print (toJson a) := by
  cases l <;> rfl

theorem text_congr {α : Type} [Model α] {a b : α} (h : toJson a = toJson b) (l : Layout) :
    text l a = text l b := by
  rw [text_eq_print, text_eq_print, h]

/-- A text that is read as a draft that settles to the model, with nothing drawn. -/
def ReadsBackFrom {α : Type} [Model α] (text : String) (a : α) : Prop :=
  ∃ d, readText α text = .ok d ∧ ∀ fresh, settle d fresh = (a, fresh)

/-- **A model is read back** from its text in every layout. -/
def ReadsBack {α : Type} [Model α] (a : α) : Prop := ∀ l, ReadsBackFrom (text l a) a

theorem ReadsBackFrom.unique {α : Type} [Model α] {text : String} {a b : α}
    (ha : ReadsBackFrom text a) (hb : ReadsBackFrom text b) : a = b := by
  obtain ⟨d, hd, hsettle⟩ := ha
  obtain ⟨d', hd', hsettle'⟩ := hb
  obtain rfl : d = d' := Except.ok.inj (hd.symm.trans hd')
  let fresh : Fresh := ⟨Supply.constant Uuid.nil, Supply.constant ⟨0, 0⟩⟩
  exact congrArg Prod.fst ((hsettle fresh).symm.trans (hsettle' fresh))

/-- A model that is read back as another one is not read back as itself. -/
theorem readsBack_iff_eq {α : Type} [Model α] {a b : α} (h : ∀ l, ReadsBackFrom (text l a) b) :
    ReadsBack a ↔ b = a :=
  ⟨fun ha => (h .compact).unique (ha .compact), fun heq => by rwa [heq] at h⟩

end Model

/-- **A part of an entry** is read from the flag or the text that it is written as. -/
theorem Model.readText_leaf {α : Type} [Model α] [Model.Streamed α] {a : α} {v : Leaf}
    (hjson : toJson a = v.toJson) (l : Layout) {d : Draft α} :
    readText α (text l a) = .ok d ↔ readValue α v.toJson = .ok d := by
  have hwritten := l.written_leaf v "" rfl
  have hsorted : v.toJson.sorted = v.toJson := by cases v <;> rfl
  rw [String.append_empty] at hwritten
  rw [text_eq_print, hjson, readText_iff_of_written hwritten, hsorted]
  intro fields hfields
  cases v <;> cases hfields

/-! ## Entries -/

namespace Entry

variable {α : Type} [Entry α] [Entry.Written α]

/-- **An entry** is read from its text as from its data value, blanks being behind it or not. -/
theorem readText_text (a : α) (l : Layout) (trail : String)
    (htrail : skipBlanks trail.toList = []) {d : Draft α} :
    Model.readText α (Model.text l a ++ trail) = .ok d ↔
      Entry.ofValue α (toJson a).sorted = .ok d := by
  have hwritten := l.written_mapping (Written.ne_nil a) trail htrail
  rw [← Written.toJson_eq] at hwritten
  rw [Model.text_eq_print]
  refine Model.readText_iff_of_written hwritten fun fields hfields => ?_
  rw [Written.toJson_eq] at hfields
  cases hfields
  have hnodup := nodup_leaves a
  rwa [Leaves.toFields, List.map_map]

/-- **An entry is read back** from its text exactly if it is from its data value. -/
theorem readsBackFrom_iff {a : α} (l : Layout) (trail : String)
    (htrail : skipBlanks trail.toList = []) :
    Model.ReadsBackFrom (Model.text l a ++ trail) a ↔ Entry.ReadsBack a :=
  exists_congr fun _ => and_congr_left' (readText_text a l trail htrail)

theorem readsBackFrom_text_iff {a : α} (l : Layout) :
    Model.ReadsBackFrom (Model.text l a) a ↔ Entry.ReadsBack a := by
  have h := readsBackFrom_iff (a := a) l "" rfl
  rwa [String.append_empty] at h

theorem ReadsBack.text {a : α} (h : Entry.ReadsBack a) : Model.ReadsBack a := fun l =>
  (readsBackFrom_text_iff l).mpr h

end Entry

/-- **The text of a stamp**, blanks being behind it or not, gives the stamp with the instant that it
names. -/
theorem Stamp.readsBackFrom_asWritten {s : Stamp} (h : s.IsWellFormed) (hheld : s.updated.IsHeld)
    (hyear : s.updated.HasPlainYear) (l : Layout) (trail : String)
    (htrail : skipBlanks trail.toList = []) :
    Model.ReadsBackFrom (Model.text l s ++ trail) s.asWritten := by
  have htext : Model.text l s.asWritten = Model.text l s :=
    Model.text_congr (toJson_asWritten hheld) l
  rw [← htext]
  exact (Entry.readsBackFrom_iff l trail htrail).mpr (readsBack_asWritten h hheld hyear)

theorem Stamp.readsBackFrom_text {s : Stamp} (h : s.IsWellFormed) (hheld : s.updated.IsHeld)
    (hyear : s.updated.HasPlainYear) (l : Layout) :
    Model.ReadsBackFrom (Model.text l s) s.asWritten := by
  have hread := readsBackFrom_asWritten h hheld hyear l "" rfl
  rwa [String.append_empty] at hread

/-! ## Parts of entries -/

theorem Model.readsBack_leaf {α : Type} [Model α] [Model.Streamed α] {a : α} {d : Draft α}
    {v : Leaf} (hjson : toJson a = v.toJson) (hread : readValue α v.toJson = .ok d)
    (hsettle : ∀ fresh, settle d fresh = (a, fresh)) : ReadsBack a := fun l =>
  ⟨d, (readText_leaf hjson l).mpr hread, hsettle⟩

theorem Term.readsBack (t : Term) : Model.ReadsBack t :=
  Model.readsBack_leaf t.toJson_leaf.symm (t.toJson_leaf ▸ t.ofValue_toJson) fun _ => rfl

theorem Instant.readsBack {t : Instant} (h : t.IsProper) (hyear : t.HasPlainYear) :
    Model.ReadsBack t := by
  have hread : ∀ v, Model.readValue Instant v = Instant.ofValue v := fun _ => rfl
  refine Model.readsBack_leaf (v := .text t.toText) rfl (d := t) ?_ fun _ => rfl
  rw [hread]
  exact Instant.ofValue_toText h hyear

/-- **The text of an instant** gives the instant that it names. -/
theorem Instant.readsBackFrom_asWritten {t : Instant} (h : t.IsHeld) (hyear : t.HasPlainYear)
    (l : Layout) : Model.ReadsBackFrom (Model.text l t) t.asWritten := by
  have htext : Model.text l t.asWritten = Model.text l t :=
    Model.text_congr (congrArg Json.string (toText_asWritten h)) l
  rw [← htext]
  exact readsBack (isProper_asWritten h) ((hasPlainYear_asWritten h).mpr hyear) l

theorem Uuid.readsBack (u : Uuid) : Model.ReadsBack u :=
  Model.readsBack_leaf (v := .text u.toText) rfl u.ofValue_toText fun _ => rfl

theorem MimeType.readsBack (m : MimeType) : Model.ReadsBack m := by
  have hread : MimeType.ofValue (.string m.contentType) = .ok m := by cases m <;> decide +kernel
  exact Model.readsBack_leaf (v := .text m.contentType) rfl hread fun _ => rfl

theorem Shape.readsBack (s : Shape) : Model.ReadsBack s := by
  have hread : Shape.ofValue (.string s.word) = .ok s := by cases s <;> rfl
  exact Model.readsBack_leaf (v := .text s.word) rfl hread fun _ => rfl

end Methodology
