import Methodology.Proofs.Record.Proper
import Methodology.Proofs.Text.Trim
import Methodology.Record.Entries

/-!
# Well-formed entries

Every way to make an entry trims its texts, and a modifier is made of one character that is no
blank.

* `IsWellFormed`: what holds of every modifier, category, action and stamp.
* `isWellFormed_make`, `isWellFormed_apply`: **a constructor and a change** give well-formed entries.
* `isWellFormed_of_ofRecord`: so does a record.
* `Modifier.make_eq_ok_iff`, `Modifier.make_eq_error_iff`: the modifiers that are made and the names
  that are refused.
* **`blanks_normalized`**: of a text the part between its outermost blanks is kept, and a modifier has
  a name of which this is one character.
-/

namespace Methodology

open Text Result

theorem isTrimmed_of_map_trim {s : Option String} {t : String} (h : s.map trim = some t) :
    IsTrimmed t := by
  obtain ⟨u, -, rfl⟩ := Option.map_eq_some_iff.mp h
  exact isTrimmed_trim u

theorem map_trim_eq_self {s : Option String} (h : ∀ t, s = some t → IsTrimmed t) :
    s.map trim = s := by
  cases s with
  | none => rfl
  | some t => rw [Option.map_some, show trim t = t from h t rfl]

/-! ## Modifiers -/

/-- A modifier whose name is its symbol and no blank, and whose title is trimmed. -/
structure Modifier.IsWellFormed (m : Modifier) : Prop where
  name : m.name.toList = [m.symbol]
  symbol : isBlank m.symbol = false
  title : IsTrimmed m.title

namespace Modifier

theorem make_eq_ok_iff {name title : String} {m : Modifier} : make name title = .ok m ↔
    (trim name).toList = [m.symbol] ∧ m = ⟨trim name, trim title⟩ := by
  simp only [make]
  split
  · next c hname =>
    rw [Except.ok.injEq, eq_comm, iff_and_self]
    rintro rfl
    simp only [symbol, hname]
    rfl
  · next hname =>
    have hnone : (trim name).toList ≠ [m.symbol] := hname m.symbol
    simp only [hnone, false_and, reduceCtorEq]

theorem make_eq_error_iff {name title : String} {e : FieldError} : make name title = .error e ↔
    e = .modifierName (trim name) ∧ ¬ ∃ c, (trim name).toList = [c] := by
  simp only [make]
  split
  · next c hname => simp [hname]
  · next hname =>
    have hnone : ¬ ∃ c, (trim name).toList = [c] := fun ⟨c, hc⟩ => hname c hc
    rw [Except.error.injEq, eq_comm, and_iff_left hnone]

theorem exists_make_iff {name title : String} :
    (∃ m, make name title = .ok m) ↔ ∃ c, (trim name).toList = [c] := by
  constructor
  · rintro ⟨m, h⟩
    exact ⟨m.symbol, (make_eq_ok_iff.mp h).1⟩
  · rintro ⟨c, hname⟩
    refine ⟨⟨trim name, trim title⟩, make_eq_ok_iff.mpr ⟨?_, rfl⟩⟩
    simp only [symbol, hname]
    rfl

theorem IsWellFormed.isTrimmed_name {m : Modifier} (h : m.IsWellFormed) : IsTrimmed m.name := by
  rw [isTrimmed_iff, h.name]
  exact isBare_of_forall fun c hc => List.mem_singleton.mp hc ▸ h.symbol

theorem isWellFormed_make {name title : String} {m : Modifier} (h : make name title = .ok m) :
    m.IsWellFormed := by
  obtain ⟨hname, hm⟩ := make_eq_ok_iff.mp h
  have hbare := isTrimmed_iff.mp (isTrimmed_trim name)
  rw [hname] at hbare
  refine ⟨?_, hbare.1 m.symbol rfl, ?_⟩
  · rw [congrArg Modifier.name hm, hname]
  · rw [congrArg Modifier.title hm]
    exact isTrimmed_trim title

theorem isWellFormed_apply {m m' : Modifier} {c : Change} (h : m.apply c = .ok m') :
    m'.IsWellFormed := by
  cases c with
  | name name => exact isWellFormed_make h
  | title title => exact isWellFormed_make h

theorem isWellFormed_of_ofRecord {record : Filled schema.fields} {m : Modifier}
    (h : ofRecord record = .ok m) : m.IsWellFormed := isWellFormed_make h

theorem IsWellFormed.make_eq {m : Modifier} (h : m.IsWellFormed) : make m.name m.title = .ok m := by
  have hname : trim m.name = m.name := h.isTrimmed_name
  have htitle : trim m.title = m.title := h.title
  refine make_eq_ok_iff.mpr ⟨?_, ?_⟩
  · rw [hname, h.name]
  · rw [hname, htitle]

end Modifier

/-- **What is kept of a text, and the names of which a modifier is made.** A text is a core between
blanks in one way, or all blanks; trimming leaves the core, and keeps the text itself exactly where
there are no blanks around it. Trimming again and more blanks around the text change nothing. A
modifier is made of a text whose core is one character, which is its symbol; otherwise the core is
refused. -/
theorem blanks_normalized (s : String) :
    (∀ t, (∃ before behind, IsFramed s before t behind) ↔ t = trim s) ∧
    (∀ before core behind, IsFramed s before core behind →
      (∀ before' core' behind', IsFramed s before' core' behind' → core ≠ "" →
        before = before' ∧ behind = behind') ∧
      (KeepsSize s ↔ before = "" ∧ behind = "")) ∧
    trim s = (if KeepsSize s then s else String.ofList (trimBlanks s.toList)) ∧
    trim (trim s) = trim s ∧
    (∀ front rear : String, (∀ c ∈ front.toList, isBlank c) → (∀ c ∈ rear.toList, isBlank c) →
      trim (front ++ s ++ rear) = trim s) ∧
    ∀ title,
      ((∃ m, Modifier.make s title = .ok m) ↔ (trim s).length = 1) ∧
      (∀ m, Modifier.make s title = .ok m ↔
        (trim s).toList = [m.symbol] ∧ m = ⟨trim s, trim title⟩) ∧
      ∀ e, Modifier.make s title = .error e ↔
        e = .modifierName (trim s) ∧ (trim s).length ≠ 1 := by
  have hone : (∃ c, (trim s).toList = [c]) ↔ (trim s).length = 1 := by
    rw [← String.length_toList, List.length_eq_one_iff]
  refine ⟨fun t => exists_isFramed_iff, fun before core behind h => ⟨fun _ _ _ h' => h.unique h',
    h.keepsSize_iff⟩, trim_eq_ite s, isTrimmed_trim s, fun front rear => trim_padded,
    fun title => ⟨?_, fun m => Modifier.make_eq_ok_iff, fun e => ?_⟩⟩
  · rw [Modifier.exists_make_iff, hone]
  · rw [Modifier.make_eq_error_iff, hone]

/-- A name of one character of two bytes, between blanks of one, two and three bytes. -/
def widePadded : String := "\u3000é\u00a0 "

theorem isFramed_widePadded : IsFramed widePadded "\u3000" "é" "\u00a0 " :=
  ⟨by decide, List.all_eq_true.mp (by decide), List.all_eq_true.mp (by decide),
    isTrimmed_iff.mp (by decide +kernel)⟩

theorem blanks_normalized_widePadded :
    trim widePadded = "é" ∧ ¬ KeepsSize widePadded ∧
    (∀ before core behind, IsFramed widePadded before core behind →
      before = "\u3000" ∧ behind = "\u00a0 ") ∧
    trim ("\t" ++ widePadded ++ "\u2028") = "é" ∧
    Modifier.make widePadded "Accented" = .ok ⟨"é", "Accented"⟩ := by
  obtain ⟨hcore, hframed, -, -, hpadded, hmake⟩ := blanks_normalized widePadded
  have htrim : "é" = trim widePadded := (hcore "é").mp ⟨_, _, isFramed_widePadded⟩
  obtain ⟨hunique, hsize⟩ := hframed _ _ _ isFramed_widePadded
  have hpadding := hpadded "\t" "\u2028" (List.all_eq_true.mp (by decide))
    (List.all_eq_true.mp (by decide))
  have htitle : IsTrimmed "Accented" := by decide +kernel
  refine ⟨htrim.symm, fun h => absurd (hsize.mp h).1 (by decide), fun before core behind h => ?_,
    hpadding.trans htrim.symm, ((hmake "Accented").2.1 _).mpr ⟨?_, ?_⟩⟩
  · obtain ⟨hbefore, hbehind⟩ := hunique before core behind h (by decide)
    exact ⟨hbefore.symm, hbehind.symm⟩
  · rw [← htrim]
    decide
  · rw [← htrim, show trim "Accented" = "Accented" from htitle]

/-! ## Categories -/

/-- A term whose text is trimmed. -/
def Term.IsTrimmed : Term → Prop
  | flag _ => True
  | text s => Text.IsTrimmed s

theorem Term.isTrimmed_normalized (t : Term) : t.normalized.IsTrimmed := by
  cases t with
  | flag b => trivial
  | text s => exact isTrimmed_trim s

theorem Term.IsTrimmed.normalized_eq {t : Term} (h : t.IsTrimmed) : t.normalized = t := by
  cases t with
  | flag b => rfl
  | text s => exact congrArg Term.text h

/-- A category whose name and description are trimmed. -/
structure Category.IsWellFormed (c : Category) : Prop where
  name : c.name.IsTrimmed
  description : ∀ s, c.description = some s → IsTrimmed s

namespace Category

theorem isWellFormed_mint (ids : Supply Uuid) (name : Term) (description : Option String) :
    (mint ids name description).1.IsWellFormed :=
  ⟨name.isTrimmed_normalized, fun _ h => isTrimmed_of_map_trim h⟩

theorem isWellFormed_apply {c : Category} (h : c.IsWellFormed) (change : Change) :
    (c.apply change).IsWellFormed := by
  cases change with
  | name name => exact ⟨name.isTrimmed_normalized, h.description⟩
  | description description => exact ⟨h.name, fun _ h => isTrimmed_of_map_trim h⟩

theorem isWellFormed_of_ofRecord {record : Filled schema.fields} {d : Draft}
    (h : ofRecord record = .ok d) (fresh : Fresh) : (d.settle fresh).1.IsWellFormed := by
  cases h
  exact ⟨Term.isTrimmed_normalized _, fun _ h => isTrimmed_of_map_trim h⟩

end Category

/-! ## Actions -/

/-- An action whose texts are trimmed. -/
structure Action.IsWellFormed (a : Action) : Prop where
  name : IsTrimmed a.name
  title : IsTrimmed a.title
  description : IsTrimmed a.description

namespace Action

theorem isWellFormed_ofParts (name title description : String) (shape : Shape) :
    (ofParts name title description shape).IsWellFormed :=
  ⟨isTrimmed_trim name, isTrimmed_trim title, isTrimmed_trim description⟩

theorem isWellFormed_make {name title description word : String} {a : Action}
    (h : make name title description word = .ok a) : a.IsWellFormed := by
  obtain ⟨shape, -, rfl⟩ := map_eq_ok.mp h
  exact isWellFormed_ofParts name title description shape

theorem isWellFormed_apply {a a' : Action} {c : Change} (h : a.apply c = .ok a') :
    a'.IsWellFormed := by
  cases c with
  | name name => cases h; exact isWellFormed_ofParts _ _ _ _
  | title title => cases h; exact isWellFormed_ofParts _ _ _ _
  | description description => cases h; exact isWellFormed_ofParts _ _ _ _
  | shape word => exact isWellFormed_make h

theorem isWellFormed_of_ofRecord {record : Filled schema.fields} {a : Action}
    (h : ofRecord record = .ok a) : a.IsWellFormed := by
  obtain ⟨name, title, description, word, _⟩ := record
  cases word with
  | some word => exact isWellFormed_make h
  | none =>
    cases h
    exact isWellFormed_ofParts _ _ _ _

theorem IsWellFormed.ofParts_eq {a : Action} (h : a.IsWellFormed) :
    ofParts a.name a.title a.description a.shape = a := by
  have hname : trim a.name = a.name := h.name
  have htitle : trim a.title = a.title := h.title
  have hdescription : trim a.description = a.description := h.description
  simp only [ofParts, hname, htitle, hdescription]

end Action

/-! ## Stamps -/

/-- A stamp whose texts are trimmed. -/
structure Stamp.IsWellFormed (s : Stamp) : Prop where
  name : ∀ t, s.name = some t → IsTrimmed t
  description : ∀ t, s.description = some t → IsTrimmed t

namespace Stamp

theorem IsWellFormed.draft_eq {s : Stamp} (h : s.IsWellFormed) :
    Draft.make s.name s.description (some s.updated) = ⟨s.name, s.description, some s.updated⟩ := by
  rw [Draft.make, map_trim_eq_self h.name, map_trim_eq_self h.description]

theorem isWellFormed_make (now : Instant) (name description : Option String)
    (updated : Option Instant) : (make now name description updated).IsWellFormed :=
  ⟨fun _ h => isTrimmed_of_map_trim h, fun _ h => isTrimmed_of_map_trim h⟩

theorem isWellFormed_apply {s : Stamp} (h : s.IsWellFormed) (change : Change) :
    (s.apply change).IsWellFormed := by
  cases change with
  | name name => exact ⟨fun _ h => isTrimmed_of_map_trim h, h.description⟩
  | description description => exact ⟨h.name, fun _ h => isTrimmed_of_map_trim h⟩
  | updated updated => exact ⟨h.name, h.description⟩

theorem isWellFormed_of_ofRecord {record : Filled schema.fields} {d : Draft}
    (h : ofRecord record = .ok d) (fresh : Fresh) : (d.settle fresh).1.IsWellFormed := by
  cases h
  exact ⟨fun _ h => isTrimmed_of_map_trim h, fun _ h => isTrimmed_of_map_trim h⟩

theorem isProper_of_ofRecord {record : Filled schema.fields} {d : Draft}
    (h : ofRecord record = .ok d) (hrecord : Filled.IsProper schema.fields record) :
    ∀ t, d.updated = some t → t.IsProper := by
  cases h
  exact hrecord.2.2.1

end Stamp

end Methodology
