import Mathlib.Data.List.Basic
import Methodology.CommandLine.Validate
import Methodology.Proofs.Vocabulary.Displayed
import Methodology.Proofs.Yaml.Shown

/-!
# The lines of a report

A report has a block of lines for each path: one line about a document that loads or cannot be read,
and one more line for each violation of a document that breaks rules. A document can put more lines
into its block, since some of what stands in it is repeated as it is.

* `added`: what the reader of YAML complains about, which is a parameter.
* `linesAbout`, `linesDue`: the lines about a document, and how many lines a block should have.
* `Forges`, `IsForged`: texts and files that put a line break into the lines about them.
* `load_cases`: the outcome of **every load**.
* `outcomes`, `reportFrom_eq`: the report on all paths.
* **`report_lines`**: the lines of every report; `not_length_eq_linesDue`: a report with more of
  them.
-/

namespace Methodology

open Text Result

theorem Json.Fault.not_hasBreak_message (f : Json.Fault) (text : List Char) :
    ¬ HasBreak (f.message text) := by
  have hcause : ¬ HasBreak f.cause.message := by
    cases f.cause <;> simp [Malformed.message, HasBreak]
  have hwords : ¬ HasBreak " at line " ∧ ¬ HasBreak " column " := by simp [HasBreak]
  unfold message located
  simp [hcause, hwords]

namespace CommandLine

/-! ## The lines about a document -/

/-- What the reader of YAML adds to its refusal of a text. -/
def added (complaint : String → String) : Format → String → String
  | .json, _ => ""
  | .yaml, text => if (Yaml.read text).isNone then complaint text else ""

/-- What is added to the refusal of the file at a path. -/
def addedAt (complaint : String → String) (files : Files) (path : String) : String :=
  match Vocabulary.readFile files path with
  | .ok (format, text) => added complaint format text
  | .error _ => ""

/-- **The lines about a document**, the complaint of the reader of YAML among them. -/
def linesAbout (complaint : String → String) (files : Files) :
    String × Except DocumentError Vocabulary → List String
  | (path, .ok v) => ["OK   " ++ path ++ " (" ++ number v.size ++ " entries)"]
  | (path, .error (.invalid violations)) =>
    ("FAIL " ++ path ++ " (" ++ number violations.length ++ " violations)") ::
      violations.map Violation.display
  | (path, .error e) => ["FAIL " ++ path ++ ": " ++ e.message ++ addedAt complaint files path]

theorem linesAbout_of_error {complaint : String → String} {files : Files} {path : String}
    {e : DocumentError} (h : ∀ violations, e ≠ .invalid violations) :
    linesAbout complaint files (path, .error e) =
      ["FAIL " ++ path ++ ": " ++ e.message ++ addedAt complaint files path] := by
  cases e with
  | invalid violations => exact absurd rfl (h violations)
  | _ => rfl

/-- How many lines the block of a document should have: a header and a line for each violation. -/
def linesDue : Except DocumentError Vocabulary → Nat
  | .error (.invalid violations) => 1 + violations.length
  | _ => 1

/-- **Texts that repeat a line break**: in the complaint of the reader of YAML, in a tag of a key
that is no text, or in what is shown of the violations of a document. -/
inductive Forges (complaint : String → String) : Format → String → Prop
  | complaint {text : String} (hread : Yaml.read text = none) (hbreak : HasBreak (complaint text)) :
    Forges complaint .yaml text
  | tag {text : String} {v k : Yaml.Value} {tag : List Char} (hread : Yaml.read text = some v)
    (hkey : v.toJson = .error (.key k)) (htag : tag ∈ k.tags) (hbreak : '\n' ∈ tag) :
    Forges complaint .yaml text
  | document {format : Format} {text : String} {value : Json}
    (hvalue : Vocabulary.valueOf format text = .ok value) (hforges : value.Forges) :
    Forges complaint format text

/-- A path whose file repeats a line break. -/
def IsForged (complaint : String → String) (files : Files) (path : String) : Prop :=
  ∃ format text, Vocabulary.readFile files path = .ok (format, text) ∧ Forges complaint format text

/-! ## Loading -/

section Load

variable {complaint : String → String} {format : Format} {text : String}

theorem forges_iff_of_value {value : Json} (h : Vocabulary.valueOf format text = .ok value) :
    Forges complaint format text ↔ value.Forges := by
  refine ⟨fun hforges => ?_, .document h⟩
  cases hforges with
  | complaint hread _ =>
    simp only [Vocabulary.valueOf, hread] at h
    cases h
  | tag hread hkey _ _ =>
    simp only [Vocabulary.valueOf, hread, hkey] at h
    cases h
  | document hvalue hforges =>
    rw [h] at hvalue
    cases hvalue
    exact hforges

/-- **A text without a data value** is refused, in a message that shows a line break exactly if the
text puts it there. -/
theorem valueOf_refused (complaint : String → String) {e : DocumentError}
    (h : Vocabulary.valueOf format text = .error e) :
    (∃ reason, e = .parse reason) ∧
      (HasBreak (e.message ++ added complaint format text) ↔ Forges complaint format text) := by
  have hword : ¬ HasBreak "parse error: " := by simp [HasBreak]
  have hdocument : ∀ value, Vocabulary.valueOf format text ≠ .ok value := by
    intro value hvalue
    cases h.symm.trans hvalue
  cases format with
  | json =>
    obtain ⟨f, -, rfl⟩ := mapError_eq_error.mp h
    refine ⟨⟨_, rfl⟩, iff_of_false ?_ fun hforges => ?_⟩
    · have hjson : ¬ HasBreak "invalid JSON: " := by simp [HasBreak]
      change ¬ HasBreak ("parse error: " ++ ("invalid JSON: " ++ f.message text.toList) ++ "")
      simp [hword, hjson, f.not_hasBreak_message]
    · cases hforges with
      | document hvalue _ => exact hdocument _ hvalue
  | yaml =>
    cases hread : Yaml.read text with
    | none =>
      have hyaml : ¬ HasBreak "invalid YAML" := by simp [HasBreak]
      simp only [Vocabulary.valueOf, hread] at h
      cases h
      refine ⟨⟨_, rfl⟩, ?_⟩
      rw [added, hread]
      change HasBreak ("parse error: " ++ "invalid YAML" ++ complaint text) ↔ _
      rw [hasBreak_append, hasBreak_append, or_iff_right (not_or.mpr ⟨hword, hyaml⟩)]
      refine ⟨.complaint hread, fun hforges => ?_⟩
      cases hforges with
      | complaint _ hbreak => exact hbreak
      | tag hsome => cases hread.symm.trans hsome
      | document hvalue => exact absurd hvalue (hdocument _)
    | some v =>
      simp only [Vocabulary.valueOf, hread] at h
      obtain ⟨u, hu, rfl⟩ := mapError_eq_error.mp h
      refine ⟨⟨_, rfl⟩, ?_⟩
      have hconversion : ¬ HasBreak "YAML-to-JSON conversion failed: " := by simp [HasBreak]
      rw [added, hread]
      change HasBreak
        ("parse error: " ++ ("YAML-to-JSON conversion failed: " ++ u.message) ++ "") ↔ _
      rw [String.append_empty, hasBreak_append, hasBreak_append, or_iff_right hword,
        or_iff_right hconversion, u.hasBreak_message_iff]
      constructor
      · rintro ⟨k, tag, rfl, htag, hbreak⟩
        exact .tag hread hu htag hbreak
      · intro hforges
        cases hforges with
        | complaint hnone => cases hread.symm.trans hnone
        | tag hsome hkey htag hbreak =>
          cases hread.symm.trans hsome
          cases hu.symm.trans hkey
          exact ⟨_, _, rfl, htag, hbreak⟩
        | document hvalue => exact absurd hvalue (hdocument _)

variable {files : Files} {path : String}

theorem isForged_iff_of_read (h : Vocabulary.readFile files path = .ok (format, text)) :
    IsForged complaint files path ↔ Forges complaint format text := by
  refine ⟨fun ⟨format', text', hread, hforges⟩ => ?_, fun hforges => ⟨format, text, h, hforges⟩⟩
  cases h.symm.trans hread
  exact hforges

/-- **A file that is not read** is refused, in a message that shows its path and the reason. -/
theorem readFile_refused {e : DocumentError} (hpath : ¬ HasBreak path)
    (hreason : ∀ reason, files path = .error (.other reason) → ¬ HasBreak reason)
    (h : Vocabulary.readFile files path = .error e) :
    (∀ violations, e ≠ .invalid violations) ∧ ¬ HasBreak e.message := by
  have hwords : ¬ HasBreak "unsupported document format: " ∧
      ¬ HasBreak " (expected .yaml, .yml or .json)" ∧ ¬ HasBreak "document load error for '" ∧
      ¬ HasBreak "': " ∧ ¬ HasBreak "cannot read file: " := by simp [HasBreak]
  rw [Vocabulary.readFile] at h
  cases hformat : Format.ofPath path with
  | error e' =>
    rw [hformat] at h
    cases h
    have he : e = .unsupportedFormat path := by
      unfold Format.ofPath at hformat
      split at hformat <;> cases hformat
      rfl
    subst he
    refine ⟨fun _ => nofun, ?_⟩
    unfold DocumentError.message
    simp [hwords]
  | ok format =>
    rw [hformat, ok_bind] at h
    cases hfile : files path with
    | ok text =>
      rw [hfile] at h
      cases h
    | error fault =>
      rw [hfile] at h
      cases h
      have hfault : ¬ HasBreak fault.message := by
        cases fault with
        | other reason => exact hreason reason hfile
        | _ => decide
      refine ⟨fun _ => nofun, ?_⟩
      unfold DocumentError.message
      simp [hwords, hpath, hfault]

/-- **The outcome of every load**: a vocabulary, or violations, or a message, and whether a line
break of the file is shown. -/
theorem load_cases (complaint : String → String) (hpath : ¬ HasBreak path)
    (hreason : ∀ reason, files path = .error (.other reason) → ¬ HasBreak reason) (fresh : Fresh) :
    (∃ v, (Vocabulary.load files path fresh).1 = .ok v ∧ ¬ IsForged complaint files path) ∨
    (∃ violations, (Vocabulary.load files path fresh).1 = .error (.invalid violations) ∧
      violations ≠ [] ∧
      ((∃ x ∈ violations, HasBreak x.display) ↔ IsForged complaint files path)) ∨
    (∃ e, (Vocabulary.load files path fresh).1 = .error e ∧
      (∀ violations, e ≠ .invalid violations) ∧
      (HasBreak (e.message ++ addedAt complaint files path) ↔ IsForged complaint files path)) := by
  rw [Vocabulary.load]
  cases hread : Vocabulary.readFile files path with
  | error e =>
    obtain ⟨hkind, hmessage⟩ := readFile_refused hpath hreason hread
    refine .inr (.inr ⟨e, rfl, hkind, ?_⟩)
    rw [addedAt, hread, hasBreak_append, or_iff_right hmessage]
    refine iff_of_false List.not_mem_nil fun ⟨_, _, hok, _⟩ => ?_
    cases hread.symm.trans hok
  | ok file =>
    obtain ⟨format, text⟩ := file
    simp only [isForged_iff_of_read hread, addedAt, hread, Vocabulary.parse]
    cases hvalue : Vocabulary.valueOf format text with
    | error e =>
      obtain ⟨⟨reason, rfl⟩, hmessage⟩ := valueOf_refused complaint hvalue
      exact .inr (.inr ⟨_, rfl, fun _ => nofun, hmessage⟩)
    | ok value =>
      simp only [forges_iff_of_value hvalue]
      exact (validate_displayed value fresh).imp id .inl

theorem load_ne_nil (hpath : ¬ HasBreak path)
    (hreason : ∀ reason, files path = .error (.other reason) → ¬ HasBreak reason) (fresh : Fresh) :
    (Vocabulary.load files path fresh).1 ≠ .error (.invalid []) := by
  rcases load_cases (fun _ => "") hpath hreason fresh with
    ⟨v, hload, -⟩ | ⟨violations, hload, hsome, -⟩ | ⟨e, hload, hkind, -⟩
  · rw [hload]
    exact nofun
  · rw [hload]
    exact fun h => hsome (DocumentError.invalid.inj (Except.error.inj h))
  · rw [hload]
    exact fun h => hkind [] (Except.error.inj h)

/-- **The lines about a document** have a line break exactly if its file repeats one. -/
theorem exists_hasBreak_linesAbout_iff (complaint : String → String) (hpath : ¬ HasBreak path)
    (hreason : ∀ reason, files path = .error (.other reason) → ¬ HasBreak reason) (fresh : Fresh) :
    (∃ l ∈ linesAbout complaint files (path, (Vocabulary.load files path fresh).1), HasBreak l) ↔
      IsForged complaint files path := by
  have hwords : ¬ HasBreak "OK   " ∧ ¬ HasBreak "FAIL " ∧ ¬ HasBreak " (" ∧
      ¬ HasBreak " entries)" ∧ ¬ HasBreak " violations)" ∧ ¬ HasBreak ": " := by simp [HasBreak]
  rcases load_cases complaint hpath hreason fresh with
    ⟨v, hload, hforged⟩ | ⟨violations, hload, -, hforged⟩ | ⟨e, hload, hkind, hforged⟩
  · rw [hload, linesAbout]
    simp [hwords, hpath, hforged]
  · rw [hload, linesAbout, ← hforged]
    simp [hwords, hpath]
  · rw [hload, linesAbout_of_error hkind, ← hforged]
    simp [hwords, hpath]

end Load

/-! ## Headers -/

theorem countP_linesAbout (complaint : String → String) (files : Files)
    (o : String × Except DocumentError Vocabulary) :
    (linesAbout complaint files o).countP (Starts "FAIL " ·) = (if o.2.isOk then 0 else 1) ∧
      (linesAbout complaint files o).countP (Starts "OK " ·) = if o.2.isOk then 1 else 0 := by
  have hok : ∀ t, Starts "OK " ("OK   " ++ t) ∧ ¬ Starts "FAIL " ("OK   " ++ t) :=
    fun t => ⟨.append (by decide) t, not_starts_append (by decide) (by decide) t⟩
  have hfail : ∀ t, Starts "FAIL " ("FAIL " ++ t) ∧ ¬ Starts "OK " ("FAIL " ++ t) :=
    fun t => ⟨.append (by decide) t, not_starts_append (by decide) (by decide) t⟩
  have hshown : ∀ x : Violation, ¬ Starts "FAIL " x.display ∧ ¬ Starts "OK " x.display := by
    intro x
    unfold Violation.display
    simp only [String.append_assoc]
    exact ⟨not_starts_append (by decide) (by decide) _, not_starts_append (by decide) (by decide) _⟩
  obtain ⟨path, result⟩ := o
  cases result with
  | ok v =>
    simp only [linesAbout, String.append_assoc, List.countP_singleton, hok, decide_true,
      decide_false]
    exact ⟨rfl, rfl⟩
  | error e =>
    cases e with
    | invalid violations =>
      simp only [linesAbout, String.append_assoc, List.countP_cons, hfail, decide_true,
        decide_false]
      have hnone : ∀ word, (∀ x : Violation, ¬ Starts word x.display) →
          (violations.map Violation.display).countP (Starts word ·) = 0 := by
        intro word hword
        rw [List.countP_map, List.countP_eq_zero]
        exact fun x _ => by simpa using hword x
      rw [hnone "FAIL " fun x => (hshown x).1, hnone "OK " fun x => (hshown x).2]
      exact ⟨rfl, rfl⟩
    | _ =>
      simp only [linesAbout, String.append_assoc, List.countP_singleton, hfail, decide_true,
        decide_false]
      exact ⟨rfl, rfl⟩

/-! ## Reports -/

/-- **The outcome for each path**, one after the other. -/
def outcomes (files : Files) :
    List String → Fresh → List (String × Except DocumentError Vocabulary)
  | [], _ => []
  | path :: rest, fresh =>
    (path, (Vocabulary.load files path fresh).1) ::
      outcomes files rest (Vocabulary.load files path fresh).2

theorem outcomes_cons (files : Files) (path : String) (rest : List String) (fresh : Fresh) :
    outcomes files (path :: rest) fresh = (path, (Vocabulary.load files path fresh).1) ::
      outcomes files rest (Vocabulary.load files path fresh).2 := rfl

theorem map_fst_outcomes (files : Files) (paths : List String) (fresh : Fresh) :
    (outcomes files paths fresh).map Prod.fst = paths := by
  induction paths generalizing fresh with
  | nil => rfl
  | cons path paths ih => exact congrArg (path :: ·) (ih _)

theorem exists_load_of_mem {files : Files} {paths : List String} {fresh : Fresh}
    {o : String × Except DocumentError Vocabulary} (h : o ∈ outcomes files paths fresh) :
    ∃ path ∈ paths, ∃ fresh', o = (path, (Vocabulary.load files path fresh').1) := by
  induction paths generalizing fresh with
  | nil => cases h
  | cons path paths ih =>
    rcases List.mem_cons.mp h with rfl | h
    · exact ⟨path, List.mem_cons_self, fresh, rfl⟩
    · obtain ⟨path', hmem, hload⟩ := ih h
      exact ⟨path', List.mem_cons_of_mem _ hmem, hload⟩

theorem block_eq (files : Files) {o : String × Except DocumentError Vocabulary}
    (h : o.2 ≠ .error (.invalid [])) :
    block o.1 o.2 = (!o.2.isOk, Text.block (linesAbout (fun _ => "") files o)) := by
  have hadded : addedAt (fun _ => "") files o.1 = "" := by
    unfold addedAt
    split
    · next format text _ => cases format <;> simp [added]
    · rfl
  have hentries : " entries)\n" = " entries)" ++ "\n" := by decide
  have hviolations : " violations)\n" = " violations)" ++ "\n" := by decide
  have hsingleton : ∀ l, Text.block [l] = l ++ "\n" := by
    intro l
    rw [Text.block_cons]
    exact String.append_empty
  obtain ⟨path, result⟩ := o
  cases result with
  | ok v =>
    rw [block, linesAbout, hsingleton, hentries]
    simp only [String.append_assoc]
    rfl
  | error e =>
    cases e with
    | invalid violations =>
      have hsome : violations.map Violation.display ≠ [] := by
        intro hmap
        rw [List.map_eq_nil_iff] at hmap
        exact h (hmap ▸ rfl)
      rw [block, linesAbout, Text.block_cons, ← Text.intercalate_append_break hsome, hviolations,
        ← DocumentError.report]
      simp only [String.append_assoc]
      rfl
    | _ =>
      rw [linesAbout_of_error, hsingleton, hadded, String.append_empty]
      · rfl
      · exact fun _ => nofun

theorem reportFrom_cons (files : Files) (r : Report) (path : String) (rest : List String)
    (fresh : Fresh) : reportFrom files r (path :: rest) fresh =
      reportFrom files (r.add (block path (Vocabulary.load files path fresh).1)) rest
        (Vocabulary.load files path fresh).2 := by
  exact rfl

/-- **The report on all paths** has the blocks behind one another, and counts the documents that do
not load. -/
theorem reportFrom_eq {files : Files} {paths : List String} {fresh : Fresh}
    (h : ∀ o ∈ outcomes files paths fresh, o.2 ≠ .error (.invalid [])) (r : Report) :
    (reportFrom files r paths fresh).1 =
      ⟨r.failed + (outcomes files paths fresh).countP fun o => !o.2.isOk,
        r.text ++ String.join ((outcomes files paths fresh).map fun o =>
          Text.block (linesAbout (fun _ => "") files o))⟩ := by
  -- the report so far and what is left of the supply change with each path
  induction paths generalizing r fresh with
  | nil =>
    change r = ⟨r.failed, r.text ++ ""⟩
    rw [String.append_empty]
  | cons path paths ih =>
    obtain ⟨hfirst, hrest⟩ := List.forall_mem_cons.mp h
    have hblock : block path (Vocabulary.load files path fresh).1 = _ := block_eq files hfirst
    rw [reportFrom_cons, ih hrest, hblock, Report.add, outcomes_cons, List.map_cons,
      String.join_cons, List.countP_cons, String.append_assoc]
    congr 1
    simp only
    split <;> omega

theorem countP_flatMap_linesAbout (complaint : String → String) (files : Files)
    (about : List (String × Except DocumentError Vocabulary)) :
    (about.flatMap (linesAbout complaint files)).countP (Starts "FAIL " ·) =
        about.countP (fun o => !o.2.isOk) ∧
      (about.flatMap (linesAbout complaint files)).countP (Starts "OK " ·) =
        about.countP fun o => o.2.isOk := by
  induction about with
  | nil => exact ⟨rfl, rfl⟩
  | cons o about ih =>
    obtain ⟨hfail, hok⟩ := countP_linesAbout complaint files o
    simp only [List.flatMap_cons, List.countP_append, List.countP_cons, ih, hfail, hok]
    cases o.2.isOk <;> exact ⟨Nat.add_comm _ _, Nat.add_comm _ _⟩

theorem length_linesAbout (complaint : String → String) (files : Files)
    (o : String × Except DocumentError Vocabulary) :
    (linesAbout complaint files o).length = linesDue o.2 := by
  obtain ⟨path, result⟩ := o
  cases result with
  | ok v => rfl
  | error e =>
    cases e with
    | invalid violations => simp [linesAbout, linesDue, Nat.add_comm]
    | _ => rfl

/-- **The lines of every report**, whatever the files hold and the reader of YAML complains about.
The text has the complaint behind the refusal of a file, where a run leaves it out.

* The report has the blocks of the paths behind one another, and counts those that do not load.
* A block has as many lines as it should, or more; and it has more exactly if its file repeats a
  line break.
* If no file does, a line starts with `FAIL ` for each document that fails, and with `OK ` for each
  document that loads. -/
theorem report_lines (complaint : String → String) {files : Files} {paths : List String}
    (hpaths : ∀ path ∈ paths, ¬ HasBreak path)
    (hreasons : ∀ path ∈ paths, ∀ reason, files path = .error (.other reason) → ¬ HasBreak reason)
    (fresh : Fresh) :
    let about := outcomes files paths fresh
    let blockOf := fun o => Text.block (linesAbout complaint files o)
    let text := String.join (about.map blockOf)
    (⟨paths⟩ : ValidateCommand).run files fresh =
        ⟨about.countP fun o => !o.2.isOk,
          String.join (about.map fun o => Text.block (linesAbout (fun _ => "") files o))⟩ ∧
      about.map Prod.fst = paths ∧
      linesOf text = about.flatMap (fun o => linesOf (blockOf o)) ∧
      (∀ o ∈ about, linesDue o.2 ≤ (linesOf (blockOf o)).length ∧
        ((linesOf (blockOf o)).length = linesDue o.2 ↔ ¬ IsForged complaint files o.1)) ∧
      ((∀ path ∈ paths, ¬ IsForged complaint files path) →
        linesOf text = about.flatMap (linesAbout complaint files) ∧
        (linesOf text).countP (Starts "FAIL " ·) = about.countP (fun o => !o.2.isOk) ∧
        (linesOf text).countP (Starts "OK " ·) = about.countP fun o => o.2.isOk) := by
  intro about blockOf text
  have hforged : ∀ o ∈ about, (∃ l ∈ linesAbout complaint files o, HasBreak l) ↔
      IsForged complaint files o.1 := by
    intro o ho
    obtain ⟨path, hpath, fresh', rfl⟩ := exists_load_of_mem ho
    exact exists_hasBreak_linesAbout_iff complaint (hpaths _ hpath) (hreasons _ hpath) fresh'
  -- without a violation, the line break behind the violations would be a line of its own
  have hsome : ∀ o ∈ about, o.2 ≠ .error (.invalid []) := by
    intro o ho
    obtain ⟨path, hpath, fresh', rfl⟩ := exists_load_of_mem ho
    exact load_ne_nil (hpaths _ hpath) (hreasons _ hpath) fresh'
  have hrun : (⟨paths⟩ : ValidateCommand).run files fresh = _ := reportFrom_eq hsome .empty
  have htext : linesOf text = about.flatMap fun o => linesOf (blockOf o) := linesOf_blocks _ about
  refine ⟨?_, map_fst_outcomes files paths fresh, htext, fun o ho => ⟨?_, ?_⟩, fun hnone => ?_⟩
  · rw [hrun, Report.empty, Nat.zero_add, String.empty_append]
  · rw [← length_linesAbout complaint files]
    exact length_le_linesOf_block _
  · rw [← length_linesAbout complaint files, length_linesOf_block_eq_iff, ← hforged o ho]
    simp only [not_exists, not_and]
  · have hlines : linesOf text = about.flatMap (linesAbout complaint files) := by
      rw [htext]
      refine List.flatMap_congr fun o ho => linesOf_block fun l hl hbreak => ?_
      obtain ⟨path, hpath, fresh', rfl⟩ := exists_load_of_mem ho
      exact hnone path hpath ((hforged _ ho).mp ⟨l, hl, hbreak⟩)
    rw [hlines]
    exact ⟨rfl, countP_flatMap_linesAbout complaint files about⟩

/-- A document with a key that names no section, and a file that is missing. -/
theorem report_lines_twoPaths :
    let fresh : Fresh := ⟨Supply.constant Uuid.nil, Supply.constant ⟨0, 0⟩⟩
    let files : Files := fun path =>
      if path = "notes.json" then .ok "\x7b\"notes\": []\x7d" else .error .notFound
    let paths := ["notes.json", "none.yaml"]
    let report := (⟨paths⟩ : ValidateCommand).run files fresh
    (∀ path ∈ paths, ¬ HasBreak path) ∧
      (∀ path ∈ paths, ∀ reason, files path = .error (.other reason) → ¬ HasBreak reason) ∧
      (∀ path ∈ paths, ¬ IsForged (fun _ => "") files path) ∧
      (linesOf report.text).length = 3 ∧
      (linesOf report.text).countP (Starts "FAIL " ·) = report.failed ∧ report.failed = 2 := by
  intro fresh files paths report
  have hpaths : ∀ path ∈ paths, ¬ HasBreak path := by decide
  have hreasons : ∀ path ∈ paths, ∀ reason, files path = .error (.other reason) →
      ¬ HasBreak reason := by
    intro path _ reason h
    simp only [files] at h
    split at h <;> cases h
  have houtcomes : outcomes files paths fresh =
      [("notes.json", .error (.invalid [⟨.field "notes", "unknown section (expected one of: " ++
        "history, modifiers, categories, actions, scripts)"⟩])),
      ("none.yaml", .error (.load "none.yaml"
        "cannot read file: No such file or directory (os error 2)"))] := by decide +kernel
  have hplain : ∀ o ∈ outcomes files paths fresh, ∀ l ∈ linesAbout (fun _ => "") files o,
      ¬ HasBreak l := by
    rw [houtcomes]
    decide +kernel
  obtain ⟨hrun, hfst, -, hblocks, hfaithful⟩ := report_lines (fun _ => "") hpaths hreasons fresh
  have hnone : ∀ path ∈ paths, ¬ IsForged (fun _ => "") files path := by
    intro path hpath
    rw [← hfst] at hpath
    obtain ⟨o, ho, rfl⟩ := List.mem_map.mp hpath
    refine (hblocks o ho).2.mp ?_
    rw [length_linesOf_block_eq_iff.mpr (hplain o ho), length_linesAbout]
  obtain ⟨hlines, hfail, -⟩ := hfaithful hnone
  refine ⟨hpaths, hreasons, hnone, ?_, ?_, ?_⟩
  · rw [show report = _ from hrun, hlines, houtcomes]
    rfl
  · rw [show report = _ from hrun]
    exact hfail
  · rw [show report = _ from hrun, houtcomes]
    rfl

/-- **A key can forge lines of a report**: those about a document with one violation, the key of
which has a line break, tell of a document that loads, although none does. -/
theorem not_length_eq_linesDue : ¬ ∀ (files : Files) (paths : List String) (fresh : Fresh),
    (∀ path ∈ paths, ¬ HasBreak path) →
      let about := outcomes files paths fresh
      let report := (⟨paths⟩ : ValidateCommand).run files fresh
      (linesOf report.text).length = (about.map fun o => linesDue o.2).sum ∧
        (linesOf report.text).countP (Starts "FAIL " ·) = report.failed ∧
        (linesOf report.text).countP (Starts "OK " ·) = about.countP fun o => o.2.isOk := by
  intro h
  let fresh : Fresh := ⟨Supply.constant Uuid.nil, Supply.constant ⟨0, 0⟩⟩
  let files : Files := fun _ => .ok "\x7b\"x: 1\\nOK   b.json (3 entries)\": 1\x7d"
  obtain ⟨-, -, hok⟩ := h files ["a.json"] fresh (by decide)
  have htext : ((⟨["a.json"]⟩ : ValidateCommand).run files fresh).text =
      Text.block ["FAIL a.json (1 violations)", "  x: 1", "OK   b.json (3 entries): " ++
        "unknown section (expected one of: history, modifiers, categories, actions, scripts)"] := by
    decide +kernel
  have hloads : (outcomes files ["a.json"] fresh).countP (fun o => o.2.isOk) = 0 := by
    decide +kernel
  rw [htext, linesOf_block (by decide +kernel), hloads] at hok
  revert hok
  decide

end CommandLine

end Methodology
