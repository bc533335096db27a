import Methodology.CommandLine.Program
import Methodology.Proofs.CommandLine.Report
import Methodology.Proofs.Vocabulary.Drawn

/-!
# Reports are composed of blocks

The report on some paths is made of a block for each of them. What a block says is decided by the
file at its path alone, as long as the uuids that a load draws are new to its file.

* `valueIn`, `DrawsNew`: the value of a file, and supplies that are new to each file of a run.
* `map_size_load`: the outcome of a load does not depend on the supply; `block_congr`: and its block
  says no more.
* `reportFrom_blocks`: **the report on all paths**, each of them loaded on its own.
* **`reports_compose`**: reports behind one another, their counts, and the exit status.
-/

namespace Methodology

open Json Result

namespace CommandLine

/-! ## Loads -/

section Loads

variable {files : Files} {path : String} {known : List Identity} {fresh fresh' : Fresh} {n : Nat}

/-- The value that is read from the file at a path, if there is one. -/
def valueIn (files : Files) (path : String) : Option Json :=
  ((Vocabulary.readFile files path).bind fun file =>
    Vocabulary.valueOf file.1 file.2).toOption

/-- The fields of the value of a file. -/
def fieldsIn (files : Files) (path : String) : List (String × Json) :=
  ((valueIn files path).map fieldsOf).getD []

/-- **A supply that is new to each file** of a run: the uuids that are drawn for a file differ from one
another and from those that it states. -/
def DrawsNew (files : Files) : List String → Fresh → Prop
  | [], _ => True
  | path :: rest, fresh =>
    fresh.IsNew (statedIn (fieldsIn files path)) (drawsOf (fieldsIn files path)) ∧
      DrawsNew files rest (Vocabulary.load files path fresh).2

/-- **A load** is the validation of the value of the file, or fails whatever is drawn. -/
theorem load_eq (files : Files) (path : String) :
    (∃ value, valueIn files path = some value ∧
      ∀ fresh, Vocabulary.load files path fresh = validate value fresh) ∨
    (valueIn files path = none ∧
      ∃ e, ∀ fresh, Vocabulary.load files path fresh = (.error e, fresh)) := by
  cases hread : Vocabulary.readFile files path with
  | error e =>
    refine .inr ⟨by rw [valueIn, hread]; rfl, e, fun fresh => ?_⟩
    rw [Vocabulary.load, hread]
  | ok file =>
    obtain ⟨format, text⟩ := file
    have hvalue : valueIn files path = (Vocabulary.valueOf format text).toOption := by
      rw [valueIn, hread]
      rfl
    have hload : ∀ fresh,
        Vocabulary.load files path fresh = Vocabulary.parse format text fresh := by
      intro fresh
      rw [Vocabulary.load, hread]
    simp only [hvalue, hload, Vocabulary.parse]
    cases Vocabulary.valueOf format text with
    | error e => exact .inr ⟨rfl, e, fun _ => rfl⟩
    | ok value => exact .inl ⟨value, rfl, fun _ => rfl⟩

theorem fieldsIn_of_valueIn {value : Json} (h : valueIn files path = some value) :
    fieldsIn files path = fieldsOf value := by
  rw [fieldsIn, h]
  rfl

theorem isNew_load (h : fresh.IsNew known (drawsOf (fieldsIn files path) + n)) :
    (Vocabulary.load files path fresh).2.IsNew known n := by
  rcases load_eq files path with ⟨value, hvalue, hload⟩ | ⟨-, e, hload⟩
  · rw [fieldsIn_of_valueIn hvalue] at h
    rw [hload]
    exact isNew_validate h
  · rw [hload]
    exact h.of_eq rfl (Nat.le_add_left _ _)

/-- Uuids that are new to all files at once are new to each. -/
theorem drawsNew_of_isNew {paths : List String}
    (h : fresh.IsNew (paths.flatMap fun path => statedIn (fieldsIn files path))
      (paths.map fun path => drawsOf (fieldsIn files path)).sum) : DrawsNew files paths fresh := by
  induction paths generalizing fresh with
  | nil => trivial
  | cons path paths ih =>
    refine ⟨h.mono (fun _ hk => List.mem_append_left _ hk) (Nat.le_add_right _ _), ih ?_⟩
    exact isNew_load (h.mono (fun _ hk => List.mem_append_right _ hk) (Nat.le_refl _))

/-- **The outcome of a load** up to what is drawn. -/
theorem map_size_load {rest rest' : List String} (h : DrawsNew files (path :: rest) fresh)
    (h' : DrawsNew files (path :: rest') fresh') :
    (Vocabulary.load files path fresh).1.map Vocabulary.size =
      (Vocabulary.load files path fresh').1.map Vocabulary.size := by
  rcases load_eq files path with ⟨value, hvalue, hload⟩ | ⟨-, e, hload⟩
  · have hnew := h.1
    have hnew' := h'.1
    rw [fieldsIn_of_valueIn hvalue] at hnew hnew'
    rw [hload, hload, map_size_validate hnew hnew']
  · rw [hload, hload]

theorem block_congr {r r' : Except DocumentError Vocabulary}
    (h : r.map Vocabulary.size = r'.map Vocabulary.size) (path : String) :
    block path r = block path r' := by
  cases r with
  | ok v =>
    cases r' with
    | ok w => rw [block, block, Except.ok.inj h]
    | error e => cases h
  | error e =>
    cases r' with
    | ok w => cases h
    | error e' => rw [Except.error.inj h]

theorem block_fails (path : String) (r : Except DocumentError Vocabulary) :
    (block path r).1 = !r.isOk := by
  cases r with
  | ok v => rfl
  | error e => cases e <;> rfl

end Loads

/-! ## Reports -/

/-- **The report on all paths** has the block of each path, loaded on its own, and counts those that
do not load. -/
theorem reportFrom_blocks {files : Files} {paths : List String} {fresh : Fresh}
    (h : DrawsNew files paths fresh) {alone : String → Fresh}
    (halone : ∀ path ∈ paths, DrawsNew files [path] (alone path)) (r : Report) :
    (reportFrom files r paths fresh).1 =
      ⟨r.failed + paths.countP fun path => !(Vocabulary.load files path (alone path)).1.isOk,
        r.text ++ String.join (paths.map fun path =>
          (block path (Vocabulary.load files path (alone path)).1).2)⟩ := by
  -- the report so far and what is left of the supply change with each path
  induction paths generalizing r fresh with
  | nil =>
    change r = ⟨r.failed, r.text ++ ""⟩
    rw [String.append_empty]
  | cons path paths ih =>
    obtain ⟨hfirst, hrest⟩ := List.forall_mem_cons.mp halone
    have hblock := block_congr (map_size_load h hfirst) path
    rw [reportFrom_cons, ih h.2 hrest, hblock, Report.add, block_fails, List.map_cons,
      String.join_cons, List.countP_cons, String.append_assoc]
    congr 1
    simp only
    split <;> omega

theorem run_validate {args : List String} {c : ValidateCommand}
    (hargs : Command.parse args = .ok (.validate c)) (files : Files) (fresh : Fresh) :
    (run args files fresh).stdout = (c.run files fresh).text ∧
      ((run args files fresh).exit = 0 ↔ (c.run files fresh).failed = 0) := by
  have hrun : run args files fresh = Command.run files fresh (.validate c) := by rw [run, hargs]
  rw [hrun, Command.run]
  by_cases hnone : (c.run files fresh).failed = 0
  · simp only [hnone, if_true, and_self]
  · simp only [hnone, if_false, Nat.one_ne_zero, and_self]

/-- **Reports are composed of blocks.** The uuids that a load draws are taken to be new to its file.

* The report on two lists of paths is the one on the first and behind it the one on the second, and
  their counts add up.
* It has the block of each path, the same wherever the path stands, and counts the paths of files
  that do not load.
* The block of a file that loads tells the size of its vocabulary, which is the number of the items
  in the lists of the sections of its value.
* The program writes the report, and its exit status is zero exactly if the count is. -/
theorem reports_compose {files : Files} {ps qs : List String} {fresh fresh₁ fresh₂ : Fresh}
    (alone : String → Fresh) (hall : DrawsNew files (ps ++ qs) fresh)
    (hps : DrawsNew files ps fresh₁) (hqs : DrawsNew files qs fresh₂)
    (halone : ∀ path ∈ ps ++ qs, DrawsNew files [path] (alone path)) :
    let report := (⟨ps ++ qs⟩ : ValidateCommand).run files fresh
    let first := (⟨ps⟩ : ValidateCommand).run files fresh₁
    let second := (⟨qs⟩ : ValidateCommand).run files fresh₂
    let result := fun path => (Vocabulary.load files path (alone path)).1
    (report.text = first.text ++ second.text ∧ report.failed = first.failed + second.failed) ∧
    (report.text = String.join ((ps ++ qs).map fun path => (block path (result path)).2) ∧
      report.failed = (ps ++ qs).countP fun path => !(result path).isOk) ∧
    (∀ path v, result path = .ok v →
      (block path (result path)).2 = "OK   " ++ path ++ " (" ++ Text.number v.size ++ " entries)\n" ∧
      ∃ value, valueIn files path = some value ∧ v.size =
        (Section.all.map fun s => (itemsOf (field? s.name (fieldsOf value))).length).sum) ∧
    ∀ args, Command.parse args = .ok (.validate ⟨ps ++ qs⟩) →
      (run args files fresh).stdout = report.text ∧
      ((run args files fresh).exit = 0 ↔ report.failed = 0) := by
  intro report first second result
  obtain ⟨hfirst, hsecond⟩ := List.forall_mem_append.mp halone
  have hreport : report = _ := reportFrom_blocks hall halone .empty
  have hfirst : first = _ := reportFrom_blocks hps hfirst .empty
  have hsecond : second = _ := reportFrom_blocks hqs hsecond .empty
  simp only [Report.empty, Nat.zero_add, String.empty_append] at hreport hfirst hsecond
  refine ⟨⟨?_, ?_⟩, ⟨?_, ?_⟩, fun path v hv => ⟨?_, ?_⟩, fun args hargs => ?_⟩
  · rw [hreport, hfirst, hsecond, List.map_append, String.join_append]
  · rw [hreport, hfirst, hsecond, List.countP_append]
  · rw [hreport]
  · rw [hreport]
  · rw [hv, block]
  · rcases load_eq files path with ⟨value, hvalue, hload⟩ | ⟨-, e, hload⟩
    · have hv : (Vocabulary.load files path (alone path)).1 = .ok v := hv
      rw [hload] at hv
      exact ⟨value, hvalue, size_of_validate hv⟩
    · have hv : (Vocabulary.load files path (alone path)).1 = .ok v := hv
      rw [hload] at hv
      cases hv
  · exact run_validate hargs files fresh

/-- A document with a category and a script whose uuids are drawn, and a file that is missing. -/
theorem reports_compose_twoPaths :
    let files : Files := fun path =>
      if path = "open.json" then
        .ok "\x7b\"categories\": [\x7b\"name\": \"a\"\x7d], \"scripts\": [\x7b\"script\": \"s\"\x7d]\x7d"
      else .error .notFound
    let fresh : Fresh := ⟨fun k => ⟨BitVec.ofNat 128 k⟩, Supply.constant ⟨0, 0⟩⟩
    let ps := ["open.json", "none.yaml"]
    let qs := ["open.json"]
    let report := (⟨ps ++ qs⟩ : ValidateCommand).run files fresh
    DrawsNew files (ps ++ qs) fresh ∧ DrawsNew files ps fresh ∧ DrawsNew files qs fresh ∧
    (∀ path ∈ ps ++ qs, DrawsNew files [path] fresh) ∧
    report.failed = 1 ∧
    report.text = ((⟨ps⟩ : ValidateCommand).run files fresh).text ++
      "OK   open.json (2 entries)\n" ∧
    (run ["validate", "open.json", "none.yaml", "open.json"] files fresh).exit ≠ 0 := by
  intro files fresh ps qs report
  have hall : DrawsNew files (ps ++ qs) fresh :=
    drawsNew_of_isNew ⟨by decide +kernel, by decide +kernel⟩
  have hps : DrawsNew files ps fresh := drawsNew_of_isNew ⟨by decide +kernel, by decide +kernel⟩
  have hqs : DrawsNew files qs fresh := drawsNew_of_isNew ⟨by decide +kernel, by decide +kernel⟩
  have halone : ∀ path ∈ ps ++ qs, DrawsNew files [path] fresh := by
    intro path hpath
    have hcases : path = "open.json" ∨ path = "none.yaml" ∨ path = "open.json" := by
      simpa [ps, qs] using hpath
    rcases hcases with rfl | rfl | rfl
    · exact hqs
    · exact drawsNew_of_isNew ⟨by decide +kernel, by decide +kernel⟩
    · exact hqs
  obtain ⟨⟨htext, hfailed⟩, -, -, hexit⟩ :=
    reports_compose (fun _ => fresh) hall hps hqs halone
  have hfailed : report.failed = 1 := hfailed.trans (by decide +kernel)
  refine ⟨hall, hps, hqs, halone, hfailed, htext.trans ?_, fun hzero => ?_⟩
  · have hsecond : ((⟨qs⟩ : ValidateCommand).run files fresh).text =
        "OK   open.json (2 entries)\n" := by decide +kernel
    rw [hsecond]
  · have hnone := (hexit ["validate", "open.json", "none.yaml", "open.json"] rfl).2.mp hzero
    rw [show report.failed = 0 from hnone] at hfailed
    cases hfailed

end CommandLine

end Methodology
