import Methodology.CommandLine.Stamp
import Methodology.Proofs.Entry.Changes
import Methodology.Proofs.Entry.Made
import Methodology.Proofs.Entry.TextRoundTrip

/-!
# Runs in which entries are read back

A caller who writes an entry and reads it back in the middle of a run of changes goes on with the same
entry.

* `Editable.Step`, `Editable.play`: a run of changes with the entry read back in between;
  `Editable.history`: what the changes leave and answer without that.
* `Editable.play_reread`: **the step**; `Editable.tracelessUpTo`, `Editable.traceless`: **the run.**
  Reading back leaves no trace, or none but what a map makes of the entries.
* `Modifier.Made.readsBack` and its like: the entries that are made are read back.
* **`texts_readBack`**: models, runs and the command that writes stamps.
* `not_texts_readBack`: a leap second that is read back as another instant.
-/

namespace Methodology

open Json Result Editable

/-! ## Runs -/

namespace Editable

variable {α : Type} [Editable α]

/-- A step of a caller. -/
inductive Step (α : Type) [Editable α]
  /-- A field of the entry is changed. -/
  | change (c : Change α)
  /-- The entry is written in a layout and read back. -/
  | reread (l : Layout)

/-- The changes of a run. -/
def changes (steps : List (Step α)) : List (Change α) :=
  steps.filterMap fun
    | .change c => some c
    | .reread _ => none

/-- What each call of a run leaves, and what it answers. -/
def history (a : α) : List (Change α) → List (α × Except FieldError Unit)
  | [] => []
  | c :: cs => (edit a c, answer a c) :: history (edit a c) cs

/-- **A run of steps**: what each change leaves and answers, and the entry and the fresh values at the
end. A text that is not read ends the run. -/
def play [Model α] (a : α) (fresh : Fresh) :
    List (Step α) → Except TextFault (List (α × Except FieldError Unit) × α × Fresh)
  | [] => .ok ([], a, fresh)
  | .change c :: steps =>
    (play (edit a c) fresh steps).map fun r => ((edit a c, answer a c) :: r.1, r.2)
  | .reread l :: steps => do
    let d ← Model.readText α (Model.text l a)
    let (b, fresh) := Model.settle d fresh
    play b fresh steps

/-- **Reading back leaves no trace** in a run: every text is read, every later call leaves and
answers the same, and nothing is drawn. -/
def Traceless [Model α] (a : α) (steps : List (Step α)) : Prop :=
  ∀ fresh, play a fresh steps =
    .ok (history a (changes steps), edited a (changes steps), fresh)

/-- Reading back leaves no trace in a run but what a map makes of the entries: every text is read,
every later call leaves and answers the same, up to the map, and nothing is drawn. -/
def TracelessUpTo [Model α] (f : α → α) (a : α) (steps : List (Step α)) : Prop :=
  ∀ fresh, ∃ past b, play a fresh steps = .ok (past, b, fresh) ∧
    past.map (Prod.map f id) = (history a (changes steps)).map (Prod.map f id) ∧
    f b = f (edited a (changes steps))

theorem play_reread [Model α] {a b : α} {l : Layout} (h : Model.ReadsBackFrom (Model.text l a) b)
    (fresh : Fresh) (steps : List (Step α)) :
    play a fresh (.reread l :: steps) = play b fresh steps := by
  obtain ⟨d, hread, hsettle⟩ := h
  rw [play, hread, ok_bind]
  simp only [hsettle]

section

variable {f : α → α}
  (hcongr : ∀ a b c, f a = f b → f (edit a c) = f (edit b c) ∧ answer a c = answer b c)
include hcongr

theorem history_congr {a b : α} (h : f a = f b) (cs : List (Change α)) :
    (history a cs).map (Prod.map f id) = (history b cs).map (Prod.map f id) ∧
      f (edited a cs) = f (edited b cs) := by
  induction cs generalizing a b with
  | nil => exact ⟨rfl, h⟩
  | cons c cs ih =>
    obtain ⟨hedit, hanswer⟩ := hcongr a b c h
    obtain ⟨hpast, hlast⟩ := ih hedit
    refine ⟨?_, hlast⟩
    rw [history, history, List.map_cons, List.map_cons, hpast, Prod.map_apply, Prod.map_apply, hedit,
      hanswer]

/-- **The run.** Reading back leaves no trace but what a map makes of the entries, if a change sees
only that of an entry and what is read back stays so under the changes. -/
theorem tracelessUpTo [Model α] (good : α → Prop) (allowed : Change α → Prop)
    (hread : ∀ a, good a → ∀ l, Model.ReadsBackFrom (Model.text l a) (f a))
    (hmap : ∀ a, good a → good (f a) ∧ f (f a) = f a)
    (hedit : ∀ a c, good a → allowed c → good (edit a c)) {a : α} (ha : good a)
    {steps : List (Step α)} (hsteps : ∀ c, .change c ∈ steps → allowed c) :
    TracelessUpTo f a steps := by
  intro fresh
  induction steps generalizing a with
  | nil => exact ⟨[], a, rfl, rfl, rfl⟩
  | cons step steps ih =>
    have hlater : ∀ c, .change c ∈ steps → allowed c := fun c hc =>
      hsteps c (List.mem_cons_of_mem step hc)
    cases step with
    | change c =>
      obtain ⟨past, b, hplay, hpast, hlast⟩ := ih (hedit a c ha (hsteps c List.mem_cons_self)) hlater
      refine ⟨(edit a c, answer a c) :: past, b, ?_, ?_, hlast⟩
      · rw [play, hplay, map_ok]
      · rw [List.map_cons, hpast]
        rfl
    | reread l =>
      -- the run goes on from what was read, whose changes leave the same up to the map
      obtain ⟨hgood, htwice⟩ := hmap a ha
      obtain ⟨past, b, hplay, hpast, hlast⟩ := ih hgood hlater
      obtain ⟨hsame, hsame'⟩ := history_congr hcongr htwice (changes steps)
      exact ⟨past, b, (play_reread (hread a ha l) fresh steps).trans hplay, hpast.trans hsame,
        hlast.trans hsame'⟩

end

theorem traceless [Model α] (good : α → Prop) (allowed : Change α → Prop)
    (hread : ∀ a, good a → Model.ReadsBack a)
    (hedit : ∀ a c, good a → allowed c → good (edit a c)) {a : α} (ha : good a)
    {steps : List (Step α)} (hsteps : ∀ c, .change c ∈ steps → allowed c) :
    Traceless a steps := by
  intro fresh
  have hcongr : ∀ a b (c : Change α), id a = id b →
      id (edit a c) = id (edit b c) ∧ answer a c = answer b c := by
    rintro a _ c rfl
    exact ⟨rfl, rfl⟩
  obtain ⟨past, b, hplay, hpast, hlast⟩ :=
    tracelessUpTo hcongr good allowed hread (fun _ h => ⟨h, rfl⟩) hedit ha hsteps fresh
  rw [Prod.map_id, List.map_id, List.map_id] at hpast
  rw [hplay, hpast]
  exact congrArg (fun b => Except.ok (_, b, fresh)) hlast

theorem edit_of_apply {good : α → Prop} {a : α} (ha : good a) {c : Change α}
    (h : ∀ b, apply a c = .ok b → good b) : good (edit a c) := by
  rw [edit]
  split
  · next b hb => exact h b hb
  · exact ha

end Editable

/-! ## Entries that are made -/

theorem Modifier.Made.readsBack {m : Modifier} (h : Made m) : Model.ReadsBack m :=
  (Modifier.readsBack h.isWellFormed).text

theorem Category.Made.readsBack {c : Category} (h : Made c) : Model.ReadsBack c :=
  (Category.readsBack h.isWellFormed).text

theorem Action.Made.readsBack {a : Action} (h : Made a) : Model.ReadsBack a :=
  (Action.readsBack h.isWellFormed).text

namespace Stamp

theorem good_edit {outside : Instant → Prop} {s : Stamp}
    (h : s.IsWellFormed ∧ outside s.updated) (c : Stamp.Change)
    (hc : ∀ t, c = .updated t → outside t) :
    (Editable.edit s c).IsWellFormed ∧ outside (Editable.edit s c).updated := by
  refine ⟨isWellFormed_apply h.1 c, ?_⟩
  cases c with
  | name name => exact h.2
  | description description => exact h.2
  | updated t => exact hc t rfl

theorem asWritten_edit {s s' : Stamp} (h : s.asWritten = s'.asWritten) (c : Stamp.Change) :
    (Editable.edit s c).asWritten = (Editable.edit s' c).asWritten ∧
      Editable.answer s c = Editable.answer s' c := by
  refine ⟨?_, rfl⟩
  rw [asWritten_eq_asWritten_iff] at h ⊢
  obtain ⟨hname, hdescription, hupdated⟩ := h
  cases c with
  | name name => exact ⟨rfl, hdescription, hupdated⟩
  | description description => exact ⟨hname, rfl, hupdated⟩
  | updated t => exact ⟨hname, hdescription, rfl⟩

/-- **Stamps that are read back as they are written** in a run. -/
theorem tracelessUpTo {s : Stamp} (h : s.IsWellFormed) (hheld : s.updated.IsHeld)
    (hyear : s.updated.HasPlainYear) {steps : List (Step Stamp)}
    (hsteps : ∀ t, .change (Stamp.Change.updated t) ∈ steps → t.IsHeld ∧ t.HasPlainYear) :
    TracelessUpTo Stamp.asWritten s steps := by
  refine Editable.tracelessUpTo (fun _ _ c heq => asWritten_edit heq c)
    (fun s => s.IsWellFormed ∧ s.updated.IsHeld ∧ s.updated.HasPlainYear)
    (fun c => ∀ t, c = Stamp.Change.updated t → t.IsHeld ∧ t.HasPlainYear)
    (fun _ h => readsBackFrom_text h.1 h.2.1 h.2.2) (fun _ h => ?_)
    (fun _ c h hc => good_edit h c hc) ⟨h, hheld, hyear⟩ fun _ hc t heq => hsteps t (heq ▸ hc)
  have hproper := Instant.isProper_asWritten h.2.1
  exact ⟨⟨h.1.asWritten, hproper.isHeld, (Instant.hasPlainYear_asWritten h.2.1).mpr h.2.2⟩,
    (asWritten_eq_self_iff hproper.isHeld).mpr hproper⟩

theorem traceless {s : Stamp} (h : s.IsWellFormed) (hproper : s.updated.IsProper)
    (hyear : s.updated.HasPlainYear) {steps : List (Step Stamp)}
    (hsteps : ∀ t, .change (Stamp.Change.updated t) ∈ steps → t.IsProper ∧ t.HasPlainYear) :
    Traceless s steps :=
  Editable.traceless (fun s => s.IsWellFormed ∧ s.updated.IsProper ∧ s.updated.HasPlainYear)
    (fun c => ∀ t, c = Stamp.Change.updated t → t.IsProper ∧ t.HasPlainYear)
    (fun _ h => (Stamp.readsBack h.1 h.2.1 h.2.2).text)
    (fun _ c h hc => good_edit h c hc) ⟨h, hproper, hyear⟩ fun _ hc t heq => hsteps t (heq ▸ hc)

end Stamp

/-! ## All of them -/

/-- **Models are read back from their text.** With instants that a date-time holds and years of four
digits:

* every model that is made is read from its text on one line and from its text over several lines as
  the model that was written, with the instant that the text names, and nothing is drawn; stamps and
  instants come back as they were exactly if they hold no leap second inside of a minute;
* in every run of changes from an entry, the entry may be written and read back after any step: all
  texts are read, and no later call leaves or answers anything else, stamps being compared by the
  instants that their texts name, or as they are if no instant is a leap second inside of a minute;
* the command gives the stamp of a name, a description and the instant of its clock, and what it prints
  in this notation is read back as that stamp, with the instant that the text names. -/
theorem texts_readBack (now : Instant) :
    (∀ m, Modifier.Made m → Model.ReadsBack m ∧ ∀ steps, Traceless m steps) ∧
    (∀ c, Category.Made c → Model.ReadsBack c ∧ ∀ steps, Traceless c steps) ∧
    (∀ t : Term, Model.ReadsBack t) ∧
    (∀ a, Action.Made a → Model.ReadsBack a ∧ ∀ steps, Traceless a steps) ∧
    (∀ s : Script, Model.ReadsBack s ∧ ∀ steps, Traceless s steps) ∧
    (∀ s, Stamp.Made Instant.IsHeld s → s.updated.HasPlainYear →
      (∀ l, Model.ReadsBackFrom (Model.text l s) s.asWritten) ∧
      (Model.ReadsBack s ↔ s.updated.IsProper) ∧
      ∀ steps, (∀ t, .change (Stamp.Change.updated t) ∈ steps → t.IsHeld ∧ t.HasPlainYear) →
        TracelessUpTo Stamp.asWritten s steps ∧
        (s.updated.IsProper → (∀ t, .change (Stamp.Change.updated t) ∈ steps → t.IsProper) →
          Traceless s steps)) ∧
    (now.IsHeld → now.HasPlainYear →
      (∀ l, Model.ReadsBackFrom (Model.text l now) now.asWritten) ∧
      (Model.ReadsBack now ↔ now.IsProper)) ∧
    (∀ m : MimeType, Model.ReadsBack m) ∧
    (∀ s : Shape, Model.ReadsBack s) ∧
    (∀ u : Uuid, Model.ReadsBack u) ∧
    ∀ name description : Option String, now.IsHeld → now.HasPlainYear →
      let (stamp, text) := (⟨name, description, .json⟩ : CommandLine.StampCommand).run now
      stamp = Stamp.make now name description none ∧
      Model.ReadsBackFrom text stamp.asWritten ∧
      (Model.ReadsBackFrom text stamp ↔ now.IsProper) := by
  refine ⟨fun m h => ⟨h.readsBack, fun steps => ?_⟩, fun c h => ⟨h.readsBack, fun steps => ?_⟩,
    Term.readsBack, fun a h => ⟨h.readsBack, fun steps => ?_⟩,
    fun s => ⟨(Script.readsBack s).text, fun steps => ?_⟩, fun s h hyear => ?_,
    fun h hyear => ?_, MimeType.readsBack, Shape.readsBack, Uuid.readsBack,
    fun name description h hyear => ?_⟩
  · exact traceless Modifier.Made (fun _ => True) (fun _ h => h.readsBack)
      (fun _ _ h _ => edit_of_apply h fun _ => h.apply) h fun _ _ => trivial
  · exact traceless Category.Made (fun _ => True) (fun _ h => h.readsBack)
      (fun _ c h _ => h.apply c) h fun _ _ => trivial
  · exact traceless Action.Made (fun _ => True) (fun _ h => h.readsBack)
      (fun _ _ h _ => edit_of_apply h fun _ => h.apply) h fun _ _ => trivial
  · exact traceless (fun _ => True) (fun _ => True)
      (fun s _ => (Script.readsBack s).text) (fun _ _ _ _ => trivial) trivial
      fun _ _ => trivial
  · have hread := Stamp.readsBackFrom_text h.isWellFormed h.isHeld hyear
    refine ⟨hread, (Model.readsBack_iff_eq hread).trans (Stamp.asWritten_eq_self_iff h.isHeld),
      fun steps hsteps => ⟨Stamp.tracelessUpTo h.isWellFormed h.isHeld hyear hsteps,
        fun hproper hlater => Stamp.traceless h.isWellFormed hproper hyear fun t ht =>
          ⟨hlater t ht, (hsteps t ht).2⟩⟩⟩
  · have hread := Instant.readsBackFrom_asWritten h hyear
    exact ⟨hread, (Model.readsBack_iff_eq hread).trans (Instant.asWritten_eq_self_iff h)⟩
  · have hmade : Stamp.IsWellFormed (Stamp.make now name description none) :=
      Stamp.isWellFormed_make now name description none
    have hread := Stamp.readsBackFrom_asWritten hmade h hyear .pretty "\n" rfl
    refine ⟨rfl, hread, fun hback => ?_, fun hproper => ?_⟩
    · exact (Stamp.asWritten_eq_self_iff h).mp (hread.unique hback)
    · have heq := (Stamp.asWritten_eq_self_iff (s := Stamp.make now name description none) h).mpr hproper
      rwa [heq] at hread

/-- A stamp of a leap second that is written and read back, described, and set to the first year; the
command at a leap second in the first second of a minute. -/
theorem texts_readBack_leapSecond :
    let leap : Instant := ⟨1483228799, 1500000000⟩
    let first : Instant := ⟨-62167219200, 0⟩
    let inside : Instant := ⟨0, 1500000000⟩
    let s := Stamp.make leap (some " A ") none none
    let steps : List (Step Stamp) := [.reread .pretty, .change (Stamp.Change.updated first),
      .reread .compact, .change (Stamp.Change.description (some "d\n"))]
    Stamp.Made Instant.IsHeld s ∧ s.updated.HasPlainYear ∧
    (∀ t, .change (Stamp.Change.updated t) ∈ steps → t.IsHeld ∧ t.HasPlainYear) ∧
    Model.ReadsBackFrom "\x7b\"name\":\"A\",\"updated\":\"2016-12-31T23:59:60.500Z\"\x7d" s ∧
    (∀ fresh, play s fresh steps = .ok ([(⟨some "A", none, first⟩, .ok ()),
      (⟨some "A", some "d", first⟩, .ok ())], ⟨some "A", some "d", first⟩, fresh)) ∧
    (⟨none, none, .json⟩ : CommandLine.StampCommand).run inside = (⟨none, none, inside⟩,
      "\x7b\n  \"updated\": \"1970-01-01T00:00:01.500Z\"\n\x7d\n") ∧
    Model.ReadsBackFrom "\x7b\n  \"updated\": \"1970-01-01T00:00:01.500Z\"\n\x7d\n"
      (⟨none, none, ⟨1, 500000000⟩⟩ : Stamp) := by
  intro leap first inside s steps
  have hmade : Stamp.Made Instant.IsHeld s :=
    .make (some " A ") none (by decide +kernel) fun _ heq => nomatch heq
  have hyear : s.updated.HasPlainYear := by decide +kernel
  have hupdated : ∀ t, .change (Stamp.Change.updated t) ∈ steps → t = first := by
    intro t ht
    simp only [steps, List.mem_cons, Step.change.injEq, reduceCtorEq, List.not_mem_nil, or_false,
      false_or] at ht
    exact Stamp.Change.updated.inj ht
  have hsteps : ∀ t, .change (Stamp.Change.updated t) ∈ steps → t.IsHeld ∧ t.HasPlainYear := by
    intro t ht
    rw [hupdated t ht]
    decide +kernel
  have hproper : ∀ t, .change (Stamp.Change.updated t) ∈ steps → t.IsProper := by
    intro t ht
    rw [hupdated t ht]
    decide
  obtain ⟨-, hread, hrun⟩ := (texts_readBack inside).2.2.2.2.2.1 s hmade hyear
  have htext : Model.text .compact s =
      "\x7b\"name\":\"A\",\"updated\":\"2016-12-31T23:59:60.500Z\"\x7d" := by decide +kernel
  have hhistory : history s (changes steps) = [(⟨some "A", none, first⟩, .ok ()),
      (⟨some "A", some "d", first⟩, .ok ())] := by decide +kernel
  have hedited : edited s (changes steps) = ⟨some "A", some "d", first⟩ := by decide +kernel
  have hprinted : CommandLine.StampCommand.render (Stamp.make inside none none none) .json =
      "\x7b\n  \"updated\": \"1970-01-01T00:00:01.500Z\"\n\x7d\n" := by decide +kernel
  have hnamed : (Stamp.make inside none none none).asWritten = ⟨none, none, ⟨1, 500000000⟩⟩ := by
    decide +kernel
  have hleap : s.updated.IsProper := by decide +kernel
  obtain ⟨-, hcommand, -⟩ := (texts_readBack inside).2.2.2.2.2.2.2.2.2.2 none none (by decide)
    (by decide +kernel)
  change Model.ReadsBackFrom (CommandLine.StampCommand.render (Stamp.make inside none none none) .json)
    (Stamp.make inside none none none).asWritten at hcommand
  rw [hprinted, hnamed] at hcommand
  refine ⟨hmade, hyear, hsteps, htext ▸ hread.mpr hleap .compact, fun fresh => ?_,
    congrArg (Prod.mk _) hprinted, hcommand⟩
  rw [(hrun steps hsteps).2 hleap hproper fresh, hhistory, hedited]

/-- **A leap second inside of a minute** is read back as another instant: on its own, in a stamp, in a
run of one step and from what the command prints. -/
theorem not_texts_readBack :
    let t : Instant := ⟨0, 1500000000⟩
    let s := Stamp.make t (some "a") none none
    let (stamp, text) := (⟨some "a", none, .json⟩ : CommandLine.StampCommand).run t
    t.IsHeld ∧ t.HasPlainYear ∧ Stamp.Made Instant.IsHeld s ∧
    t.toText = "1970-01-01T00:00:01.500Z" ∧ Instant.read t.toText = .ok ⟨1, 500000000⟩ ∧
    ¬ Model.ReadsBack t ∧ ¬ Model.ReadsBack s ∧ ¬ Traceless s [.reread .compact] ∧
    ¬ Model.ReadsBackFrom text stamp := by
  intro t s
  have hmade : Stamp.Made Instant.IsHeld s := .make _ _ (by decide) fun _ h => nomatch h
  have hyear : t.HasPlainYear := by decide +kernel
  have hother : s.asWritten ≠ s := by decide +kernel
  have hinstant := Instant.readsBackFrom_asWritten (t := t) (by decide) hyear
  have hstamp := Stamp.readsBackFrom_text hmade.isWellFormed hmade.isHeld hyear
  have hcommand := Stamp.readsBackFrom_asWritten hmade.isWellFormed hmade.isHeld hyear .pretty "\n" rfl
  refine ⟨by decide, hyear, hmade, by decide +kernel, by decide +kernel, fun h => ?_, fun h => ?_,
    fun h => ?_, fun h => hother (hcommand.unique h)⟩
  · exact absurd ((Model.readsBack_iff_eq hinstant).mp h) (by decide)
  · exact hother ((Model.readsBack_iff_eq hstamp).mp h)
  · have hrun := h ⟨Supply.constant Uuid.nil, Supply.constant ⟨0, 0⟩⟩
    rw [play_reread (hstamp .compact)] at hrun
    exact hother (congrArg (fun r => r.2.1) (Except.ok.inj hrun))

end Methodology
