import Methodology.Proofs.Vocabulary.Reachable
import Methodology.Vocabulary.Format

/-!
# Consistent vocabularies

Whatever is done with a vocabulary, no two of its items of a part have the same identity, every
modifier is one character and every text is trimmed.

* `Vocabulary.Consistent`: what always holds.
* `Vocabulary.Call`, `Vocabulary.Session`: a call, and the vocabulary with the fresh values that are
  left; `Session.step`, `Session.run`.
* `Vocabulary.sound_validate`: a vocabulary that is read is sound.
* `Session.step_sound`: **the step.** Every call keeps the vocabulary sound, refused or not.
* **`Session.run_consistent`**: after every run of calls the vocabulary is consistent.
-/

namespace Methodology.Vocabulary

open Text

/-- **What holds of every vocabulary** that is reached. -/
structure Consistent (v : Vocabulary) : Prop where
  symbols : (v.modifiers.map Modifier.symbol).Nodup
  names : (v.actions.map Action.name).Nodup
  categoryUuids : (v.categories.map Category.uuid).Nodup
  scriptUuids : (v.scripts.map Script.uuid).Nodup
  history : ∀ s ∈ v.history, s.IsWellFormed
  modifiers : ∀ m ∈ v.modifiers, m.IsWellFormed
  categories : ∀ c ∈ v.categories, c.IsWellFormed
  actions : ∀ a ∈ v.actions, a.IsWellFormed

/-- Any instant may come from outside. -/
def anyInstant (_ : Instant) : Prop := True

theorem nodup_map_of_identities {α κ : Type} {key : α → κ} {wrap : κ → Identity} {items : List α}
    (h : (items.filterMap fun a => some (wrap (key a))).Nodup) : (items.map key).Nodup := by
  rw [List.filterMap_eq_map', ← Function.comp_def, ← List.map_map] at h
  exact List.Pairwise.of_map wrap (fun _ _ hne heq => hne (congrArg wrap heq)) h

theorem Sound.consistent {outside : Instant → Prop} {v : Vocabulary} (h : Sound outside v) :
    Consistent v where
  symbols := nodup_map_of_identities h.symbols
  names := nodup_map_of_identities h.names
  categoryUuids := nodup_map_of_identities h.categoryUuids
  scriptUuids := nodup_map_of_identities h.scriptUuids
  history s hs := (h.history s hs).isWellFormed
  modifiers m hm := (h.modifiers m hm).isWellFormed
  categories c hc := (h.categories c hc).isWellFormed
  actions a ha := (h.actions a ha).isWellFormed

/-! ## Vocabularies that are read -/

theorem exists_of_mem_readItems {α : Type} [Entry α] {part : Section} {index : Nat}
    {items : List Json} {p : Nat × Entry.Draft α} (h : p ∈ (readItems α part index items).2) :
    ∃ v ∈ items, Entry.ofValue α v = .ok p.2 := by
  induction items generalizing index with
  | nil => cases h
  | cons v items ih =>
    simp only [readItems] at h
    split at h
    · next draft hread =>
      rcases List.mem_cons.mp h with rfl | h
      · exact ⟨v, List.mem_cons_self, hread⟩
      · obtain ⟨w, hw, hread⟩ := ih h
        exact ⟨w, List.mem_cons_of_mem v hw, hread⟩
    · obtain ⟨w, hw, hread⟩ := ih h
      exact ⟨w, List.mem_cons_of_mem v hw, hread⟩

theorem exists_of_mem_readSection {α : Type} [Entry α] {part : Section}
    {fields : List (String × Json)} {p : Nat × Entry.Draft α}
    (h : p ∈ (readSection α part fields).2) : ∃ v, Entry.ofValue α v = .ok p.2 := by
  rw [readSection] at h
  split at h
  · cases h
  · cases h
  · obtain ⟨v, -, hv⟩ := exists_of_mem_readItems h
    exact ⟨v, hv⟩
  · cases h

theorem exists_of_mem_settleAll {α : Type} [Entry α] {outside : Instant → Prop}
    (hclock : ∀ (d : Entry.Draft α) {fresh : Fresh}, fresh.ShowsOnly outside →
      (Entry.settle d fresh).2.ShowsOnly outside)
    {drafts : List (Nat × Entry.Draft α)} {fresh : Fresh} (hfresh : fresh.ShowsOnly outside)
    {p : Nat × α} (h : p ∈ (settleAll drafts fresh).1) :
    ∃ q ∈ drafts, ∃ fresh : Fresh, fresh.ShowsOnly outside ∧
      p.2 = (Entry.settle q.2 fresh).1 := by
  induction drafts generalizing fresh with
  | nil => cases h
  | cons q drafts ih =>
    obtain ⟨index, draft⟩ := q
    rw [settleAll] at h
    rcases List.mem_cons.mp h with rfl | h
    · exact ⟨_, List.mem_cons_self, fresh, hfresh, rfl⟩
    · obtain ⟨q, hq, hp⟩ := ih (hclock draft hfresh) h
      exact ⟨q, List.mem_cons_of_mem _ hq, hp⟩

theorem showsOnly_settleAll {α : Type} [Entry α] {outside : Instant → Prop}
    (hclock : ∀ (d : Entry.Draft α) {fresh : Fresh}, fresh.ShowsOnly outside →
      (Entry.settle d fresh).2.ShowsOnly outside)
    (drafts : List (Nat × Entry.Draft α)) {fresh : Fresh} (hfresh : fresh.ShowsOnly outside) :
    (settleAll drafts fresh).2.ShowsOnly outside := by
  induction drafts generalizing fresh with
  | nil => exact hfresh
  | cons q drafts ih => exact ih (hclock q.2 hfresh)

theorem sound_insertAll {outside : Instant → Prop} {α : Type} {P : α → Prop} {part : Section}
    {insert : Vocabulary → α → Except Duplicate Vocabulary}
    (hinsert : ∀ {v w a}, Sound outside v → P a → insert v a = .ok w → Sound outside w)
    {items : List (Nat × α)} (hitems : ∀ p ∈ items, P p.2) {v : Vocabulary}
    (h : Sound outside v) : Sound outside (insertAll part insert v items).1 := by
  induction items generalizing v with
  | nil => exact h
  | cons p items ih =>
    obtain ⟨index, a⟩ := p
    have hrest : ∀ q ∈ items, P q.2 := fun q hq => hitems q (List.mem_cons_of_mem _ hq)
    rw [insertAll]
    split
    · next w hw => exact ih hrest (hinsert h (hitems _ List.mem_cons_self) hw)
    · exact ih hrest h

/-- A validation whose vocabulary is sound and whose clock shows nothing but instants of the set. -/
structure IsSoundAt (outside : Instant → Prop) (s : Validation) : Prop where
  vocabulary : Sound outside s.vocabulary
  clock : s.fresh.ShowsOnly outside

theorem sound_takeSection {outside : Instant → Prop} {α : Type} [Entry α] {P : α → Prop}
    {part : Section} {insert : Vocabulary → α → Except Duplicate Vocabulary}
    (hread : ∀ {v d}, Entry.ofValue α v = .ok d → ∀ {fresh : Fresh}, fresh.ShowsOnly outside →
      P (Entry.settle d fresh).1)
    (hclock : ∀ (d : Entry.Draft α) {fresh : Fresh}, fresh.ShowsOnly outside →
      (Entry.settle d fresh).2.ShowsOnly outside)
    (hinsert : ∀ {v w a}, Sound outside v → P a → insert v a = .ok w → Sound outside w)
    (fields : List (String × Json)) {s : Validation} (h : IsSoundAt outside s) :
    IsSoundAt outside (s.takeSection α part insert fields) := by
  refine ⟨sound_insertAll hinsert (fun p hp => ?_) h.vocabulary,
    showsOnly_settleAll hclock _ h.clock⟩
  obtain ⟨q, hq, fresh, hfresh, hp⟩ := exists_of_mem_settleAll hclock h.clock hp
  obtain ⟨v, hv⟩ := exists_of_mem_readSection hq
  exact hp ▸ hread hv hfresh

theorem isRead_of_ofValue {α : Type} [Entry α] {v : Json} {d : Entry.Draft α}
    (h : Entry.ofValue α v = .ok d) : Model.IsRead α d := .inl ⟨v, h⟩

theorem sound_validateFields {outside : Instant → Prop} (fields : List (String × Json))
    {fresh : Fresh} (hfresh : fresh.ShowsOnly outside) :
    Sound outside (validateFields fields fresh).vocabulary := by
  refine (sound_takeSection (P := Script.Made)
    (fun h fresh _ => .read (isRead_of_ofValue h) fresh) (fun d _ h => h.uuid d.uuid)
    (fun h made hw => h.addScript made hw) fields ?_).vocabulary
  refine sound_takeSection (P := Action.Made) (fun h _ _ => .read (isRead_of_ofValue h))
    (fun _ _ h => h) (fun h made hw => h.addAction made hw) fields ?_
  refine sound_takeSection (P := Category.Made)
    (fun h fresh _ => .read (isRead_of_ofValue h) fresh) (fun d _ h => h.uuid d.uuid)
    (fun h made hw => h.addCategory made hw) fields ?_
  refine sound_takeSection (P := Modifier.Made) (fun h _ _ => .read (isRead_of_ofValue h))
    (fun _ _ h => h) (fun h made hw => h.addModifier made hw) fields ?_
  refine sound_takeSection (P := Stamp.Made outside)
    (fun h _ hfresh => .read (isRead_of_ofValue h) (hfresh 0)) (fun d _ h => h.instant d.updated)
    (fun h made hw => ?_) fields ⟨sound_empty, hfresh⟩
  cases hw
  exact h.record made

/-- **A vocabulary that is read is sound**, whatever the data value. -/
theorem sound_validate {outside : Instant → Prop} {value : Json} {fresh : Fresh}
    (hfresh : fresh.ShowsOnly outside) {v : Vocabulary} (h : (validate value fresh).1 = .ok v) :
    Sound outside v := by
  cases value with
  | null =>
    cases h
    exact sound_empty
  | object fields =>
    simp only [validate] at h
    split at h
    · cases h
      exact sound_validateFields fields hfresh
    · cases h
  | _ => cases h

theorem sound_parse {outside : Instant → Prop} {format : Format} {text : String} {fresh : Fresh}
    (hfresh : fresh.ShowsOnly outside) {v : Vocabulary}
    (h : (parse format text fresh).1 = .ok v) : Sound outside v := by
  rw [parse] at h
  split at h
  · exact sound_validate hfresh h
  · cases h

/-! ## Runs -/

/-- What may be done with a vocabulary. -/
inductive Call
  /-- A text is read in place of the vocabulary. -/
  | parse (format : Format) (text : String)
  /-- A data value is read in place of the vocabulary. -/
  | validate (value : Json)
  /-- The vocabulary is written and read again. -/
  | reparse (format : Format)
  /-- An item is put in. -/
  | add (item : Item)

/-- A call with an item that operations make, if it has one. -/
def Call.IsMade : Call → Prop
  | .add item => item.Made anyInstant
  | _ => True

/-- A vocabulary and the fresh values that are left. -/
structure Session where
  vocabulary : Vocabulary
  fresh : Fresh

namespace Session

/-- What a reader gives takes the place of the vocabulary, unless nothing is read. -/
def take (s : Session) (r : Except DocumentError Vocabulary × Fresh) : Session :=
  match r.1 with
  | .ok v => ⟨v, r.2⟩
  | .error _ => ⟨s.vocabulary, r.2⟩

/-- **A call.** One that is refused leaves the vocabulary as it is. -/
def step (s : Session) : Call → Session
  | .parse format text => s.take (Vocabulary.parse format text s.fresh)
  | .validate value => s.take (Methodology.validate value s.fresh)
  | .reparse format =>
    s.take (Vocabulary.parse format (s.vocabulary.render format) s.fresh)
  | .add item => ⟨s.vocabulary.attempt item, s.fresh⟩

/-- **A run** of calls. -/
def run (s : Session) (calls : List Call) : Session := calls.foldl step s

theorem take_sound {s : Session} (h : Sound anyInstant s.vocabulary)
    {r : Except DocumentError Vocabulary × Fresh}
    (hr : ∀ {v}, r.1 = .ok v → Sound anyInstant v) : Sound anyInstant (s.take r).vocabulary := by
  rw [take]
  split
  · next hv => exact hr hv
  · exact h

/-- **Every call keeps the vocabulary sound**, whether it is refused or not. -/
theorem step_sound {s : Session} (h : Sound anyInstant s.vocabulary) {c : Call} (made : c.IsMade) :
    Sound anyInstant (s.step c).vocabulary := by
  cases c with
  | parse format text => exact take_sound h (sound_parse fun _ => trivial)
  | validate value => exact take_sound h (sound_validate fun _ => trivial)
  | reparse format => exact take_sound h (sound_parse fun _ => trivial)
  | add item => exact h.attempt made

theorem run_sound {s : Session} (h : Sound anyInstant s.vocabulary) {calls : List Call}
    (made : ∀ c ∈ calls, c.IsMade) : Sound anyInstant (s.run calls).vocabulary := by
  induction calls generalizing s with
  | nil => exact h
  | cons c calls ih =>
    exact ih (step_sound h (made c List.mem_cons_self))
      fun d hd => made d (List.mem_cons_of_mem c hd)

/-- **After every run of calls the vocabulary is consistent.** -/
theorem run_consistent {calls : List Call} (made : ∀ c ∈ calls, c.IsMade) (fresh : Fresh) :
    ((⟨empty, fresh⟩ : Session).run calls).vocabulary.Consistent :=
  (run_sound sound_empty made).consistent

/-- Calls of every kind, some of which are refused. -/
def mixedCalls : List Call :=
  [.parse .yaml "modifiers:\n- name: ' + '\n  title: Merge\n", .parse .json "[",
    .validate (.object [("scripts", .array [.null])])] ++ cornerItems.map .add ++
    [.add (.modifier ⟨"é", "null"⟩), .reparse .yaml, .reparse .json]

theorem run_consistent_mixedCalls : (∀ c ∈ mixedCalls, c.IsMade) ∧
    ((⟨empty, ⟨Supply.constant Uuid.nil, Supply.constant ⟨0, 0⟩⟩⟩ : Session).run
      mixedCalls).vocabulary.Consistent :=
  have made : ∀ c ∈ mixedCalls, c.IsMade := by
    have hmodifier : Modifier.IsWellFormed ⟨"é", "null"⟩ := ⟨rfl, rfl, by decide +kernel⟩
    simp only [mixedCalls, List.forall_mem_append, List.forall_mem_cons, List.forall_mem_map]
    exact ⟨⟨⟨trivial, trivial, trivial, fun _ h => nomatch h⟩, made_cornerItems trivial⟩,
      .make hmodifier.make_eq, trivial, trivial, fun _ h => nomatch h⟩
  ⟨made, run_consistent made _⟩

end Session

end Methodology.Vocabulary
