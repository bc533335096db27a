import Methodology.Proofs.Entry.RoundTrip
import Methodology.Proofs.Json.Fields
import Methodology.Proofs.Vocabulary.Reachable
import Methodology.Vocabulary.Format

/-!
# Vocabularies are read back

* `readItems_readsBack`: the items of a section are read back in their order.
* `takeSection_readsBack`: **one section.** Its items are put in, none is refused and nothing is
  drawn.
* **`validate_sorted_toJson`**: the data value of a vocabulary, with sorted fields, is valid and
  gives the vocabulary.
* `asWritten`: a vocabulary with the instants that its text names.
* **`parse_render_json`**: the text of a document made of items.
* `not_parse_render_json`: a leap second that is read back as another instant.
-/

namespace Methodology.Vocabulary

open Json Result

/-! ## Sections -/

theorem sortedFields_append (xs ys : List (String × Json)) :
    sortedFields (xs ++ ys) = sortedFields xs ++ sortedFields ys := by
  simp only [sortedFields_eq_map, List.map_append]

theorem sectionField_cons {α : Type} (s : Section) (toJson : α → Json) (a : α) (items : List α) :
    sectionField s toJson (a :: items) = [(s.name, .array ((a :: items).map toJson))] := rfl

theorem sortedFields_sectionField {α : Type} (s : Section) (toJson : α → Json) (items : List α) :
    sortedFields (sectionField s toJson items) =
      sectionField s (fun a => (toJson a).sorted) items := by
  cases items with
  | nil => rfl
  | cons a items =>
    rw [sectionField_cons, sortedFields, sorted, sortedItems_eq_map, List.map_map]
    rfl

theorem reverse_sectionField {α : Type} (s : Section) (toJson : α → Json) (items : List α) :
    (sectionField s toJson items).reverse = sectionField s toJson items := by
  cases items <;> rfl

theorem field?_sectionField {α : Type} (key : String) (s : Section) (toJson : α → Json)
    (items : List α) : field? key (sectionField s toJson items) =
      if key = s.name ∧ items ≠ [] then some (.array (items.map toJson)) else none := by
  cases items with
  | nil => rw [if_neg (by simp)]; rfl
  | cons a items =>
    rw [sectionField_cons, field?_cons]
    by_cases h : key = s.name
    · rw [if_pos h, if_pos ⟨h, by simp⟩]
    · rw [if_neg h, if_neg fun h' => h h'.1]
      rfl

/-- The sorted fields of a vocabulary's data value. -/
def sortedSections (v : Vocabulary) : List (String × Json) :=
  sortFields (sectionField .history (fun s => s.toJson.sorted) v.history ++
    sectionField .modifiers (fun m => m.toJson.sorted) v.modifiers ++
    sectionField .categories (fun c => c.toJson.sorted) v.categories ++
    sectionField .actions (fun a => a.toJson.sorted) v.actions ++
    sectionField .scripts (fun s => s.toJson.sorted) v.scripts)

theorem sorted_toJson (v : Vocabulary) : v.toJson.sorted = .object v.sortedSections := by
  simp only [toJson, sorted, sortedFields_append, sortedFields_sectionField, sortedSections]

theorem unknownSections_sortedSections (v : Vocabulary) : unknownSections v.sortedSections = [] := by
  rw [unknownSections, List.map_eq_nil_iff, List.filter_eq_nil_iff]
  intro f hf
  have hname : ∀ {α : Type} (s : Section) (toJson : α → Json) (items : List α),
      f ∈ sectionField s toJson items → f.1 = s.name := by
    intro α s toJson items h
    cases items with
    | nil => cases h
    | cons a items => exact List.mem_singleton.mp h ▸ rfl
  have hknown : ∀ s : Section, s.name ∈ Section.names := by
    intro s
    cases s <;> decide
  have hmem := mem_of_mem_sortFields hf
  simp only [List.mem_append] at hmem
  rcases hmem with (((h | h) | h) | h) | h <;> simp [hname _ _ _ h, hknown]

/-! ## Items -/

theorem readItems_readsBack {α : Type} [Entry α] (part : Section) {items : List α}
    (h : ∀ a ∈ items, Entry.ReadsBack a) (index : Nat) : ∃ drafts,
      readItems α part index (items.map fun a => (Entry.toJson a).sorted) = ([], drafts) ∧
        ∀ fresh, ∃ settled, settleAll drafts fresh = (settled, fresh) ∧
          settled.map Prod.snd = items := by
  induction items generalizing index with
  | nil => exact ⟨[], rfl, fun fresh => ⟨[], rfl, rfl⟩⟩
  | cons a items ih =>
    obtain ⟨draft, hread, hsettle⟩ := h a List.mem_cons_self
    obtain ⟨drafts, hreads, hsettles⟩ := ih (fun b hb => h b (List.mem_cons_of_mem a hb)) (index + 1)
    refine ⟨(index, draft) :: drafts, ?_, fun fresh => ?_⟩
    · rw [List.map_cons, readItems, hreads, hread]
    · obtain ⟨settled, hall, hitems⟩ := hsettles fresh
      refine ⟨(index, a) :: settled, ?_, ?_⟩
      · rw [settleAll, hsettle]
        simp only [hall]
      · rw [List.map_cons, hitems]

/-- **One section.** If its items are read back and their identities are distinct, they are put in,
none is refused and nothing is drawn. -/
theorem takeSection_readsBack {α : Type} [Entry α] [Member α] {items : List α}
    (h : ∀ a ∈ items, Entry.ReadsBack a) (hnodup : (items.filterMap Member.identity?).Nodup)
    {fields : List (String × Json)} (hfield : field? (Member.part α).name fields =
      if items = [] then none else some (.array (items.map fun a => (Entry.toJson a).sorted)))
    {w : Vocabulary} (hw : Member.items (α := α) w = []) (violations : List Violation)
    (fresh : Fresh) :
    Validation.takeSection α (Member.part α) Member.insert fields ⟨w, violations, fresh⟩ =
      ⟨Member.withItems w items, violations, fresh⟩ := by
  obtain ⟨drafts, hread, hsettle⟩ := readItems_readsBack (Member.part α) h 0
  obtain ⟨settled, hall, hitems⟩ := hsettle fresh
  have hsection : readSection α (Member.part α) fields = ([], drafts) := by
    rw [readSection, hfield]
    cases items with
    | nil => exact hread
    | cons a items => exact hread
  have hinsert := Member.insertAll_of_nodup w settled
    (by rw [hw, List.nil_append, hitems]; exact hnodup)
  rw [hw, List.nil_append, hitems] at hinsert
  simp only [Validation.takeSection, hsection, hall, hinsert, List.append_nil]

/-! ## Whole vocabularies -/

/-- What makes a vocabulary be read back: its items are, and no identity is taken twice. -/
structure ReadsBack (v : Vocabulary) : Prop where
  history : ∀ s ∈ v.history, Entry.ReadsBack s
  modifiers : ∀ m ∈ v.modifiers, Entry.ReadsBack m
  categories : ∀ c ∈ v.categories, Entry.ReadsBack c
  actions : ∀ a ∈ v.actions, Entry.ReadsBack a
  scripts : ∀ s ∈ v.scripts, Entry.ReadsBack s
  symbols : (Member.identities Modifier v).Nodup
  categoryUuids : (Member.identities Category v).Nodup
  names : (Member.identities Action v).Nodup
  scriptUuids : (Member.identities Script v).Nodup

theorem Sound.readsBack {v : Vocabulary} (h : Sound Instant.IsProper v)
    (hyear : ∀ s ∈ v.history, s.updated.HasPlainYear) : ReadsBack v where
  history s hs := Stamp.readsBack (h.history s hs).isWellFormed (h.history s hs).isProper
    (hyear s hs)
  modifiers m hm := Modifier.readsBack (h.modifiers m hm).isWellFormed
  categories c hc := Category.readsBack (h.categories c hc).isWellFormed
  actions a ha := Action.readsBack (h.actions a ha).isWellFormed
  scripts s _ := Script.readsBack s
  symbols := h.symbols
  categoryUuids := h.categoryUuids
  names := h.names
  scriptUuids := h.scriptUuids

theorem field?_sortedSections (v : Vocabulary) (key : String) : field? key v.sortedSections =
    ((((field? key (sectionField .scripts (fun s => s.toJson.sorted) v.scripts)).or
      (field? key (sectionField .actions (fun a => a.toJson.sorted) v.actions))).or
      (field? key (sectionField .categories (fun c => c.toJson.sorted) v.categories))).or
      (field? key (sectionField .modifiers (fun m => m.toJson.sorted) v.modifiers))).or
      (field? key (sectionField .history (fun s => s.toJson.sorted) v.history)) := by
  simp only [sortedSections, field?_sortFields, List.reverse_append, field?_append,
    reverse_sectionField, Option.or_assoc]

theorem validateFields_sortedSections {v : Vocabulary} (h : ReadsBack v) (fresh : Fresh) :
    validateFields v.sortedSections fresh = ⟨v, [], fresh⟩ := by
  have hhistory : field? Section.history.name v.sortedSections = if v.history = [] then none
      else some (.array (v.history.map fun s => s.toJson.sorted)) := by
    simp [field?_sortedSections, field?_sectionField, Section.name]
  have hmodifiers : field? Section.modifiers.name v.sortedSections = if v.modifiers = [] then none
      else some (.array (v.modifiers.map fun m => m.toJson.sorted)) := by
    simp [field?_sortedSections, field?_sectionField, Section.name]
  have hcategories : field? Section.categories.name v.sortedSections =
      if v.categories = [] then none
      else some (.array (v.categories.map fun c => c.toJson.sorted)) := by
    simp [field?_sortedSections, field?_sectionField, Section.name]
  have hactions : field? Section.actions.name v.sortedSections = if v.actions = [] then none
      else some (.array (v.actions.map fun a => a.toJson.sorted)) := by
    simp [field?_sortedSections, field?_sectionField, Section.name]
  have hscripts : field? Section.scripts.name v.sortedSections = if v.scripts = [] then none
      else some (.array (v.scripts.map fun s => s.toJson.sorted)) := by
    simp [field?_sortedSections, field?_sectionField, Section.name]
  have hnone : Member.identities Stamp v = [] := List.filterMap_eq_nil_iff.mpr fun _ _ => rfl
  have hstamps : (Member.identities Stamp v).Nodup := hnone ▸ List.nodup_nil
  rw [validateFields, unknownSections_sortedSections]
  calc _ = Validation.takeSection Script .scripts addScript v.sortedSections
        (Validation.takeSection Action .actions addAction v.sortedSections
        (Validation.takeSection Category .categories addCategory v.sortedSections
        (Validation.takeSection Modifier .modifiers addModifier v.sortedSections
        ⟨⟨v.history, [], [], [], []⟩, [], fresh⟩))) := by
        rw [show Validation.takeSection Stamp .history (fun v s => .ok (v.record s))
            v.sortedSections ⟨empty, [], fresh⟩ = ⟨⟨v.history, [], [], [], []⟩, [], fresh⟩ from
          takeSection_readsBack h.history hstamps hhistory rfl [] fresh]
    _ = Validation.takeSection Script .scripts addScript v.sortedSections
        (Validation.takeSection Action .actions addAction v.sortedSections
        (Validation.takeSection Category .categories addCategory v.sortedSections
        ⟨⟨v.history, v.modifiers, [], [], []⟩, [], fresh⟩)) := by
        rw [show Validation.takeSection Modifier .modifiers addModifier v.sortedSections
            ⟨⟨v.history, [], [], [], []⟩, [], fresh⟩ =
            ⟨⟨v.history, v.modifiers, [], [], []⟩, [], fresh⟩ from
          takeSection_readsBack h.modifiers h.symbols hmodifiers rfl [] fresh]
    _ = Validation.takeSection Script .scripts addScript v.sortedSections
        (Validation.takeSection Action .actions addAction v.sortedSections
        ⟨⟨v.history, v.modifiers, v.categories, [], []⟩, [], fresh⟩) := by
        rw [show Validation.takeSection Category .categories addCategory v.sortedSections
            ⟨⟨v.history, v.modifiers, [], [], []⟩, [], fresh⟩ =
            ⟨⟨v.history, v.modifiers, v.categories, [], []⟩, [], fresh⟩ from
          takeSection_readsBack h.categories h.categoryUuids hcategories rfl [] fresh]
    _ = Validation.takeSection Script .scripts addScript v.sortedSections
        ⟨⟨v.history, v.modifiers, v.categories, v.actions, []⟩, [], fresh⟩ := by
        rw [show Validation.takeSection Action .actions addAction v.sortedSections
            ⟨⟨v.history, v.modifiers, v.categories, [], []⟩, [], fresh⟩ =
            ⟨⟨v.history, v.modifiers, v.categories, v.actions, []⟩, [], fresh⟩ from
          takeSection_readsBack h.actions h.names hactions rfl [] fresh]
    _ = ⟨v, [], fresh⟩ := takeSection_readsBack h.scripts h.scriptUuids hscripts rfl [] fresh

/-- **The data value of a vocabulary**, with sorted fields, is valid and gives the vocabulary back,
and nothing is drawn for it. -/
theorem validate_sorted_toJson {v : Vocabulary} (h : ReadsBack v) (fresh : Fresh) :
    validate v.toJson.sorted fresh = (.ok v, fresh) := by
  rw [sorted_toJson, validate]
  simp only [validateFields_sortedSections h]
  rfl

/-! ## Texts -/

theorem fits_toJson (v : Vocabulary) : Fits 3 v.toJson := by
  have htext : ∀ (depth : Nat) (key : String) (s : Option String) (f : String × Json),
      f ∈ textField key s → Fits depth f.2 := by
    intro depth key s f hf
    cases s with
    | none => cases hf
    | some s => exact List.mem_singleton.mp hf ▸ .string s
  have hsection : ∀ {α : Type} (s : Section) (toJson : α → Json) (items : List α),
      (∀ a, Fits 1 (toJson a)) → ∀ f ∈ sectionField s toJson items, Fits 2 f.2 := by
    intro α s toJson items h f hf
    cases items with
    | nil => cases hf
    | cons a items =>
      rw [sectionField_cons, List.mem_singleton] at hf
      subst hf
      refine .array fun w hw => ?_
      obtain ⟨b, -, rfl⟩ := List.mem_map.mp hw
      exact h b
  refine .object fun f hf => ?_
  simp only [List.mem_append] at hf
  rcases hf with (((hf | hf) | hf) | hf) | hf
  · refine hsection _ _ _ (fun s => .object fun f hf => ?_) f hf
    simp only [List.mem_append, List.mem_singleton] at hf
    rcases hf with (hf | hf) | rfl
    · exact htext _ _ _ f hf
    · exact htext _ _ _ f hf
    · exact .string _
  · refine hsection _ _ _ (fun m => .object fun f hf => ?_) f hf
    simp only [List.mem_cons, List.not_mem_nil, or_false] at hf
    rcases hf with rfl | rfl <;> exact .string _
  · refine hsection _ _ _ (fun c => .object fun f hf => ?_) f hf
    simp only [List.mem_append, List.mem_cons, List.not_mem_nil, or_false] at hf
    rcases hf with (rfl | rfl) | hf
    · exact .string _
    · cases c.name <;> constructor
    · exact htext _ _ _ f hf
  · refine hsection _ _ _ (fun a => .object fun f hf => ?_) f hf
    simp only [List.mem_cons, List.not_mem_nil, or_false] at hf
    rcases hf with rfl | rfl | rfl | rfl <;> exact .string _
  · refine hsection _ _ _ (fun s => .object fun f hf => ?_) f hf
    simp only [List.mem_cons, List.not_mem_nil, or_false] at hf
    rcases hf with rfl | rfl <;> exact .string _

/-! ## Instants as they are written -/

/-- A vocabulary with the instants that its text names. -/
def asWritten (v : Vocabulary) : Vocabulary := { v with history := v.history.map Stamp.asWritten }

section

variable {v : Vocabulary} (h : ∀ s ∈ v.history, s.updated.IsHeld)
include h

theorem asWritten_eq_self_iff : v.asWritten = v ↔ ∀ s ∈ v.history, s.updated.IsProper := by
  have hstamps : (∀ s ∈ v.history, s.asWritten = s) ↔ ∀ s ∈ v.history, s.updated.IsProper :=
    forall₂_congr fun s hs => Stamp.asWritten_eq_self_iff (h s hs)
  have hmap : v.history.map Stamp.asWritten = v.history.map id ↔
      ∀ s ∈ v.history, s.asWritten = s := List.map_inj_left
  rw [← hstamps, ← hmap, List.map_id]
  exact ⟨congrArg history, fun heq => by rw [asWritten, heq]⟩

theorem toJson_asWritten : v.asWritten.toJson = v.toJson := by
  have hitems : v.asWritten.history.map Stamp.toJson = v.history.map Stamp.toJson := by
    rw [asWritten, List.map_map]
    exact List.map_congr_left fun s hs => Stamp.toJson_asWritten (h s hs)
  have hempty : v.asWritten.history.isEmpty = v.history.isEmpty := List.isEmpty_map
  rw [toJson, toJson, sectionField, sectionField, hitems, hempty]
  rfl

theorem render_asWritten (format : Format) : v.asWritten.render format = v.render format := by
  cases format <;> simp only [render, toJson_asWritten h]

end

theorem Sound.isHeld {v : Vocabulary} (h : Sound Instant.IsHeld v) :
    ∀ s ∈ v.history, s.updated.IsHeld := fun s hs => (h.history s hs).isHeld

theorem Sound.readsBack_asWritten {v : Vocabulary} (h : Sound Instant.IsHeld v)
    (hyear : ∀ s ∈ v.history, s.updated.HasPlainYear) : ReadsBack v.asWritten where
  history := List.forall_mem_map.mpr fun s hs =>
    Stamp.readsBack_asWritten (h.history s hs).isWellFormed (h.isHeld s hs) (hyear s hs)
  modifiers m hm := Modifier.readsBack (h.modifiers m hm).isWellFormed
  categories c hc := Category.readsBack (h.categories c hc).isWellFormed
  actions a ha := Action.readsBack (h.actions a ha).isWellFormed
  scripts s _ := Script.readsBack s
  symbols := h.symbols
  categoryUuids := h.categoryUuids
  names := h.names
  scriptUuids := h.scriptUuids

/-- What is read as the vocabulary that a text names is read as the one that is written exactly if no
instant of it is written as another one. -/
theorem eq_iff_of_asWritten {v : Vocabulary} (h : ∀ s ∈ v.history, s.updated.IsHeld)
    {result : Except DocumentError Vocabulary × Fresh} {fresh : Fresh}
    (hresult : result = (.ok v.asWritten, fresh)) :
    result = (.ok v, fresh) ↔ ∀ s ∈ v.history, s.updated.IsProper := by
  rw [hresult, ← asWritten_eq_self_iff h]
  simp

theorem valueOf_render_json (v : Vocabulary) :
    valueOf .json (v.render .json) = .ok v.toJson.sorted := by
  rw [valueOf, render, read_pretty (fits_toJson _) (by decide)]
  rfl

theorem parse_json_asWritten {v : Vocabulary} (h : Sound Instant.IsHeld v)
    (hyear : ∀ s ∈ v.history, s.updated.HasPlainYear) (fresh : Fresh) :
    parse .json (v.render .json) fresh = (.ok v.asWritten, fresh) := by
  rw [← render_asWritten h.isHeld, parse, valueOf_render_json]
  exact validate_sorted_toJson (h.readsBack_asWritten hyear) fresh

/-- **A document made of items is read back from its JSON text.** The instants from outside are those
that a date-time holds. Every section comes back in its order and every item field by field, with
the instants that the text names, and no uuid and no reading of the clock is drawn. So the document
comes back as it was exactly if none of its stamps holds a leap second inside of a minute. -/
theorem parse_render_json {items : List Item} (made : ∀ i ∈ items, i.Made Instant.IsHeld)
    (hyear : ∀ s ∈ (ofItems items).history, s.updated.HasPlainYear) (fresh : Fresh) :
    parse .json ((ofItems items).render .json) fresh = (.ok (ofItems items).asWritten, fresh) ∧
    (parse .json ((ofItems items).render .json) fresh = (.ok (ofItems items), fresh) ↔
      ∀ s ∈ (ofItems items).history, s.updated.IsProper) := by
  have sound := sound_ofItems made
  have hread := parse_json_asWritten sound hyear fresh
  exact ⟨hread, eq_iff_of_asWritten sound.isHeld hread⟩

/-- Items of many kinds come back as they were; behind them a leap second in the first second of a
minute comes back as the next second. -/
theorem parse_render_json_cornerItems :
    let inside := Stamp.make ⟨0, 1500000000⟩ (some "a") none none
    let fresh : Fresh := ⟨Supply.constant Uuid.nil, Supply.constant ⟨0, 0⟩⟩
    (∀ i ∈ cornerItems ++ [.stamp inside], i.Made Instant.IsHeld) ∧
    (∀ s ∈ (ofItems (cornerItems ++ [.stamp inside])).history, s.updated.HasPlainYear) ∧
    parse .json ((ofItems cornerItems).render .json) fresh = (.ok (ofItems cornerItems), fresh) ∧
    parse .json ((ofItems (cornerItems ++ [.stamp inside])).render .json) fresh =
      (.ok (ofItems (cornerItems ++ [.stamp (Stamp.make ⟨1, 500000000⟩ (some "a") none none)])),
        fresh) := by
  intro inside fresh
  have corner := made_cornerItems (show Instant.IsHeld ⟨1483228799, 1000000500⟩ by decide)
  have made : ∀ i ∈ cornerItems ++ [.stamp inside], i.Made Instant.IsHeld :=
    List.forall_mem_append.mpr ⟨corner, List.forall_mem_singleton.mpr
      (.make _ _ (by decide) fun _ h => nomatch h)⟩
  have hyear : ∀ s ∈ (ofItems (cornerItems ++ [.stamp inside])).history,
      s.updated.HasPlainYear := by decide +kernel
  have hnamed : (ofItems (cornerItems ++ [.stamp inside])).asWritten =
      ofItems (cornerItems ++ [.stamp (Stamp.make ⟨1, 500000000⟩ (some "a") none none)]) := by
    decide +kernel
  exact ⟨made, hyear, (parse_render_json corner (by decide +kernel) fresh).2.mpr (by decide +kernel),
    hnamed ▸ (parse_render_json made hyear fresh).1⟩

/-- **A leap second inside of a minute** is read back as another instant, and another stamp is the
latest then. -/
theorem not_parse_render_json :
    let a := Stamp.make ⟨0, 1500000000⟩ (some "a") none none
    let b := Stamp.make ⟨1, 200000000⟩ (some "b") none none
    let v := ofItems [.stamp a, .stamp b]
    let back : Vocabulary := ⟨[⟨some "a", none, ⟨1, 500000000⟩⟩, b], [], [], [], []⟩
    (Item.Made Instant.IsHeld (.stamp a) ∧ Item.Made Instant.IsHeld (.stamp b)) ∧
    (∀ s ∈ v.history, s.updated.HasPlainYear) ∧
    v.render .json = "\x7b\n  \"history\": [\n    \x7b\n      \"name\": \"a\",\n" ++
      "      \"updated\": \"1970-01-01T00:00:01.500Z\"\n    \x7d,\n    \x7b\n" ++
      "      \"name\": \"b\",\n      \"updated\": \"1970-01-01T00:00:01.200Z\"\n" ++
      "    \x7d\n  ]\n\x7d" ∧
    (∀ fresh, parse .json (v.render .json) fresh = (.ok back, fresh)) ∧
    back ≠ v ∧ v.latest? = some b ∧ back.latest? ≠ some b := by
  intro a b v back
  have ha : Stamp.Made Instant.IsHeld a := .make _ _ (by decide) fun _ h => nomatch h
  have hb : Stamp.Made Instant.IsHeld b := .make _ _ (by decide) fun _ h => nomatch h
  have made : ∀ i ∈ [Item.stamp a, Item.stamp b], i.Made Instant.IsHeld :=
    List.forall_mem_cons.mpr ⟨ha, List.forall_mem_singleton.mpr hb⟩
  have hyear : ∀ s ∈ v.history, s.updated.HasPlainYear := by decide +kernel
  have hnamed : v.asWritten = back := by decide +kernel
  refine ⟨⟨ha, hb⟩, hyear, by decide +kernel, fun fresh => ?_, by decide +kernel, by decide +kernel,
    by decide +kernel⟩
  exact hnamed ▸ parse_json_asWritten (sound_ofItems made) hyear fresh

end Methodology.Vocabulary
