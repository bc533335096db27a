import Methodology.Proofs.Vocabulary.Outcome

/-!
# The order of violations

The violations of a document are listed section by section. Within a section all its items are read
before the first of them is put in, so what does not read comes before what is refused, wherever the
items stand.

* `Section.indices`: where the items of a section stand that read, or that do not.
* `indicesIn`: the items of a section that are reported, in the order in which they are.
* `indicesIn_readItems`, `sublist_indicesIn_insertAll`: the two loops over a section.
* `takeMember_cases`, `exists_sections`: the violations that **one section** adds, and all of them.
* `IsReported`: the violations that are listed for a section; `isReported_takeMember`,
  `exists_isReported`: so they are.
* **`violations_in_order`**: in which order violations are listed.
-/

namespace Methodology

open Result

/-! ## Indices -/

/-- Whether an item of a section reads. -/
def Section.reads (s : Section) (v : Json) : Bool := (s.identityOf v).isOk

/-- The indices of the items that read, or of those that do not, from an index on. -/
def Section.indicesFrom (s : Section) (read : Bool) (start : Nat) (items : List Json) : List Nat :=
  ((items.zipIdx start).filter fun p => s.reads p.1 == read).map Prod.snd

/-- **The indices of the items that read**, or of those that do not. -/
def Section.indices (s : Section) (read : Bool) (items : List Json) : List Nat :=
  s.indicesFrom read 0 items

/-- The index of a place in a section, if one of its items is there. -/
def Place.index? (s : Section) : Place → Option Nat
  | item part index => if part = s then some index else none
  | _ => none

/-- **The items of a section that are reported**, in the order of the list. -/
def indicesIn (s : Section) (violations : List Violation) : List Nat :=
  violations.filterMap fun x => x.place.index? s

theorem pairwise_indices (s : Section) (read : Bool) (items : List Json) :
    (s.indices read items).Pairwise (· < ·) := by
  have hsublist : (s.indices read items).Sublist (items.zipIdx.map Prod.snd) :=
    List.filter_sublist.map _
  rw [List.zipIdx_map_snd] at hsublist
  exact List.Pairwise.sublist hsublist List.pairwise_lt_range'

theorem indicesFrom_cons (s : Section) (read : Bool) (start : Nat) (v : Json) (items : List Json) :
    s.indicesFrom read start (v :: items) =
      if s.reads v = read then start :: s.indicesFrom read (start + 1) items
      else s.indicesFrom read (start + 1) items := by
  unfold Section.indicesFrom
  rw [List.zipIdx_cons, List.filter_cons]
  by_cases h : s.reads v = read <;> simp [h]

theorem indicesIn_append (s : Section) (xs ys : List Violation) :
    indicesIn s (xs ++ ys) = indicesIn s xs ++ indicesIn s ys := List.filterMap_append

theorem indicesIn_cons_violationAt (s : Section) (index : Nat) (message : String)
    (xs : List Violation) :
    indicesIn s (violationAt s index message :: xs) = index :: indicesIn s xs := by
  simp [indicesIn, violationAt, Place.index?]

theorem indicesIn_filter (s : Section) (violations : List Violation) :
    indicesIn s (violations.filter fun x => x.place.isIn s) = indicesIn s violations := by
  unfold indicesIn
  rw [List.filterMap_filter]
  refine List.filterMap_congr fun x _ => ?_
  cases x.place with
  | item part index => by_cases h : part = s <;> simp [Place.isIn, Place.index?, h]
  | _ => simp [Place.index?]

/-! ## The two loops over a section -/

section Loops

variable {α : Type} [Entry α] [Member α]

theorem reads_eq [Stated α] (v : Json) :
    (Member.part α).reads v = (Entry.ofValue α v).isOk := by
  rw [Section.reads, Stated.identityOf_eq]
  cases Entry.ofValue α v <;> rfl

/-- **The items that are read**: those that fail are reported in their order, and the others are
kept in theirs. -/
theorem indicesIn_readItems [Stated α] (start : Nat) (items : List Json) :
    let read := readItems α (Member.part α) start items
    indicesIn (Member.part α) read.1 = (Member.part α).indicesFrom false start items ∧
      read.2.map Prod.fst = (Member.part α).indicesFrom true start items := by
  induction items generalizing start with
  | nil => exact ⟨rfl, rfl⟩
  | cons v items ih =>
    obtain ⟨hunread, hread⟩ := ih (start + 1)
    have hreads := reads_eq (α := α) v
    simp only [readItems, indicesFrom_cons, hreads]
    cases hv : Entry.ofValue α v with
    | ok draft => exact ⟨hunread, congrArg (start :: ·) hread⟩
    | error m =>
      refine ⟨?_, hread⟩
      simp only [indicesIn_cons_violationAt, hunread]
      rfl

omit [Member α] in
theorem map_fst_settleAll (drafts : List (Nat × Entry.Draft α)) (fresh : Fresh) :
    (settleAll drafts fresh).1.map Prod.fst = drafts.map Prod.fst := by
  induction drafts generalizing fresh with
  | nil => rfl
  | cons p drafts ih => exact congrArg (p.1 :: ·) (ih _)

/-- **The items that are put in**: those that are refused are reported in their order. -/
theorem sublist_indicesIn_insertAll (v : Vocabulary) (items : List (Nat × α)) :
    (indicesIn (Member.part α) (insertAll (Member.part α) Member.insert v items).2).Sublist
      (items.map Prod.fst) := by
  induction items generalizing v with
  | nil => exact .slnil
  | cons p items ih =>
    obtain ⟨index, a⟩ := p
    rw [insertAll]
    split
    · exact (ih _).cons _
    · rw [indicesIn_cons_violationAt]
      exact (ih _).cons_cons _

end Loops

/-! ## Sections -/

/-- The violations that are listed for a section: they lie in it, and the items that do not read
come first, in their order, and then items that read and are refused, in theirs. -/
structure IsReported (fields : List (String × Json)) (s : Section) (found : List Violation) :
    Prop where
  inside : ∀ x ∈ found, ∀ t, x.place.isIn t = (s == t)
  ordered : ∃ refused,
    indicesIn s found = s.indices false (itemsOf (Json.field? s.name fields)) ++ refused ∧
      refused.Sublist (s.indices true (itemsOf (Json.field? s.name fields)))

section Taken

variable {α : Type} [Entry α] [Member α]

theorem exists_item_of_mem_readItems {start : Nat} {items : List Json} {x : Violation}
    (hx : x ∈ (readItems α (Member.part α) start items).1) :
    ∃ i, x.place = .item (Member.part α) i := by
  induction items generalizing start with
  | nil => cases hx
  | cons v items ih =>
    simp only [readItems] at hx
    split at hx
    · exact ih hx
    · rcases List.mem_cons.mp hx with rfl | hx
      · exact ⟨_, rfl⟩
      · exact ih hx

theorem exists_item_of_mem_insertAll {v : Vocabulary} {items : List (Nat × α)} {x : Violation}
    (hx : x ∈ (insertAll (Member.part α) Member.insert v items).2) :
    ∃ i, x.place = .item (Member.part α) i := by
  induction items generalizing v with
  | nil => cases hx
  | cons p items ih =>
    obtain ⟨index, a⟩ := p
    rw [insertAll] at hx
    split at hx
    · exact ih hx
    · rcases List.mem_cons.mp hx with rfl | hx
      · exact ⟨_, rfl⟩
      · exact ih hx

omit [Member α] in
/-- A section that is no list has no items, and is reported as a whole if at all. -/
theorem readSection_cases (part : Section) (fields : List (String × Json)) :
    (∃ items, Json.field? part.name fields = some (.array items)) ∨
      (itemsOf (Json.field? part.name fields) = [] ∧ ∃ unread,
        readSection α part fields = (unread, []) ∧ unread.length ≤ 1 ∧ ∀ x ∈ unread, ∃ v : Json,
          x = ⟨.field part.name, "section must be a list, got " ++ v.kind⟩) := by
  rw [readSection]
  cases Json.field? part.name fields with
  | none => exact .inr ⟨rfl, [], rfl, Nat.zero_le _, List.forall_mem_nil _⟩
  | some value =>
    cases value with
    | array items => exact .inl ⟨items, rfl⟩
    | null => exact .inr ⟨rfl, [], rfl, Nat.zero_le _, List.forall_mem_nil _⟩
    | _ => exact .inr ⟨rfl, _, rfl, Nat.le_refl _, fun x hx => ⟨_, List.mem_singleton.mp hx⟩⟩

theorem isReported_of_no_items {fields : List (String × Json)} {s : Section}
    {found : List Violation} (hitems : itemsOf (Json.field? s.name fields) = [])
    (hfound : ∀ x ∈ found, x.place = .field s.name) : IsReported fields s found where
  inside x hx t := by
    rw [hfound x hx]
    cases s <;> cases t <;> decide
  ordered := by
    refine ⟨[], ?_, List.nil_sublist _⟩
    rw [hitems]
    exact List.filterMap_eq_nil_iff.mpr fun x hx => by rw [hfound x hx]; rfl

/-- **What a section adds**: the violations of its items, or of the section as a whole. -/
theorem takeMember_cases (fields : List (String × Json)) (s : Validation) :
    ∃ found, (s.takeMember α fields).violations = s.violations ++ found ∧
      ((∃ items, Json.field? (Member.part α).name fields = some (.array items) ∧
        found = (readItems α (Member.part α) 0 items).1 ++
          (insertAll (Member.part α) Member.insert s.vocabulary
            (settleAll (readItems α (Member.part α) 0 items).2 s.fresh).1).2) ∨
      (itemsOf (Json.field? (Member.part α).name fields) = [] ∧ found.length ≤ 1 ∧
        ∀ x ∈ found, ∃ v : Json,
          x = ⟨.field (Member.part α).name, "section must be a list, got " ++ v.kind⟩)) := by
  rw [Validation.takeMember]
  rcases readSection_cases (α := α) (Member.part α) fields with
    ⟨items, hfield⟩ | ⟨hitems, unread, hread, hunread⟩
  · have hread : readSection α (Member.part α) fields = readItems α (Member.part α) 0 items := by
      rw [readSection, hfield]
    rw [Validation.takeSection, hread]
    exact ⟨_, List.append_assoc .., .inl ⟨items, hfield, rfl⟩⟩
  · rw [takeSection_of_no_drafts hread]
    exact ⟨unread, rfl, .inr ⟨hitems, hunread⟩⟩

theorem isReported_takeMember [Stated α] (fields : List (String × Json)) (s : Validation) :
    ∃ found, (s.takeMember α fields).violations = s.violations ++ found ∧
      IsReported fields (Member.part α) found := by
  obtain ⟨found, hfound, hcases⟩ := takeMember_cases (α := α) fields s
  refine ⟨found, hfound, ?_⟩
  rcases hcases with ⟨items, hfield, rfl⟩ | ⟨hitems, -, hunread⟩
  · obtain ⟨hunread, hkept⟩ := indicesIn_readItems (α := α) 0 items
    have hrefused := sublist_indicesIn_insertAll s.vocabulary
      (settleAll (readItems α (Member.part α) 0 items).2 s.fresh).1
    rw [map_fst_settleAll, hkept] at hrefused
    refine ⟨fun x hx t => ?_, ?_⟩
    · obtain ⟨i, hplace⟩ :=
        (List.mem_append.mp hx).elim exists_item_of_mem_readItems exists_item_of_mem_insertAll
      rw [hplace]
      rfl
    · rw [indicesIn_append, hunread, hfield]
      exact ⟨_, rfl, hrefused⟩
  · refine isReported_of_no_items hitems fun x hx => ?_
    obtain ⟨v, rfl⟩ := hunread x hx
    rfl

end Taken

/-- **All sections**, in their order and behind the keys that name none. What holds of the
violations that each section adds holds of the lists that make up the whole one. -/
theorem exists_sections {P : Section → List Violation → Prop} {fields : List (String × Json)}
    (hstep : ∀ (α : Type) [Entry α] [Member α] [Stated α] (s : Validation), ∃ found,
      (s.takeMember α fields).violations = s.violations ++ found ∧ P (Member.part α) found)
    (fresh : Fresh) : ∃ found : Section → List Violation,
      (validateFields fields fresh).violations =
        unknownSections fields ++ Section.all.flatMap found ∧ ∀ s, P s (found s) := by
  let s₀ : Validation := ⟨.empty, unknownSections fields, fresh⟩
  let s₁ := s₀.takeMember Stamp fields
  let s₂ := s₁.takeMember Modifier fields
  let s₃ := s₂.takeMember Category fields
  let s₄ := s₃.takeMember Action fields
  obtain ⟨stamps, h₁, hstamps⟩ := hstep Stamp s₀
  obtain ⟨modifiers, h₂, hmodifiers⟩ := hstep Modifier s₁
  obtain ⟨categories, h₃, hcategories⟩ := hstep Category s₂
  obtain ⟨actions, h₄, hactions⟩ := hstep Action s₃
  obtain ⟨scripts, h₅, hscripts⟩ := hstep Script s₄
  -- one list for each section, in the order of the constructors
  refine ⟨@Section.rec (fun _ => List Violation) stamps modifiers categories actions scripts, ?_,
    fun s => ?_⟩
  · change (s₄.takeMember Script fields).violations = _
    rw [h₅, h₄, h₃, h₂, h₁]
    simp only [Section.all, List.flatMap_cons, List.flatMap_nil, List.append_nil, s₀,
      List.append_assoc]
  · cases s with
    | history => exact hstamps
    | modifiers => exact hmodifiers
    | categories => exact hcategories
    | actions => exact hactions
    | scripts => exact hscripts

theorem exists_isReported (fields : List (String × Json)) (fresh : Fresh) :
    ∃ found : Section → List Violation,
      (validateFields fields fresh).violations =
        unknownSections fields ++ Section.all.flatMap found ∧
      ∀ s, IsReported fields s (found s) :=
  exists_sections (fun α _ _ _ => isReported_takeMember (α := α) fields) fresh

/-! ## The whole list -/

/-- **In which order violations are listed**, whatever the document and the uuids that are drawn.

* The keys that name no section come first, and then the sections in their order.
* Within a section the items that do not read come first, all of them in their order, and then those
  that read and are refused, in theirs.
* So the items of a section are listed in their order exactly if every item that does not read stands
  before every item that is refused. -/
theorem violations_in_order {fields : List (String × Json)} {fresh : Fresh}
    {violations : List Violation}
    (hrefused : (validate (.object fields) fresh).1 = .error (.invalid violations)) :
    violations = unknownSections fields ++
      Section.all.flatMap (fun s => violations.filter fun x => x.place.isIn s) ∧
    ∀ s : Section, let items := itemsOf (Json.field? s.name fields)
      ∃ refused, indicesIn s violations = s.indices false items ++ refused ∧
        refused.Sublist (s.indices true items) ∧
        (s.indices false items).Pairwise (· < ·) ∧ refused.Pairwise (· < ·) ∧
        ((indicesIn s violations).Pairwise (· < ·) ↔
          ∀ i ∈ s.indices false items, ∀ j ∈ refused, i < j) := by
  obtain ⟨found, hfound, hreported⟩ := exists_isReported fields fresh
  rw [violations_of_refused hrefused] at hfound
  have hsection : ∀ s, violations.filter (fun x => x.place.isIn s) = found s := by
    rw [hfound]
    exact filter_sections (fun s => (hreported s).inside) fields
  refine ⟨?_, fun s => ?_⟩
  · simp only [hsection]
    exact hfound
  · intro items
    obtain ⟨refused, hindices, hsublist⟩ := (hreported s).ordered
    rw [← hsection, indicesIn_filter] at hindices
    have hunread := pairwise_indices s false items
    have hordered := List.Pairwise.sublist hsublist (pairwise_indices s true items)
    refine ⟨refused, hindices, hsublist, hunread, hordered, ?_⟩
    rw [hindices, List.pairwise_append]
    exact ⟨fun h => h.2.2, fun h => ⟨hunread, hordered, h⟩⟩

/-- A duplicate that stands before an item that does not read. -/
def lateFields : List (String × Json) :=
  [("modifiers", .array [.object [("name", .string "+"), ("title", .string "Merge")],
    .object [("name", .string "+"), ("title", .string "Again")],
    .object [("name", .string "++"), ("title", .string "Double")]])]

theorem violations_in_order_lateFields :
    let fresh : Fresh := ⟨Supply.constant Uuid.nil, Supply.constant ⟨0, 0⟩⟩
    let violations := (validateFields lateFields fresh).violations
    (validate (.object lateFields) fresh).1 = .error (.invalid violations) ∧
    ∃ refused, indicesIn .modifiers violations = [2] ++ refused ∧ refused.Sublist [0, 1] := by
  intro fresh violations
  have hrefused : (validate (.object lateFields) fresh).1 = .error (.invalid violations) := by
    decide +kernel
  have hunread : Section.modifiers.indices false
      (itemsOf (Json.field? Section.modifiers.name lateFields)) = [2] := by decide +kernel
  have hread : Section.modifiers.indices true
      (itemsOf (Json.field? Section.modifiers.name lateFields)) = [0, 1] := by decide +kernel
  obtain ⟨refused, hindices, hsublist, -⟩ := (violations_in_order hrefused).2 .modifiers
  rw [hunread] at hindices
  rw [hread] at hsublist
  exact ⟨hrefused, refused, hindices, hsublist⟩

/-- Items of a section need not be listed in their order. -/
theorem not_pairwise_indicesIn : ¬ ∀ (fields : List (String × Json)) (fresh : Fresh)
    (violations : List Violation),
    (validate (.object fields) fresh).1 = .error (.invalid violations) →
      ∀ s, (indicesIn s violations).Pairwise (· < ·) := by
  intro h
  let fresh : Fresh := ⟨Supply.constant Uuid.nil, Supply.constant ⟨0, 0⟩⟩
  have hrefused : (validate (.object lateFields) fresh).1 =
      .error (.invalid (validateFields lateFields fresh).violations) := by decide +kernel
  have hindices : indicesIn .modifiers (validateFields lateFields fresh).violations = [2, 1] := by
    decide +kernel
  have hordered := h _ _ _ hrefused .modifiers
  rw [hindices] at hordered
  revert hordered
  decide

end Methodology
