import Mathlib.Algebra.Ring.Nat
import Methodology.Proofs.Result
import Methodology.Proofs.Vocabulary.Member

/-!
# The violations of a section

Which violations a data value has is said without a loop: an item is at fault on its own, or because
an earlier item of its section states the same identity, whether that one was taken or not.

* `Section.identityOf`: what an item of a section reads as.
* `Section.fault?`, `Section.violations`, `violationsOf`: **the violations** of an item, of a
  section and of a document.
* `Fresh.IsNew`: a supply of uuids that are new.
* `Stated`: the identity that a draft states; the instances for the five kinds of entries.
* **`perm_of_loop`**: reading, settling and putting in the items of a section finds the violations
  of the section; the invariant is `Seen`.
-/

namespace Methodology

open Result

/-! ## The violations of a document -/

/-- What an item of a section reads as: the identity that it states, if it states one. -/
def Section.identityOf : Section → Json → Except Misread (Option Identity)
  | history, v => (Entry.ofValue Stamp v).map fun _ => none
  | modifiers, v => (Entry.ofValue Modifier v).map fun m => some (.symbol m.symbol)
  | categories, v => (Entry.ofValue Category v).map fun d => d.uuid.map .uuid
  | actions, v => (Entry.ofValue Action v).map fun a => some (.name a.name)
  | scripts, v => (Entry.ofValue Script v).map fun d => d.uuid.map .uuid

/-- The identity that an item states, if it reads. -/
def Section.stated? (s : Section) (v : Json) : Option Identity :=
  match s.identityOf v with
  | .ok k => k
  | .error _ => none

/-- What is wrong with the item at an index: it does not read, or it states an identity that an
earlier item states. -/
def Section.fault? (s : Section) (items : List Json) (index : Nat) : Option String :=
  match items[index]?.map s.identityOf with
  | some (.error m) => some m.message
  | some (.ok (some k)) =>
    if k ∈ (items.take index).filterMap s.stated? then some (Duplicate.message ⟨s, k.text⟩)
    else none
  | some (.ok none) => none
  | none => none

/-- The violations of the items of a section. -/
def Section.itemViolations (s : Section) (items : List Json) : List Violation :=
  (List.range items.length).filterMap fun index =>
    (s.fault? items index).map fun message => ⟨.item s index, message⟩

/-- **The violations of a section**, given what stands under its name. -/
def Section.violations (s : Section) : Option Json → List Violation
  | none => []
  | some .null => []
  | some (.array items) => s.itemViolations items
  | some v => [⟨.field s.name, "section must be a list, got " ++ v.kind⟩]

/-- **The violations of a document**: those of the keys that name no section, and those of its
sections. -/
def violationsOf (fields : List (String × Json)) : List Violation :=
  unknownSections fields ++ Section.all.flatMap fun s => s.violations (Json.field? s.name fields)

/-- The items that stand under the name of a section. -/
def itemsOf : Option Json → List Json
  | some (.array items) => items
  | _ => []

/-- The identities that the items of a document state. -/
def statedIn (fields : List (String × Json)) : List Identity :=
  Section.all.flatMap fun s => (itemsOf (Json.field? s.name fields)).filterMap s.stated?

/-- How many uuids an item of a section draws: one if it reads as a category or a script that states
none. -/
def Section.draws : Section → Json → Nat
  | categories, v => match categories.identityOf v with
    | .ok none => 1
    | _ => 0
  | scripts, v => match scripts.identityOf v with
    | .ok none => 1
    | _ => 0
  | _, _ => 0

/-- How many uuids the items of a section draw. -/
def Section.drawsAll (s : Section) (items : List Json) : Nat := (items.map s.draws).sum

/-- How many uuids the items of a document draw. -/
def drawsOf (fields : List (String × Json)) : Nat :=
  (Section.all.map fun s => s.drawsAll (itemsOf (Json.field? s.name fields))).sum

/-- A supply whose next uuids, so many of them, are distinct from one another and from certain
others. -/
structure Fresh.IsNew (fresh : Fresh) (known : List Identity) (n : Nat) : Prop where
  distinct : ∀ i < n, ∀ j < n, fresh.uuids i = fresh.uuids j → i = j
  unknown : ∀ i < n, Identity.uuid (fresh.uuids i) ∉ known

theorem Fresh.IsNew.next {fresh fresh' : Fresh} {known : List Identity} {n : Nat}
    (h : fresh.IsNew known (n + 1)) (hnext : fresh'.uuids = fresh.uuids.next.2) :
    fresh'.IsNew known n where
  distinct i hi j hj heq := by
    rw [hnext] at heq
    exact Nat.succ.inj (h.distinct _ (Nat.succ_lt_succ hi) _ (Nat.succ_lt_succ hj) heq)
  unknown i hi := by
    rw [hnext]
    exact h.unknown (i + 1) (Nat.succ_lt_succ hi)

theorem Fresh.IsNew.of_eq {fresh fresh' : Fresh} {known : List Identity} {m n : Nat}
    (h : fresh.IsNew known n) (heq : fresh'.uuids = fresh.uuids) (hm : m ≤ n) :
    fresh'.IsNew known m where
  distinct i hi j hj := heq ▸ h.distinct i (Nat.lt_of_lt_of_le hi hm) j (Nat.lt_of_lt_of_le hj hm)
  unknown i hi := heq ▸ h.unknown i (Nat.lt_of_lt_of_le hi hm)

/-! ## Stated identities -/

/-- **The identity that a draft states**, which is the one of its item; the item of a draft that
states none has no identity or a fresh uuid. -/
class Stated (α : Type) [Entry α] [Member α] where
  stated? : Entry.Draft α → Option Identity
  identityOf_eq (v : Json) : (Member.part α).identityOf v = (Entry.ofValue α v).map stated?
  settle_of_some {d : Entry.Draft α} {k : Identity} (h : stated? d = some k) (fresh : Fresh) :
    Member.identity? (Entry.settle d fresh).1 = some k ∧
      (Entry.settle d fresh).2.uuids = fresh.uuids
  settle_of_none {v : Json} {d : Entry.Draft α} (hread : Entry.ofValue α v = .ok d)
    (h : stated? d = none) (fresh : Fresh) :
    (Member.identity? (Entry.settle d fresh).1 = none ∧
      (Entry.settle d fresh).2.uuids = fresh.uuids) ∨
    (Member.identity? (Entry.settle d fresh).1 = some (.uuid fresh.uuids.next.1) ∧
      (Entry.settle d fresh).2.uuids = fresh.uuids.next.2 ∧ (Member.part α).draws v = 1)

instance : Stated Stamp where
  stated? _ := none
  identityOf_eq _ := rfl
  settle_of_some h := nomatch h
  settle_of_none {_ d} _ _ fresh := by
    refine .inl ⟨rfl, ?_⟩
    change (fresh.instant d.updated).2.uuids = fresh.uuids
    cases d.updated <;> rfl

instance : Stated Modifier where
  stated? m := some (.symbol m.symbol)
  identityOf_eq _ := rfl
  settle_of_some h _ := ⟨h, rfl⟩
  settle_of_none _ h := nomatch h

instance : Stated Category where
  stated? d := d.uuid.map .uuid
  identityOf_eq _ := rfl
  settle_of_some {d k} h fresh := by
    obtain ⟨u, hu, rfl⟩ := Option.map_eq_some_iff.mp h
    obtain ⟨uuid, name, description⟩ := d
    cases hu
    exact ⟨rfl, rfl⟩
  settle_of_none {v d} hread h fresh := by
    have hopen : Section.categories.identityOf v = .ok none := by
      rw [Section.identityOf, hread, map_ok, h]
    obtain ⟨uuid, name, description⟩ := d
    cases Option.map_eq_none_iff.mp h
    refine .inr ⟨rfl, rfl, ?_⟩
    change Section.draws .categories v = 1
    simp only [Section.draws, hopen]

instance : Stated Action where
  stated? a := some (.name a.name)
  identityOf_eq _ := rfl
  settle_of_some h _ := ⟨h, rfl⟩
  settle_of_none _ h := nomatch h

instance : Stated Script where
  stated? d := d.uuid.map .uuid
  identityOf_eq _ := rfl
  settle_of_some {d k} h fresh := by
    obtain ⟨u, hu, rfl⟩ := Option.map_eq_some_iff.mp h
    obtain ⟨uuid, text⟩ := d
    cases hu
    exact ⟨rfl, rfl⟩
  settle_of_none {v d} hread h fresh := by
    have hopen : Section.scripts.identityOf v = .ok none := by
      rw [Section.identityOf, hread, map_ok, h]
    obtain ⟨uuid, text⟩ := d
    cases Option.map_eq_none_iff.mp h
    refine .inr ⟨rfl, rfl, ?_⟩
    change Section.draws .scripts v = 1
    simp only [Section.draws, hopen]

/-! ## The loop over a section -/

section Loop

variable {α : Type} [Entry α] [Member α] {known : List Identity} {n : Nat}

/-- **The invariant of the loop.** The identities that are taken are those that the items so far
state, whether they were taken or refused, and uuids drawn for items that state none. -/
structure Seen (α : Type) [Entry α] [Member α] (known : List Identity) (n : Nat)
    (before : List Json) (v : Vocabulary) (fresh : Fresh) : Prop where
  of_stated : ∀ k ∈ before.filterMap (Member.part α).stated?, k ∈ Member.identities α v
  of_taken : ∀ k ∈ Member.identities α v, k ∈ before.filterMap (Member.part α).stated? ∨
    (k ∉ known ∧ ∀ i < n, Identity.uuid (fresh.uuids i) ≠ k)

theorem Seen.mono {before : List Json} {v : Vocabulary} {fresh : Fresh} {m : Nat}
    (h : Seen α known n before v fresh) (hm : m ≤ n) : Seen α known m before v fresh where
  of_stated := h.of_stated
  of_taken k hk := (h.of_taken k hk).imp id fun ⟨hunknown, hdrawn⟩ =>
    ⟨hunknown, fun i hi => hdrawn i (Nat.lt_of_lt_of_le hi hm)⟩

theorem filterMap_stated?_concat (s : Section) (before : List Json) (v : Json) :
    (before ++ [v]).filterMap s.stated? = before.filterMap s.stated? ++ (s.stated? v).toList := by
  rw [List.filterMap_append]
  cases h : s.stated? v <;> simp [h]

theorem Seen.of_unread {before : List Json} {v : Vocabulary} {fresh : Fresh}
    (h : Seen α known n before v fresh) {x : Json} (hx : (Member.part α).stated? x = none) :
    Seen α known n (before ++ [x]) v fresh := by
  have heq : (before ++ [x]).filterMap (Member.part α).stated? =
      before.filterMap (Member.part α).stated? := by
    rw [filterMap_stated?_concat, hx, Option.toList_none, List.append_nil]
  exact ⟨heq ▸ h.of_stated, heq ▸ h.of_taken⟩

variable [Stated α]

theorem stated?_of_ok {v : Json} {d : Entry.Draft α} (h : Entry.ofValue α v = .ok d) :
    (Member.part α).stated? v = Stated.stated? d := by
  rw [Section.stated?, Stated.identityOf_eq, h]
  rfl

theorem stated?_of_error {v : Json} {m : Misread} (h : Entry.ofValue α v = .error m) :
    (Member.part α).stated? v = none := by
  rw [Section.stated?, Stated.identityOf_eq, h]
  rfl

/-- **An item that states no identity** is taken. -/
theorem Seen.of_open {before : List Json} {v : Vocabulary} {fresh : Fresh} {x : Json}
    (h : Seen α known ((Member.part α).draws x + n) before v fresh)
    (hnew : fresh.IsNew known ((Member.part α).draws x + n))
    (hknown : ∀ k ∈ before.filterMap (Member.part α).stated?, k ∈ known)
    {d : Entry.Draft α} (hread : Entry.ofValue α x = .ok d) (hopen : Stated.stated? d = none) :
    let r := Entry.settle d fresh
    let w := Member.withItems v (Member.items v ++ [r.1])
    Member.insert v r.1 = .ok w ∧ r.2.IsNew known n ∧ Seen α known n (before ++ [x]) w r.2 := by
  have hx : (Member.part α).stated? x = none := (stated?_of_ok hread).trans hopen
  have heq : (before ++ [x]).filterMap (Member.part α).stated? =
      before.filterMap (Member.part α).stated? := by
    rw [filterMap_stated?_concat, hx, Option.toList_none, List.append_nil]
  have hle : n ≤ (Member.part α).draws x + n := Nat.le_add_left _ _
  rcases Stated.settle_of_none hread hopen fresh with ⟨hnone, huuids⟩ | ⟨huuid, huuids, hdraws⟩
  · refine ⟨Member.insert_eq_ok fun k hk => ?_, hnew.of_eq huuids hle, ?_, ?_⟩
    · rw [hnone] at hk
      cases hk
    · rw [Member.identities_concat, hnone, Option.toList_none, List.append_nil, heq]
      exact h.of_stated
    · rw [Member.identities_concat, hnone, Option.toList_none, List.append_nil, heq, huuids]
      exact (h.mono hle).of_taken
  · rw [hdraws, Nat.add_comm] at h hnew
    have hzero : 0 < n + 1 := Nat.succ_pos n
    -- the uuid that is drawn is neither stated nor drawn before
    have hfree : Identity.uuid fresh.uuids.next.1 ∉ Member.identities α v := by
      intro hmem
      rcases h.of_taken _ hmem with hstated | ⟨-, hdrawn⟩
      · exact hnew.unknown 0 hzero (hknown _ hstated)
      · exact hdrawn 0 hzero rfl
    refine ⟨Member.insert_eq_ok fun k hk => ?_, hnew.next huuids, fun k hk => ?_, fun k hk => ?_⟩
    · rw [huuid] at hk
      exact Option.some.inj hk ▸ hfree
    · rw [Member.identities_concat, huuid]
      exact List.mem_append_left _ (h.of_stated k (heq ▸ hk))
    · rw [Member.identities_concat, huuid, Option.toList_some, List.mem_append,
        List.mem_singleton] at hk
      rw [heq, huuids]
      rcases hk with hk | rfl
      · refine (h.of_taken k hk).imp id fun ⟨hunknown, hdrawn⟩ => ?_
        exact ⟨hunknown, fun i hi => hdrawn (i + 1) (Nat.succ_lt_succ hi)⟩
      · refine .inr ⟨hnew.unknown 0 hzero, fun i hi heq => ?_⟩
        exact Nat.succ_ne_zero i
          (hnew.distinct (i + 1) (Nat.succ_lt_succ hi) 0 hzero (Identity.uuid.inj heq))

/-- **An item of a stated identity** is refused exactly if an earlier item states the identity. -/
theorem Seen.of_stating {before : List Json} {v : Vocabulary} {fresh : Fresh}
    (h : Seen α known n before v fresh) {x : Json} {d : Entry.Draft α} {k : Identity}
    (hknown : k ∈ known) (hread : Entry.ofValue α x = .ok d) (hk : Stated.stated? d = some k) :
    let r := Entry.settle d fresh
    let w := Member.withItems v (Member.items v ++ [r.1])
    (k ∈ before.filterMap (Member.part α).stated? ∧
      Member.insert v r.1 = .error ⟨Member.part α, k.text⟩ ∧
        Seen α known n (before ++ [x]) v r.2) ∨
    (k ∉ before.filterMap (Member.part α).stated? ∧ Member.insert v r.1 = .ok w ∧
      Seen α known n (before ++ [x]) w r.2) := by
  have hx : (Member.part α).stated? x = some k := (stated?_of_ok hread).trans hk
  have heq : (before ++ [x]).filterMap (Member.part α).stated? =
      before.filterMap (Member.part α).stated? ++ [k] := by
    rw [filterMap_stated?_concat, hx, Option.toList_some]
  obtain ⟨hidentity, huuids⟩ := Stated.settle_of_some hk fresh
  by_cases hmem : k ∈ before.filterMap (Member.part α).stated?
  · refine .inl ⟨hmem, Member.insert_eq_error hidentity (h.of_stated k hmem), ?_, ?_⟩
    · intro l hl
      rw [heq, List.mem_append, List.mem_singleton] at hl
      rcases hl with hl | rfl
      · exact h.of_stated l hl
      · exact h.of_stated l hmem
    · intro l hl
      rw [heq, huuids]
      exact (h.of_taken l hl).imp (List.mem_append_left _) id
  · have hfree : k ∉ Member.identities α v := by
      intro htaken
      rcases h.of_taken k htaken with hstated | ⟨hunknown, -⟩
      · exact hmem hstated
      · exact hunknown hknown
    refine .inr ⟨hmem, Member.insert_eq_ok fun l hl => ?_, fun l hl => ?_, fun l hl => ?_⟩
    · rw [hidentity] at hl
      exact Option.some.inj hl ▸ hfree
    · rw [heq, List.mem_append] at hl
      rw [Member.identities_concat, hidentity, Option.toList_some, List.mem_append]
      exact hl.imp (h.of_stated l) id
    · rw [Member.identities_concat, hidentity, Option.toList_some, List.mem_append] at hl
      rw [heq, huuids, List.mem_append]
      rcases hl with hl | hl
      · exact (h.of_taken l hl).imp .inl id
      · exact .inl (.inr hl)

theorem fault?_append (s : Section) (before : List Json) (x : Json) (rest : List Json) :
    s.fault? (before ++ x :: rest) before.length =
      match s.identityOf x with
      | .error m => some m.message
      | .ok (some k) =>
        if k ∈ before.filterMap s.stated? then some (Duplicate.message ⟨s, k.text⟩) else none
      | .ok none => none := by
  have hget : (before ++ x :: rest)[before.length]? = some x := by simp
  have htake : (before ++ x :: rest).take before.length = before := by simp
  rw [Section.fault?, hget, htake, Option.map_some]
  cases s.identityOf x with
  | error m => rfl
  | ok k => cases k <;> rfl

theorem filterMap_fault?_cons (s : Section) (before : List Json) (x : Json) (rest : List Json) :
    ((List.range' before.length (x :: rest).length).filterMap fun index =>
      (s.fault? (before ++ x :: rest) index).map (violationAt s index)) =
    ((s.fault? (before ++ x :: rest) before.length).map (violationAt s before.length)).toList ++
      (List.range' (before ++ [x]).length rest.length).filterMap fun index =>
        (s.fault? ((before ++ [x]) ++ rest) index).map (violationAt s index) := by
  rw [List.length_cons, List.range'_succ, List.append_assoc, List.singleton_append,
    List.length_append, List.length_singleton]
  cases h : (s.fault? (before ++ x :: rest) before.length).map (violationAt s before.length) with
  | none => simp only [List.filterMap_cons, h, Option.toList_none, List.nil_append]
  | some violation =>
    simp only [List.filterMap_cons, h, Option.toList_some, List.singleton_append]

/-- **The loop over a section** finds the violations that the section has, up to their order. -/
theorem perm_of_loop (rest : List Json) {before : List Json} {v : Vocabulary} {fresh : Fresh}
    (h : Seen α known ((Member.part α).drawsAll rest + n) before v fresh)
    (hnew : fresh.IsNew known ((Member.part α).drawsAll rest + n))
    (hknown : ∀ k ∈ (before ++ rest).filterMap (Member.part α).stated?, k ∈ known) :
    let read := readItems α (Member.part α) before.length rest
    let settled := settleAll read.2 fresh
    (read.1 ++ (insertAll (Member.part α) Member.insert v settled.1).2).Perm
        ((List.range' before.length rest.length).filterMap fun index =>
          ((Member.part α).fault? (before ++ rest) index).map
            (violationAt (Member.part α) index)) ∧
      settled.2.IsNew known n := by
  induction rest generalizing before v fresh with
  | nil => exact ⟨List.Perm.refl _, hnew.of_eq rfl (Nat.le_add_left _ _)⟩
  | cons x rest ih =>
    have hdraws : (Member.part α).drawsAll (x :: rest) + n =
        (Member.part α).draws x + ((Member.part α).drawsAll rest + n) := by
      rw [Section.drawsAll, List.map_cons, List.sum_cons, Section.drawsAll, Nat.add_assoc]
    rw [hdraws] at h hnew
    have hle : (Member.part α).drawsAll rest + n ≤
        (Member.part α).draws x + ((Member.part α).drawsAll rest + n) := Nat.le_add_left _ _
    have hknown' : ∀ k ∈ ((before ++ [x]) ++ rest).filterMap (Member.part α).stated?, k ∈ known := by
      rw [List.append_assoc, List.singleton_append]
      exact hknown
    have hbefore : ∀ k ∈ before.filterMap (Member.part α).stated?, k ∈ known := by
      intro k hk
      refine hknown k ?_
      rw [List.filterMap_append]
      exact List.mem_append_left _ hk
    have hlen : before.length + 1 = (before ++ [x]).length := by simp
    simp only
    rw [filterMap_fault?_cons, fault?_append, Stated.identityOf_eq]
    cases hread : Entry.ofValue α x with
    | error m =>
      have hseen := (h.mono hle).of_unread (stated?_of_error hread)
      obtain ⟨hperm, hrest⟩ := ih hseen (hnew.of_eq rfl hle) hknown'
      simp only [readItems, hread, hlen]
      exact ⟨hperm.cons _, hrest⟩
    | ok d =>
      simp only [readItems, hread, hlen, settleAll, map_ok]
      cases hk : Stated.stated? d with
      | none =>
        obtain ⟨hinsert, hnew', hseen⟩ := h.of_open hnew hbefore hread hk
        obtain ⟨hperm, hrest⟩ := ih hseen hnew' hknown'
        simp only [insertAll, hinsert]
        exact ⟨hperm, hrest⟩
      | some k =>
        have hx : (Member.part α).stated? x = some k := (stated?_of_ok hread).trans hk
        have hstated : k ∈ known := by
          refine hknown k ?_
          rw [List.filterMap_append, List.filterMap_cons_some hx]
          exact List.mem_append_right _ List.mem_cons_self
        have hnew' := hnew.of_eq (Stated.settle_of_some hk fresh).2 hle
        rcases (h.mono hle).of_stating hstated hread hk with
          ⟨hmem, hinsert, hseen⟩ | ⟨hmem, hinsert, hseen⟩
        · obtain ⟨hperm, hrest⟩ := ih hseen hnew' hknown'
          simp only [insertAll, hinsert, if_pos hmem]
          exact ⟨List.perm_middle.trans (hperm.cons _), hrest⟩
        · obtain ⟨hperm, hrest⟩ := ih hseen hnew' hknown'
          simp only [insertAll, hinsert, if_neg hmem]
          exact ⟨hperm, hrest⟩

end Loop

end Methodology
