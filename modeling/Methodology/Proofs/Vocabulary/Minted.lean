import Mathlib.Data.List.Nodup
import Methodology.Proofs.Uuid.Seeded
import Methodology.Proofs.Vocabulary.Insertion

/-!
# Runs that draw uuids

Categories and scripts are made, changed, copied and put into a vocabulary in any order, while all
calls that make one draw on the same supply.

* `Held`: an item in hand, with the number of the call that made it or what it is a copy of.
* `Desk`, `Desk.Op`, `Desk.step`, `Desk.run`: what a run has made, has in hand and has put in, and
  its operations.
* `Desk.Sound`: what holds of every desk that is reached; **`Desk.Sound.step`**: the step.
* `Desk.Sound.add_of_mem`, `Desk.Sound.add_of_forall_ne`: an item is refused if one of the same
  origin is there and, where the uuids drawn are distinct, only then.
* **`minting_run`**: what every run draws, makes and refuses.
-/

namespace Methodology

/-! ## Supplies -/

namespace Supply

variable {α : Type}

/-- What is left of a supply after so many draws. -/
def drop (s : Supply α) (n : Nat) : Supply α := fun k => s (n + k)

theorem drop_zero (s : Supply α) : s.drop 0 = s := by
  funext k
  exact congrArg s (Nat.zero_add k)

theorem next_drop (s : Supply α) (n : Nat) : (s.drop n).next = (s n, s.drop (n + 1)) := by
  refine Prod.ext rfl ?_
  funext k
  exact congrArg s (by omega)

theorem take_succ (s : Supply α) (n : Nat) : s.take (n + 1) = s.take n ++ [s n] := by
  have hmap : ∀ f : Nat → α, (List.range (n + 1)).map f = (List.range n).map f ++ [f n] := by
    intro f
    rw [List.range_succ, List.map_append, List.map_singleton]
  exact hmap s

theorem getElem?_take (s : Supply α) {k n : Nat} (h : k < n) : (s.take n)[k]? = some (s k) := by
  have hmap : ∀ f : Nat → α, ((List.range n).map f)[k]? = some (f k) := by
    intro f
    rw [List.getElem?_map, List.getElem?_range h, Option.map_some]
  exact hmap s

theorem eq_of_nodup_take {s : Supply α} {j k n : Nat} (h : (s.take n).Nodup) (hj : j < n)
    (hk : k < n) (heq : s j = s k) : j = k :=
  List.inj_on_of_nodup_map h (List.mem_range.mpr hj) (List.mem_range.mpr hk) heq

end Supply

/-! ## Runs -/

/-- A part of a vocabulary whose items have uuids. -/
def Section.HasUuids (s : Section) : Prop := s = .categories ∨ s = .scripts

namespace Vocabulary

/-- A change of a category or of a script. -/
inductive Item.Change
  | category (change : Category.Change)
  | script (change : Script.Change)

/-- An item with a change of its kind. -/
def Item.apply : Item → Item.Change → Item
  | .category c, .category change => .category (c.apply change)
  | .script s, .script change => .script (s.apply change)
  | i, _ => i

@[simp] theorem Item.part_apply (i : Item) (change : Item.Change) :
    (i.apply change).part = i.part := by
  cases i <;> cases change <;> rfl

/-- **A change keeps the identity.** -/
@[simp] theorem Item.identity?_apply (i : Item) (change : Item.Change) :
    (i.apply change).identity? = i.identity? := by
  rcases i with _ | _ | c | _ | s <;> rcases change with change | change <;>
    first | rfl | (cases change <;> rfl)

/-- **An item in hand**, with the number of the call that made it or what it is a copy of. -/
structure Held where
  item : Item
  origin : Nat
  deriving DecidableEq

/-- **A run** that makes categories and scripts: what is left of the supply, what the calls that
make one returned, what is in hand, the vocabulary, and which of the items in hand were put into
it. -/
structure Desk where
  ids : Supply Uuid
  made : List Item
  hand : List Held
  vocabulary : Vocabulary
  entries : List Held

namespace Desk

/-- An operation of a run. Nothing that it puts in has a uuid that was not drawn. -/
inductive Op
  | category (name : Term) (description : Option String)
  | script (text : String)
  | change (n : Nat) (change : Item.Change)
  | copy (n : Nat)
  | insert (n : Nat)
  | other (i : Item) (plain : ¬ i.part.HasUuids)

/-- The part that takes what an operation makes. -/
def Op.makes? : Op → Option Section
  | category _ _ => some .categories
  | script _ => some .scripts
  | _ => none

/-- A desk before every operation. -/
def start (ids : Supply Uuid) : Desk := ⟨ids, [], [], empty, []⟩

/-- A new item in hand, with what is left of the supply. -/
def make (d : Desk) (i : Item) (ids : Supply Uuid) : Desk :=
  { d with ids := ids, made := d.made ++ [i], hand := d.hand ++ [⟨i, d.made.length⟩] }

/-- An item in hand put in, or refused. -/
def insert (d : Desk) (h : Held) : Desk :=
  match d.vocabulary.add h.item with
  | .ok w => { d with vocabulary := w, entries := d.entries ++ [h] }
  | .error _ => d

/-- **One operation.** A changed copy and a copy of what was put in come into hand; what is put in
stays there. -/
def step (d : Desk) : Op → Desk
  | .category name description =>
    let (c, ids) := Category.mint d.ids name description
    d.make (.category c) ids
  | .script text =>
    let (s, ids) := Script.mint d.ids text
    d.make (.script s) ids
  | .change n change =>
    { d with hand := d.hand ++ (d.hand[n]?.map fun h => ⟨h.item.apply change, h.origin⟩).toList }
  | .copy n => { d with hand := d.hand ++ d.entries[n]?.toList }
  | .insert n => d.hand[n]?.elim d d.insert
  | .other i _ => { d with vocabulary := d.vocabulary.attempt i }

/-- **A whole run.** -/
def run (ids : Supply Uuid) (ops : List Op) : Desk := ops.foldl step (start ids)

/-! ## What holds of every desk -/

/-- An item of the part and the identity of what the call made that it comes from. -/
def ComesFrom (d : Desk) (h : Held) : Prop :=
  ∃ i, d.made[h.origin]? = some i ∧ h.item.part = i.part ∧ h.item.identity? = i.identity?

/-- **What holds of every desk** that is reached. -/
structure Sound (ids : Supply Uuid) (d : Desk) : Prop where
  left : d.ids = ids.drop d.made.length
  made : d.made.map Item.identity? = (ids.take d.made.length).map fun u => some (.uuid u)
  parts : ∀ i ∈ d.made, i.part.HasUuids
  hand : ∀ h ∈ d.hand, d.ComesFrom h
  entries : ∀ e ∈ d.entries, d.ComesFrom e
  contents : ∀ s : Section, s.HasUuids →
    d.vocabulary.contents s = inPart s (d.entries.map Held.item)

variable {ids : Supply Uuid} {d : Desk}

theorem sound_start (ids : Supply Uuid) : Sound ids (start ids) where
  left := ids.drop_zero.symm
  made := rfl
  parts := nofun
  hand := nofun
  entries := nofun
  contents s _ := by cases s <;> rfl

theorem ComesFrom.make {h : Held} (hh : d.ComesFrom h) (i : Item) (ids : Supply Uuid) :
    (d.make i ids).ComesFrom h := by
  obtain ⟨j, hj, hsame⟩ := hh
  have hlt : h.origin < d.made.length := (List.getElem?_eq_some_iff.mp hj).1
  exact ⟨j, (List.getElem?_append_left hlt).trans hj, hsame⟩

theorem length_made_make (d : Desk) (i : Item) (ids : Supply Uuid) :
    (d.make i ids).made.length = d.made.length + 1 := List.length_append

/-- **A call that makes an item** draws one uuid for it. -/
theorem Sound.make (hd : d.Sound ids) {i : Item} (hpart : i.part.HasUuids)
    (hidentity : i.identity? = some (.uuid d.ids.next.1)) :
    (d.make i d.ids.next.2).Sound ids where
  left := by
    rw [length_made_make, hd.left, Supply.next_drop]
    rfl
  made := by
    rw [hd.left, Supply.next_drop] at hidentity
    rw [length_made_make, Supply.take_succ, List.map_append, ← hd.made, List.map_singleton,
      ← hidentity]
    exact List.map_append
  parts := forall_mem_concat hd.parts hpart
  hand := forall_mem_concat (fun h hh => (hd.hand h hh).make i _)
    ⟨i, List.getElem?_concat_length, rfl, rfl⟩
  entries e he := (hd.entries e he).make i _
  contents := hd.contents

theorem Sound.hold (hd : d.Sound ids) {found : Option Held}
    (hfound : ∀ h, found = some h → d.ComesFrom h) :
    Sound ids { d with hand := d.hand ++ found.toList } := by
  refine { hd with hand := fun h hh => ?_ }
  rcases List.mem_append.mp hh with hh | hh
  · exact hd.hand h hh
  · exact hfound h (Option.mem_toList.mp hh)

theorem inPart_of_not {i : Item} {s : Section} (h : i.part ≠ s) : inPart s [i] = [] :=
  List.filter_eq_nil_iff.mpr fun j hj => by simpa [List.mem_singleton.mp hj] using h

theorem Sound.attempt (hd : d.Sound ids) {i : Item} (plain : ¬ i.part.HasUuids) :
    Sound ids { d with vocabulary := d.vocabulary.attempt i } := by
  refine { hd with contents := fun s hs => ?_ }
  have hne : i.part ≠ s := fun heq => plain (heq ▸ hs)
  show (d.vocabulary.attempt i).contents s = _
  rw [← hd.contents s hs]
  cases h : i.repeats? (d.vocabulary.contents i.part) with
  | none => rw [attempt_eq_append h, contents_append, inPart_of_not hne, List.append_nil]
  | some _ => rw [attempt_eq_of_repeats h]

/-- **An insertion** puts an item behind those that were put in, or changes nothing. -/
theorem Sound.insert (hd : d.Sound ids) {h : Held} (hh : d.ComesFrom h) :
    (d.insert h).Sound ids := by
  have hadd := add_eq d.vocabulary h.item
  cases hrepeats : h.item.repeats? (d.vocabulary.contents h.item.part) with
  | some _ =>
    rw [hrepeats] at hadd
    rw [Desk.insert, hadd]
    exact hd
  | none =>
    rw [hrepeats] at hadd
    rw [Desk.insert, hadd]
    refine { hd with entries := forall_mem_concat hd.entries hh, contents := fun s hs => ?_ }
    show (d.vocabulary.append h.item).contents s = _
    rw [contents_append, hd.contents s hs, List.map_append, inPart, inPart, inPart,
      List.filter_append]
    rfl

theorem ComesFrom.change {h : Held} (hh : d.ComesFrom h) (change : Item.Change) :
    d.ComesFrom ⟨h.item.apply change, h.origin⟩ := by
  obtain ⟨i, hi, hpart, hidentity⟩ := hh
  exact ⟨i, hi, by rw [Item.part_apply, hpart], by rw [Item.identity?_apply, hidentity]⟩

/-- **The step.** Every operation keeps a desk sound. -/
theorem Sound.step (hd : d.Sound ids) (op : Op) : (d.step op).Sound ids := by
  cases op with
  | category name description => exact hd.make (.inl rfl) rfl
  | script text => exact hd.make (.inr rfl) rfl
  | change n change =>
    refine hd.hold fun h hh => ?_
    obtain ⟨g, hg, rfl⟩ := Option.map_eq_some_iff.mp hh
    exact (hd.hand g (List.mem_of_getElem? hg)).change change
  | copy n => exact hd.hold fun h hh => hd.entries h (List.mem_of_getElem? hh)
  | insert n =>
    rw [Desk.step]
    cases hn : d.hand[n]? with
    | none => exact hd
    | some h => exact hd.insert (hd.hand h (List.mem_of_getElem? hn))
  | other i plain => exact hd.attempt plain

/-- **Every desk that is reached** is sound. -/
theorem sound_run (ids : Supply Uuid) (ops : List Op) : (run ids ops).Sound ids := by
  have hfrom : ∀ d : Desk, d.Sound ids → (ops.foldl Desk.step d).Sound ids := by
    intro d hd
    induction ops generalizing d with
    | nil => exact hd
    | cons op ops ih => exact ih _ (hd.step op)
  exact hfrom _ (sound_start ids)

/-- **What was made**, told by the operations alone. -/
theorem parts_made_run (ids : Supply Uuid) (ops : List Op) :
    (run ids ops).made.map Item.part = ops.filterMap Op.makes? := by
  have hstep : ∀ (d : Desk) (op : Op),
      (d.step op).made.map Item.part = d.made.map Item.part ++ op.makes?.toList := by
    intro d op
    cases op with
    | category name description => exact List.map_append
    | script text => exact List.map_append
    | insert n =>
      rw [Desk.step]
      cases d.hand[n]? with
      | none => exact (List.append_nil _).symm
      | some h =>
        rw [Option.elim_some, Desk.insert]
        split <;> exact (List.append_nil _).symm
    | _ => exact (List.append_nil _).symm
  have hfrom : ∀ d : Desk, (ops.foldl Desk.step d).made.map Item.part =
      d.made.map Item.part ++ ops.filterMap Op.makes? := by
    intro d
    induction ops generalizing d with
    | nil => exact (List.append_nil _).symm
    | cons op ops ih =>
      rw [List.foldl_cons, ih, hstep, List.append_assoc]
      cases h : op.makes? <;> simp [h]
  exact hfrom (start ids)

/-! ## Refusals -/

/-- What a call returned has the uuid with the number of the call. -/
theorem Sound.identity?_of_made (hd : d.Sound ids) {n : Nat} {i : Item}
    (h : d.made[n]? = some i) : i.identity? = some (.uuid (ids n)) := by
  have hlt : n < d.made.length := (List.getElem?_eq_some_iff.mp h).1
  have hn : (d.made.map Item.identity?)[n]? = some i.identity? := by
    rw [List.getElem?_map, h, Option.map_some]
  rw [hd.made, List.getElem?_map, ids.getElem?_take hlt, Option.map_some] at hn
  exact (Option.some.inj hn).symm

theorem Sound.mem_identities (hd : d.Sound ids) {s : Section} (hs : s.HasUuids) {k : Identity} :
    k ∈ (inPart s (d.vocabulary.contents s)).filterMap Item.identity? ↔
      ∃ e ∈ d.entries, e.item.part = s ∧ e.item.identity? = some k := by
  rw [inPart_contents, hd.contents s hs, inPart]
  simp only [List.mem_filterMap, List.mem_filter, List.mem_map, decide_eq_true_eq]
  constructor
  · rintro ⟨_, ⟨⟨e, he, rfl⟩, hpart⟩, hk⟩
    exact ⟨e, he, hpart, hk⟩
  · rintro ⟨e, he, hpart, hk⟩
    exact ⟨e.item, ⟨⟨e, he, rfl⟩, hpart⟩, hk⟩

theorem Sound.part_hasUuids (hd : d.Sound ids) {h : Held} (hh : d.ComesFrom h) :
    h.item.part.HasUuids := by
  obtain ⟨i, hi, hpart, -⟩ := hh
  exact hpart ▸ hd.parts i (List.mem_of_getElem? hi)

theorem Sound.identity?_eq (hd : d.Sound ids) {h : Held} (hh : d.ComesFrom h) :
    h.item.identity? = some (.uuid (ids h.origin)) := by
  obtain ⟨i, hi, -, hidentity⟩ := hh
  rw [hidentity, hd.identity?_of_made hi]

/-- **An item is refused** if one of the same origin is there. -/
theorem Sound.add_of_mem (hd : d.Sound ids) {h : Held} (hh : d.ComesFrom h) {e : Held}
    (he : e ∈ d.entries) (horigin : e.origin = h.origin) :
    d.vocabulary.add h.item = .error ⟨h.item.part, (ids h.origin).toText⟩ := by
  have hpart : e.item.part = h.item.part := by
    obtain ⟨i, hi, hpart, -⟩ := hh
    obtain ⟨j, hj, hpart', -⟩ := hd.entries e he
    obtain rfl : j = i := Option.some.inj (hj.symm.trans (horigin ▸ hi))
    rw [hpart, hpart']
  have hidentity := hd.identity?_eq hh
  have hmem := (hd.mem_identities (hd.part_hasUuids hh)).mpr
    ⟨e, he, hpart, horigin ▸ hd.identity?_eq (hd.entries e he)⟩
  rw [add_eq, Item.repeats?, hidentity]
  simp only [if_pos hmem]
  rfl

/-- **An item is taken** if none of the same origin is there and the uuids drawn are distinct. -/
theorem Sound.add_of_forall_ne (hd : d.Sound ids) (hdistinct : (ids.take d.made.length).Nodup)
    {h : Held} (hh : d.ComesFrom h) (hnew : ∀ e ∈ d.entries, e.origin ≠ h.origin) :
    d.vocabulary.add h.item = .ok (d.vocabulary.append h.item) := by
  have hlt : ∀ {g : Held}, d.ComesFrom g → g.origin < d.made.length := fun hg => by
    obtain ⟨i, hi, -⟩ := hg
    exact (List.getElem?_eq_some_iff.mp hi).1
  have hnone : Identity.uuid (ids h.origin) ∉
      (inPart h.item.part (d.vocabulary.contents h.item.part)).filterMap Item.identity? := by
    rw [hd.mem_identities (hd.part_hasUuids hh)]
    rintro ⟨e, he, -, hidentity⟩
    rw [hd.identity?_eq (hd.entries e he), Option.some.injEq, Identity.uuid.injEq] at hidentity
    exact hnew e he (Supply.eq_of_nodup_take hdistinct (hlt (hd.entries e he)) (hlt hh) hidentity)
  rw [add_eq, Item.repeats?, hd.identity?_eq hh]
  simp only [if_neg hnone]

/-- **What a call has just made** is taken. -/
theorem Sound.add_made (hd : d.Sound ids) (hdistinct : (ids.take (d.made.length + 1)).Nodup)
    {op : Op} (hmakes : op.makes?.isSome) : ∃ h, (d.step op).hand = d.hand ++ [h] ∧
      (d.step op).vocabulary.add h.item = .ok (d.vocabulary.append h.item) := by
  have hmake : ∀ {i : Item} {rest : Supply Uuid}, (d.make i rest).Sound ids →
      d.vocabulary.add i = .ok (d.vocabulary.append i) := by
    intro i rest hsound
    have hlength : (d.make i rest).made.length = d.made.length + 1 := length_made_make d i rest
    refine hsound.add_of_forall_ne (hlength.symm ▸ hdistinct) (h := ⟨i, d.made.length⟩)
      ⟨i, List.getElem?_concat_length, rfl, rfl⟩ fun e he => ?_
    obtain ⟨j, hj, -⟩ := hd.entries e he
    exact Nat.ne_of_lt (List.getElem?_eq_some_iff.mp hj).1
  have hstep := hd.step op
  cases op with
  | category name description => exact ⟨_, rfl, hmake hstep⟩
  | script text => exact ⟨_, rfl, hmake hstep⟩
  | _ => cases hmakes

end Desk

/-- **Runs that draw uuids.**

* The uuid of a seed that is drawn after so many others has the low bytes of the words of the block
  with that counter, but for the version 4 and the variant of the standard.
* Whatever the operations of a run, the calls that make an item receive the uuids of the supply in
  their order, and nothing else draws on it. A copy, changed or not, keeps the part and the identity
  of what it comes from, and the vocabulary holds what was put in.
* An item is refused if an item that comes from the same call is there. If the uuids that were drawn
  are distinct, it is taken otherwise; above all, what was just made is. -/
theorem minting_run :
    (∀ seed counter : UInt64, (Uuid.seeded seed counter.toNat).bytes =
      Uuid.marked ((ChaCha.block (ChaCha.keyOfSeed seed) counter).toList.map
        fun w => w.toNat % 256)) ∧
    ∀ (ids : Supply Uuid) (ops : List Desk.Op),
      let d := Desk.run ids ops
      d.made.map Item.part = ops.filterMap Desk.Op.makes? ∧
      d.made.map Item.identity? = (ids.take d.made.length).map (fun u => some (.uuid u)) ∧
      d.ids = ids.drop d.made.length ∧
      (∀ h ∈ d.hand ++ d.entries, d.ComesFrom h) ∧
      (∀ s : Section, s.HasUuids → d.vocabulary.contents s = inPart s (d.entries.map Held.item)) ∧
      (∀ h ∈ d.hand, (∃ e ∈ d.entries, e.origin = h.origin) →
        d.vocabulary.add h.item = .error ⟨h.item.part, (ids h.origin).toText⟩) ∧
      ((ids.take d.made.length).Nodup → ∀ h ∈ d.hand, (∀ e ∈ d.entries, e.origin ≠ h.origin) →
        d.vocabulary.add h.item = .ok (d.vocabulary.append h.item)) ∧
      ((ids.take (d.made.length + 1)).Nodup → ∀ op : Desk.Op, op.makes?.isSome →
        ∃ h, (d.step op).hand = d.hand ++ [h] ∧
          (d.step op).vocabulary.add h.item = .ok (d.vocabulary.append h.item)) := by
  refine ⟨Uuid.bytes_seeded, fun ids ops => ?_⟩
  intro d
  have hd : d.Sound ids := Desk.sound_run ids ops
  refine ⟨Desk.parts_made_run ids ops, hd.made, hd.left, fun h hh => ?_, hd.contents,
    fun h hh hthere => ?_, fun hdistinct h hh hnew => ?_, fun hdistinct op hmakes => ?_⟩
  · exact (List.mem_append.mp hh).elim (hd.hand h) (hd.entries h)
  · obtain ⟨e, he, horigin⟩ := hthere
    exact hd.add_of_mem (hd.hand h hh) he horigin
  · exact hd.add_of_forall_ne hdistinct (hd.hand h hh) hnew
  · exact hd.add_made hdistinct hmakes

/-- A category and a script with the first two uuids of a supply; the category is put in, and
renamed it is refused. -/
theorem minting_run_renamed :
    let ids : Supply Uuid := Supply.ofList Uuid.nil [⟨7⟩, ⟨8⟩]
    let ops : List Desk.Op := [.category (.text "a") none, .script "x", .insert 0,
      .change 0 (.category (.name (.text "b")))]
    let d := Desk.run ids ops
    (ids.take 2).Nodup ∧ d.ids = ids.drop 2 ∧
      d.vocabulary.add (.category ⟨ids 0, .text "b", none⟩) =
        .error ⟨.categories, (ids 0).toText⟩ ∧
      d.vocabulary.add (.script ⟨ids 1, "x"⟩) =
        .ok (d.vocabulary.append (.script ⟨ids 1, "x"⟩)) := by
  intro ids ops d
  have hdistinct : (ids.take 2).Nodup := by decide +kernel
  obtain ⟨-, -, hleft, -, -, hrefused, htaken, -⟩ := minting_run.2 ids ops
  have hput : d.entries = [⟨.category ⟨ids 0, .text "a", none⟩, 0⟩] := by decide +kernel
  have hrenamed : ⟨.category ⟨ids 0, .text "b", none⟩, 0⟩ ∈ d.hand := by decide +kernel
  have hscript : ⟨.script ⟨ids 1, "x"⟩, 1⟩ ∈ d.hand := by decide +kernel
  refine ⟨hdistinct, hleft, hrefused _ hrenamed ?_, htaken hdistinct _ hscript ?_⟩
  · rw [hput]
    exact ⟨_, List.mem_singleton_self _, rfl⟩
  · rw [hput]
    exact fun e he => List.mem_singleton.mp he ▸ Nat.zero_ne_one

end Vocabulary

end Methodology
