import Mathlib.Data.List.Forall2
import Methodology.Proofs.Instant.Canonical
import Methodology.Proofs.Vocabulary.Insertion

/-!
# The latest stamp

* `Instant.le_iff`: the order of instants is that of their seconds and nanoseconds.
* `Instant.SpellAlike`: texts that spell local times of one instant.
* `Vocabulary.IsLatest`: **the stamp with the greatest index** among those of the latest instant.
* `Vocabulary.latestOf`: the choice of the latest stamp; `Vocabulary.IsLatest.concat`: **the step**,
  one more stamp behind the others.
* `Vocabulary.latestOf_eq_some_iff`: the choice is that of the latest stamp.
* `Vocabulary.updated_latestOf_iff`: its instant, which the order of the stamps does not change.
* **`Vocabulary.latest_run`**: the latest stamp after every run.
-/

namespace Methodology

namespace Instant

/-- The seconds and the nanoseconds, in the order of instants. -/
def rank (t : Instant) : Int ×ₗ Nat := toLex t.pair

theorem rank_inj {t u : Instant} : t.rank = u.rank ↔ t = u :=
  toLex.injective.eq_iff.trans pair_inj

theorem le_iff {t u : Instant} : t.le u = true ↔ t.rank ≤ u.rank := by
  rw [le, bne_iff_ne, Ne, compare_eq_gt, ← not_lt]
  rfl

/-- Texts that spell local times of one instant. -/
def SpellAlike (s s' : String) : Prop :=
  ∃ w w' : Local, w.IsValid ∧ w.IsSpelling s ∧ w'.IsValid ∧ w'.IsSpelling s' ∧ w.pair = w'.pair

theorem SpellAlike.read_eq {s s' : String} (h : SpellAlike s s') : read s = read s' := by
  obtain ⟨w, w', hw, hs, hw', hs', hpair⟩ := h
  obtain ⟨t, t', ht, ht', heq, -⟩ := read_canonical.2 hw hs hw' hs'
  rw [ht, ht', heq.mpr hpair]

end Instant

namespace Vocabulary

/-! ## The latest of many stamps -/

/-- **The stamp with the greatest index** among those of the latest instant. -/
def IsLatest (stamps : List Stamp) (s : Stamp) : Prop :=
  ∃ i : Nat, stamps[i]? = some s ∧ ∀ (j : Nat) (t : Stamp), stamps[j]? = some t →
    t.updated.le s.updated ∧ (s.updated.le t.updated → j ≤ i)

/-- The latest of many stamps, chosen one after the other. -/
def latestOf (stamps : List Stamp) : Option Stamp := stamps.foldl later none

theorem latestOf_concat (stamps : List Stamp) (s : Stamp) :
    latestOf (stamps ++ [s]) = later (latestOf stamps) s := by
  rw [latestOf, List.foldl_append]
  rfl

theorem getElem?_concat_eq_some_iff {stamps : List Stamp} {s t : Stamp} {j : Nat} :
    (stamps ++ [s])[j]? = some t ↔ stamps[j]? = some t ∨ (j = stamps.length ∧ s = t) := by
  rcases Nat.lt_trichotomy j stamps.length with h | rfl | h
  · rw [List.getElem?_append_left h]
    exact ⟨.inl, fun ht => ht.resolve_right fun hj => absurd hj.1 (Nat.ne_of_lt h)⟩
  · simp
  · rw [List.getElem?_eq_none (by simpa using Nat.succ_le_of_lt h),
      List.getElem?_eq_none (Nat.le_of_lt h)]
    simp [Nat.ne_of_gt h]

theorem IsLatest.unique {stamps : List Stamp} {s t : Stamp} (hs : IsLatest stamps s)
    (ht : IsLatest stamps t) : s = t := by
  obtain ⟨i, hi, hmost⟩ := hs
  obtain ⟨j, hj, hmost'⟩ := ht
  have hij : i = j :=
    Nat.le_antisymm ((hmost' i s hi).2 (hmost j t hj).1) ((hmost j t hj).2 (hmost' i s hi).1)
  exact Option.some.inj (hi.symm.trans (hij ▸ hj))

/-- **The step.** A stamp behind the others is the latest one if the latest one before is no later;
else that one stays the latest. -/
theorem IsLatest.concat {stamps : List Stamp} {b : Stamp} (h : IsLatest stamps b) (s : Stamp) :
    IsLatest (stamps ++ [s]) (if b.updated.le s.updated then s else b) := by
  obtain ⟨i, hi, hmost⟩ := h
  have hlt : i < stamps.length := (List.getElem?_eq_some_iff.mp hi).1
  split
  · next hle =>
    refine ⟨stamps.length, getElem?_concat_eq_some_iff.mpr (.inr ⟨rfl, rfl⟩), fun j t ht => ?_⟩
    rcases getElem?_concat_eq_some_iff.mp ht with hj | ⟨rfl, rfl⟩
    · refine ⟨?_, fun _ => Nat.le_of_lt (List.getElem?_eq_some_iff.mp hj).1⟩
      exact Instant.le_iff.mpr
        (le_trans (Instant.le_iff.mp (hmost j t hj).1) (Instant.le_iff.mp hle))
    · exact ⟨Instant.le_iff.mpr le_rfl, fun _ => Nat.le_refl _⟩
  · next hlater =>
    refine ⟨i, getElem?_concat_eq_some_iff.mpr (.inl hi), fun j t ht => ?_⟩
    rcases getElem?_concat_eq_some_iff.mp ht with hj | ⟨rfl, rfl⟩
    · exact hmost j t hj
    · refine ⟨Instant.le_iff.mpr (le_of_lt ?_), fun hle => absurd hle hlater⟩
      rwa [Instant.le_iff, not_le] at hlater

/-- **The choice**: none among no stamps, and else the latest. -/
theorem latestOf_spec (stamps : List Stamp) :
    (stamps = [] ∧ latestOf stamps = none) ∨
      ∃ s, latestOf stamps = some s ∧ IsLatest stamps s := by
  induction stamps using List.reverseRecOn with
  | nil => exact .inl ⟨rfl, rfl⟩
  | append_singleton stamps s ih =>
    right
    rw [latestOf_concat]
    rcases ih with ⟨rfl, hnone⟩ | ⟨b, hsome, hlatest⟩
    · refine ⟨s, by rw [hnone]; rfl, 0, rfl, fun j t ht => ?_⟩
      obtain ⟨rfl, rfl⟩ : j = 0 ∧ s = t := by simpa using getElem?_concat_eq_some_iff.mp ht
      exact ⟨Instant.le_iff.mpr le_rfl, fun _ => Nat.le_refl 0⟩
    · refine ⟨_, ?_, hlatest.concat s⟩
      rw [hsome, later]
      split <;> rfl

theorem latestOf_eq_none_iff {stamps : List Stamp} : latestOf stamps = none ↔ stamps = [] := by
  rcases latestOf_spec stamps with ⟨rfl, hnone⟩ | ⟨s, hsome, i, hi, -⟩
  · exact iff_of_true hnone rfl
  · refine iff_of_false (by rw [hsome]; exact nofun) ?_
    rintro rfl
    cases hi

theorem latestOf_eq_some_iff {stamps : List Stamp} {s : Stamp} :
    latestOf stamps = some s ↔ IsLatest stamps s := by
  rcases latestOf_spec stamps with ⟨rfl, hnone⟩ | ⟨t, hsome, hlatest⟩
  · refine iff_of_false (by rw [hnone]; exact nofun) ?_
    rintro ⟨i, hi, -⟩
    cases hi
  · rw [hsome]
    exact ⟨fun h => Option.some.inj h ▸ hlatest, fun h => congrArg some (hlatest.unique h)⟩

/-! ## The latest instant -/

/-- **The instant of the latest stamp** is the latest of the instants, whatever their order. -/
theorem updated_latestOf_iff {stamps : List Stamp} {t : Instant} :
    (latestOf stamps).map Stamp.updated = some t ↔
      t ∈ stamps.map Stamp.updated ∧ ∀ u ∈ stamps.map Stamp.updated, u.le t = true := by
  constructor
  · intro h
    obtain ⟨s, hs, rfl⟩ := Option.map_eq_some_iff.mp h
    obtain ⟨i, hi, hmost⟩ := latestOf_eq_some_iff.mp hs
    refine ⟨List.mem_map_of_mem (List.mem_of_getElem? hi), List.forall_mem_map.mpr fun u hu => ?_⟩
    obtain ⟨j, hj⟩ := List.mem_iff_getElem?.mp hu
    exact (hmost j u hj).1
  · rintro ⟨hmem, hmost⟩
    obtain ⟨a, ha, rfl⟩ := List.mem_map.mp hmem
    rcases latestOf_spec stamps with ⟨rfl, -⟩ | ⟨s, hs, i, hi, hlatest⟩
    · cases ha
    · obtain ⟨j, hj⟩ := List.mem_iff_getElem?.mp ha
      have hle := Instant.le_iff.mp (hlatest j a hj).1
      have hge := Instant.le_iff.mp (hmost _ (List.mem_map_of_mem (List.mem_of_getElem? hi)))
      rw [hs, Option.map_some, Instant.rank_inj.mp (le_antisymm hge hle)]

theorem updated_latestOf_congr {xs ys : List Stamp}
    (h : ∀ t, t ∈ xs.map Stamp.updated ↔ t ∈ ys.map Stamp.updated) :
    (latestOf xs).map Stamp.updated = (latestOf ys).map Stamp.updated := by
  refine Option.ext fun t => ?_
  rw [updated_latestOf_iff, updated_latestOf_iff, h t]
  simp only [h]

/-- **Stamps whose instants are read** from texts that spell the same instants have the same
instants. -/
theorem map_updated_eq_of_spellAlike {texts texts' : List String} {xs ys : List Stamp}
    (htexts : List.Forall₂ Instant.SpellAlike texts texts')
    (hxs : List.Forall₂ (fun text s => Instant.read text = .ok s.updated) texts xs)
    (hys : List.Forall₂ (fun text s => Instant.read text = .ok s.updated) texts' ys) :
    xs.map Stamp.updated = ys.map Stamp.updated := by
  induction htexts generalizing xs ys with
  | nil =>
    cases hxs
    cases hys
    rfl
  | cons halike _ ih =>
    cases hxs with
    | cons hx hxs =>
      cases hys with
      | cons hy hys =>
        rw [List.map_cons, List.map_cons, ih hxs hys]
        rw [halike.read_eq, hy] at hx
        rw [Except.ok.inj hx]

/-! ## Insertions -/

theorem latest?_record (v : Vocabulary) (s : Stamp) : (v.record s).latest? = later v.latest? s :=
  latestOf_concat v.history s

theorem history_records (v : Vocabulary) (stamps : List Stamp) :
    (stamps.foldl record v).history = v.history ++ stamps := by
  induction stamps generalizing v with
  | nil => rw [List.foldl_nil, List.append_nil]
  | cons s stamps ih =>
    rw [List.foldl_cons, ih, record, List.append_assoc]
    rfl

/-- **The latest stamp after every run.**

* There is one exactly if the history is not empty, and it is the one with the greatest index among
  those of the latest instant.
* A stamp that is recorded becomes the latest one exactly if the latest one before, if any, is no
  later; else that one stays the latest.
* The latest instant is the same for every order of the stamps and every spelling of their instants.
* Items that are no stamps, taken or refused, do not change it, so that it is the same after every
  run of insertions as if the stamps alone had been recorded. -/
theorem latest_run :
    (∀ v, latest? v = none ↔ v.history = []) ∧
    (∀ v s, latest? v = some s ↔ IsLatest v.history s) ∧
    (∀ (v : Vocabulary) stamps earlier s more, stamps = earlier ++ s :: more →
      let w := earlier.foldl record v
      ((w.record s).latest? = some s ↔ ∀ b, w.latest? = some b → b.updated.le s.updated) ∧
        ((w.record s).latest? ≠ some s → (w.record s).latest? = w.latest?)) ∧
    (∀ v w : Vocabulary, v.history.Perm w.history →
      v.latest?.map Stamp.updated = w.latest?.map Stamp.updated) ∧
    (∀ (v w : Vocabulary) texts texts', List.Forall₂ Instant.SpellAlike texts texts' →
      List.Forall₂ (fun text s => Instant.read text = .ok (Stamp.updated s)) texts v.history →
      List.Forall₂ (fun text s => Instant.read text = .ok (Stamp.updated s)) texts' w.history →
      v.latest?.map Stamp.updated = w.latest?.map Stamp.updated) ∧
    (∀ (v : Vocabulary) (i : Item), i.stamp? = none → (v.attempt i).latest? = v.latest?) ∧
    ∀ (v : Vocabulary) (items : List Item), (items.foldl attempt v).latest? =
      ((items.filterMap Item.stamp?).foldl record v).latest? := by
  refine ⟨fun _ => latestOf_eq_none_iff, fun _ _ => latestOf_eq_some_iff, ?_, ?_, ?_, ?_, ?_⟩
  · intro v _ earlier s _ _ w
    rw [latest?_record]
    cases hb : w.latest? with
    | none => exact ⟨iff_of_true rfl nofun, fun hne => absurd rfl hne⟩
    | some b =>
      simp only [later, Option.some.injEq, forall_eq']
      split
      · next hle => exact ⟨iff_of_true rfl hle, fun hne => absurd rfl hne⟩
      · next hlater =>
        refine ⟨iff_of_false ?_ hlater, fun _ => rfl⟩
        intro heq
        exact hlater (Instant.le_iff.mpr (by rw [Option.some.inj heq]))
  · exact fun v w h => updated_latestOf_congr fun t => (h.map Stamp.updated).mem_iff
  · intro v w texts texts' htexts hv hw
    refine updated_latestOf_congr fun t => ?_
    rw [map_updated_eq_of_spellAlike htexts hv hw]
  · intro v i hi
    rw [latest?, history_attempt, hi, Option.toList_none, List.append_nil]
    rfl
  · intro v items
    rw [latest?, latest?, history_attempts, history_records]

/-- Two stamps of one instant, the second one written an hour ahead, and an earlier one. -/
theorem latest_run_hourAhead :
    let noon : Stamp := ⟨some "noon", none, ⟨43200, 0⟩⟩
    let ahead : Stamp := ⟨some "ahead", none, ⟨43200, 0⟩⟩
    let early : Stamp := ⟨none, none, ⟨0, 5⟩⟩
    let v : Vocabulary := ⟨[noon, ahead, early], [], [], [], []⟩
    let action : Item := .action ⟨"A", "", "", .unique⟩
    IsLatest v.history ahead ∧ ((empty.record noon).record ahead).latest? = some ahead ∧
      latest? ⟨[early, ahead, noon], [], [], [], []⟩ = some noon ∧
      v.latest?.map Stamp.updated =
        (latest? ⟨[early, ahead, noon], [], [], [], []⟩).map Stamp.updated ∧
      Instant.SpellAlike "1970-01-01T12:00:00Z" "1970-01-01 13:00:00.000+01:00" ∧
      (latest? ⟨[noon], [], [], [], []⟩).map Stamp.updated =
        (latest? ⟨[ahead], [], [], [], []⟩).map Stamp.updated ∧
      (v.attempt action).latest? = some ahead := by
  intro noon ahead early v action
  have hlatest : v.latest? = some ahead := by decide +kernel
  have hback : latest? ⟨[early, ahead, noon], [], [], [], []⟩ = some noon := by decide +kernel
  have hrecord := (latest_run.2.2.1 empty [noon, ahead] [noon] ahead [] rfl).1
  have hperm := latest_run.2.2.2.1 v ⟨[early, ahead, noon], [], [], [], []⟩ (by decide +kernel)
  have halike : Instant.SpellAlike "1970-01-01T12:00:00Z" "1970-01-01 13:00:00.000+01:00" := by
    refine ⟨⟨1970, 1, 1, 12, 0, 0, [], .universal⟩, ⟨1970, 1, 1, 13, 0, 0, [0, 0, 0], .ahead 1 0⟩,
      ⟨by decide, by decide, by decide, by decide, by decide, by decide, trivial⟩, ?_,
      ⟨by decide, by decide, by decide, by decide, by decide, by decide, by decide, by decide⟩, ?_,
      by decide +kernel⟩
    · exact ⟨[], "1970-01-01T12:00:00Z".toList, [], by simp, nofun, nofun, 'T', _, .inl rfl,
        .capital, by decide +kernel⟩
    · exact ⟨[], "1970-01-01 13:00:00.000+01:00".toList, [], by simp, nofun, nofun, ' ', _,
        .inr (.inr rfl), .plus 1 0, by decide +kernel⟩
  have hspelled := latest_run.2.2.2.2.1 ⟨[noon], [], [], [], []⟩ ⟨[ahead], [], [], [], []⟩ _ _
    (.cons halike .nil) (.cons (by decide +kernel) .nil) (.cons (by decide +kernel) .nil)
  have hattempt := latest_run.2.2.2.2.2.1 v action rfl
  exact ⟨(latest_run.2.1 v ahead).mp hlatest, hrecord.mpr (by decide +kernel), hback, hperm,
    halike, hspelled, hattempt.trans hlatest⟩

end Vocabulary

end Methodology
