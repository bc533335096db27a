import Methodology.Json.Reader

/-!
# The fields of a mapping

* `field?_eq_none`, `mem_of_field?`, `field?_of_mem`: the field with a key.
* `field?_insertField`: a field that is put in is found by its key, and hides no other.
* **`field?_sortFields`**: of the fields with one key, sorting keeps the last one.
* `mem_of_mem_sortFields`: sorting makes no fields; `perm_sortFields`: nor does it drop any whose
  keys are distinct.
* `pairwise_sortFields`: it puts them in the order of their keys; `sortFields_eq_of_perm`: and there
  is one such order.
-/

namespace Methodology.Json

theorem field?_cons (key k : String) (v : Json) (fields : List (String × Json)) :
    field? key ((k, v) :: fields) = if key = k then some v else field? key fields := by
  rw [field?, List.lookup_cons]
  by_cases h : key = k
  · rw [if_pos h, beq_iff_eq.mpr h]
  · rw [if_neg h, beq_eq_false_iff_ne.mpr h]
    rfl

theorem field?_append (key : String) (xs ys : List (String × Json)) :
    field? key (xs ++ ys) = (field? key xs).or (field? key ys) := List.lookup_append

theorem field?_eq_none {key : String} {fields : List (String × Json)} :
    field? key fields = none ↔ key ∉ fields.map Prod.fst := by
  rw [field?, List.lookup_eq_none_iff, List.mem_map]
  simp only [bne_iff_ne, not_exists, not_and]
  exact forall₂_congr fun _ _ => ne_comm

theorem mem_of_field? {key : String} {value : Json} {fields : List (String × Json)}
    (h : field? key fields = some value) : (key, value) ∈ fields := by
  obtain ⟨_, _, hfields, -⟩ := List.lookup_eq_some_iff.mp h
  rw [hfields]
  exact List.mem_append_right _ List.mem_cons_self

theorem field?_of_mem {fields : List (String × Json)} (hnodup : (fields.map Prod.fst).Nodup)
    {f : String × Json} (hf : f ∈ fields) : field? f.1 fields = some f.2 := by
  induction fields with
  | nil => cases hf
  | cons g fields ih =>
    obtain ⟨hnew, hnodup⟩ := List.nodup_cons.mp hnodup
    rw [field?_cons]
    rcases List.mem_cons.mp hf with rfl | hf
    · exact if_pos rfl
    · have hne : f.1 ≠ g.1 := fun heq => hnew (heq ▸ List.mem_map_of_mem hf)
      exact (if_neg hne).trans (ih hnodup hf)

theorem field?_perm (key : String) {fields fields' : List (String × Json)}
    (hperm : fields.Perm fields') (hnodup : (fields.map Prod.fst).Nodup) :
    field? key fields = field? key fields' := by
  have hnodup' := (hperm.map Prod.fst).nodup hnodup
  ext value
  constructor
  · exact fun h => field?_of_mem hnodup' (hperm.mem_iff.mp (mem_of_field? h))
  · exact fun h => field?_of_mem hnodup (hperm.mem_iff.mpr (mem_of_field? h))

theorem field?_map (key : String) (value : Json → Json) (fields : List (String × Json)) :
    field? key (fields.map fun f => (f.1, value f.2)) = (field? key fields).map value := by
  induction fields with
  | nil => rfl
  | cons f fields ih =>
    rw [List.map_cons, field?_cons, ih, field?_cons]
    split <;> rfl

/-- **A field that is put in** is found by its key, and every other field is found as before. -/
theorem field?_insertField (key k : String) (v : Json) (fields : List (String × Json)) :
    field? key (insertField k v fields) = if key = k then some v else field? key fields := by
  induction fields with
  | nil => exact field?_cons key k v []
  | cons f fields ih =>
    obtain ⟨k', v'⟩ := f
    rw [insertField]
    split
    · next h =>
      rw [field?_cons, field?_cons, ← h]
      split <;> rfl
    · next h =>
      split
      · exact field?_cons key k v _
      · rw [field?_cons, ih, field?_cons]
        by_cases hk : key = k
        · rw [if_pos hk, if_pos hk, if_neg (by rw [hk]; exact h)]
        · rw [if_neg hk, if_neg hk]

/-- **Of the fields with one key**, sorting keeps the last one. -/
theorem field?_sortFields (key : String) (fields : List (String × Json)) :
    field? key (sortFields fields) = field? key fields.reverse := by
  have hfrom : ∀ acc, field? key (fields.foldl (fun sorted f => insertField f.1 f.2 sorted) acc) =
      (field? key fields.reverse).or (field? key acc) := by
    induction fields with
    | nil => intro acc; rfl
    | cons f fields ih =>
      intro acc
      obtain ⟨k, v⟩ := f
      rw [List.foldl_cons, ih, field?_insertField, List.reverse_cons, field?_append, field?_cons,
        Option.or_assoc]
      congr 1
      by_cases h : key = k
      · rw [if_pos h, if_pos h]
        rfl
      · rw [if_neg h, if_neg h]
        rfl
  exact (hfrom []).trans Option.or_none

theorem mem_of_mem_insertField {k : String} {v : Json} {fields : List (String × Json)}
    {f : String × Json} (h : f ∈ insertField k v fields) : f = (k, v) ∨ f ∈ fields := by
  induction fields with
  | nil => exact .inl (List.mem_singleton.mp h)
  | cons g fields ih =>
    rw [insertField] at h
    split at h
    · rcases List.mem_cons.mp h with h | h
      · exact .inl h
      · exact .inr (List.mem_cons_of_mem g h)
    · split at h
      · exact List.mem_cons.mp h
      · rcases List.mem_cons.mp h with h | h
        · exact .inr (h ▸ List.mem_cons_self)
        · exact (ih h).imp id (List.mem_cons_of_mem g)

theorem mem_of_mem_sortFields {fields : List (String × Json)} {f : String × Json}
    (h : f ∈ sortFields fields) : f ∈ fields := by
  have hfrom : ∀ acc, f ∈ fields.foldl (fun sorted f => insertField f.1 f.2 sorted) acc →
      f ∈ acc ∨ f ∈ fields := by
    clear h
    induction fields with
    | nil => exact fun acc h => .inl h
    | cons g fields ih =>
      intro acc h
      rcases ih _ h with h | h
      · rcases mem_of_mem_insertField h with h | h
        · exact .inr (h ▸ List.mem_cons_self)
        · exact .inl h
      · exact .inr (List.mem_cons_of_mem g h)
  exact (hfrom [] h).resolve_left (fun h => nomatch h)

theorem perm_insertField {k : String} (v : Json) {fields : List (String × Json)}
    (h : k ∉ fields.map Prod.fst) : (insertField k v fields).Perm ((k, v) :: fields) := by
  induction fields with
  | nil => exact .refl _
  | cons f fields ih =>
    obtain ⟨hne, hnew⟩ := not_or.mp (mt List.mem_cons.mpr h)
    rw [insertField, if_neg hne]
    split
    · exact .refl _
    · exact ((ih hnew).cons f).trans (.swap _ _ _)

theorem perm_sortFields {fields : List (String × Json)} (h : (fields.map Prod.fst).Nodup) :
    (sortFields fields).Perm fields := by
  have hfrom : ∀ acc, ((acc ++ fields).map Prod.fst).Nodup →
      (fields.foldl (fun sorted f => insertField f.1 f.2 sorted) acc).Perm (acc ++ fields) := by
    clear h
    induction fields with
    | nil => exact fun acc _ => (List.append_nil acc).symm ▸ .refl _
    | cons f fields ih =>
      intro acc hnodup
      have hmiddle : (acc ++ f :: fields).Perm ((f :: acc) ++ fields) := List.perm_middle
      have hnodup' := (hmiddle.map Prod.fst).nodup hnodup
      have hnew : f.1 ∉ acc.map Prod.fst := fun hmem =>
        (List.nodup_cons.mp hnodup').1 (List.map_append ▸ List.mem_append_left _ hmem)
      have hinsert := (perm_insertField f.2 hnew).append_right fields
      exact (ih _ ((hinsert.symm.map Prod.fst).nodup hnodup')).trans (hinsert.trans hmiddle.symm)
  exact hfrom [] h

theorem pairwise_insertField (k : String) (v : Json) {fields : List (String × Json)}
    (h : fields.Pairwise fun f g => f.1 < g.1) :
    (insertField k v fields).Pairwise fun f g => f.1 < g.1 := by
  induction fields with
  | nil => exact List.pairwise_singleton _ _
  | cons f fields ih =>
    obtain ⟨k', v'⟩ := f
    obtain ⟨hlater, hrest⟩ := List.pairwise_cons.mp h
    rw [insertField]
    split
    · next heq => exact List.pairwise_cons.mpr ⟨heq ▸ hlater, hrest⟩
    · next hne =>
      split
      · next hlt =>
        refine List.pairwise_cons.mpr ⟨fun g hg => ?_, h⟩
        rcases List.mem_cons.mp hg with rfl | hg
        · exact hlt
        · exact String.lt_trans hlt (hlater g hg)
      · next hnot =>
        refine List.pairwise_cons.mpr ⟨fun g hg => ?_, ih hrest⟩
        rcases mem_of_mem_insertField hg with rfl | hg
        · exact Std.lt_of_le_of_ne hnot (Ne.symm hne)
        · exact hlater g hg

/-- **Sorted fields** are in the order of their keys, of which none is repeated. -/
theorem pairwise_sortFields (fields : List (String × Json)) :
    (sortFields fields).Pairwise fun f g => f.1 < g.1 := by
  have hfrom : ∀ acc, acc.Pairwise (fun f g : String × Json => f.1 < g.1) →
      (fields.foldl (fun sorted f => insertField f.1 f.2 sorted) acc).Pairwise
        fun f g => f.1 < g.1 := by
    induction fields with
    | nil => exact fun _ h => h
    | cons f fields ih => exact fun acc h => ih _ (pairwise_insertField f.1 f.2 h)
  exact hfrom [] .nil

theorem sortFields_eq_of_perm {fields sorted : List (String × Json)} (hperm : sorted.Perm fields)
    (hsorted : sorted.Pairwise fun f g => f.1 < g.1) : sortFields fields = sorted := by
  have hnodup : (sorted.map Prod.fst).Nodup :=
    List.pairwise_map.mpr (hsorted.imp fun hlt => String.ne_of_lt hlt)
  have hperm' := (perm_sortFields ((hperm.map Prod.fst).nodup hnodup)).trans hperm.symm
  refine List.Perm.eq_of_pairwise (fun f g _ _ hfg hgf => ?_) (pairwise_sortFields fields) hsorted
    hperm'
  exact absurd (String.lt_trans hfg hgf) (String.lt_irrefl _)

end Methodology.Json
