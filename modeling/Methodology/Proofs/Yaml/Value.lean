import Methodology.Proofs.Json.RoundTrip
import Methodology.Proofs.Yaml.Node
import Methodology.Proofs.Yaml.Target

/-!
# The value of a printed text

* `Leaf.value`, `Leaves.value`, `Tree.value`: the values of the nodes.
* `eachItem_map`, `eachEntry_map`: items and entries that are read one by one.
* **`read_tree`**: the value of the text of a mapping of lists.
* **`toJson_tree`**: its data value, which has the fields in the order of their keys.
-/

namespace Methodology.Yaml

/-! ## Values -/

/-- The value of a flag or a text. -/
def Leaf.value : Leaf → Value
  | flag b => .bool b
  | text s => .string s

/-- The value of a mapping of flags and texts. -/
def Leaves.value (fs : Leaves) : Value := .mapping (fs.map fun f => (.string f.1, f.2.value))

/-- The value of a mapping of lists. -/
def Tree.value (t : Tree) : Value :=
  .mapping (t.map fun s => (.string s.1, .sequence (s.2.map Leaves.value)))

/-- No key is written twice. -/
structure Tree.IsDistinct (t : Tree) : Prop where
  keys : (t.map Prod.fst).Nodup
  fields : ∀ s ∈ t, ∀ fs ∈ s.2, (fs.map Prod.fst).Nodup

/-! ## Scalars -/

theorem untaggedValue_leaf (v : Leaf) :
    untaggedValue v.style (String.ofList v.chars) = some v.value := by
  cases v with
  | flag b => cases b <;> rfl
  | text s =>
    rw [Leaf.chars, String.ofList_toList, Leaf.style]
    split_ifs with hplain
    · rw [untaggedValue, (isPlain_of_styleOf hplain).2]
      rfl
    · rfl

theorem untaggedValue_key {k : String} (h : Lexer.IsKey k.toList) :
    untaggedValue .plain k = some (.string k) := by
  rw [untaggedValue, h.text]
  rfl

section

variable (d : Document) (jumps : Nat)

theorem valueAt_scalar (depth : Nat) {style : Style} {text : String} {v : Value}
    (h : untaggedValue style text = some v) :
    valueAt d depth jumps (.scalar none none style text) = some (v, jumps) := by
  have hfollow : d.follow jumps (.scalar none none style text) =
    some (.scalar none none style text, jumps) := rfl
  exact (valueAt_scalar_iff hfollow).mpr ⟨v, h, rfl, rfl⟩

/-! ## Lists and mappings -/

theorem eachItem_map {α β : Type} {read : Reading β} {node : α → Node Nat} {value : α → β}
    {as : List α} (h : ∀ a ∈ as, read jumps (node a) = some (value a, jumps)) :
    eachItem read jumps (as.map node) = some (as.map value, jumps) := by
  induction as with
  | nil => rfl
  | cons a as ih =>
    have hrest := ih fun b hb => h b (List.mem_cons_of_mem a hb)
    simp [eachItem, h a List.mem_cons_self, hrest]

/-- **Entries are read one by one**, if no key is among those met or comes twice. -/
theorem eachEntry_map {α : Type} {read : Reading Value} (node : α → Node Nat) (value : α → Value)
    {as : List (String × α)} (hkey : ∀ a ∈ as, read jumps (keyNode a.1) = some (.string a.1, jumps))
    (h : ∀ a ∈ as, read jumps (node a.2) = some (value a.2, jumps)) (met : List String)
    (hmet : (met ++ as.map Prod.fst).Nodup) :
    eachEntry read (met.map .string).reverse jumps (as.map fun a => (keyNode a.1, node a.2)) =
      some (as.map fun a => (.string a.1, value a.2), jumps) := by
  induction as generalizing met with
  | nil => rfl
  | cons a as ih =>
    have hrest := ih (fun b hb => hkey b (List.mem_cons_of_mem a hb))
      (fun b hb => h b (List.mem_cons_of_mem a hb)) (met ++ [a.1])
      (by simpa [List.append_assoc] using hmet)
    rw [List.map_append, List.map_singleton, List.reverse_append, List.reverse_singleton,
      List.singleton_append] at hrest
    have hnew : a.1 ∉ met := by
      rw [List.map_cons, List.nodup_append] at hmet
      exact fun hmem => hmet.2.2 _ hmem _ List.mem_cons_self rfl
    have hany : (met.map Value.string).reverse.any (Value.same (.string a.1)) = false := by
      rw [List.any_reverse, List.any_map, List.any_eq_false]
      intro b hb
      rw [Function.comp_apply, same_string, beq_iff_eq]
      rintro rfl
      exact hnew hb
    rw [List.map_cons, eachEntry, hkey a List.mem_cons_self]
    simp only [Option.bind_eq_bind, Option.bind_some, hany, Bool.false_eq_true, if_false,
      h a List.mem_cons_self, hrest, List.map_cons]

theorem valueWith_sequence {read : Reading Value} {items : List (Node Nat)} {values : List Value}
    (h : eachItem read jumps items = some (values, jumps)) :
    valueWith d (some read) jumps (.sequence none none items) = some (.sequence values, jumps) := by
  simp [valueWith, Document.follow, contentOf, h, Node.tag?, localTag?]

theorem valueWith_mapping {read : Reading Value} {entries : List (Node Nat × Node Nat)}
    {values : List (Value × Value)} (h : eachEntry read [] jumps entries = some (values, jumps)) :
    valueWith d (some read) jumps (.mapping none none entries) = some (.mapping values, jumps) := by
  simp [valueWith, Document.follow, contentOf, h, Node.tag?, localTag?]

theorem valueAt_leaves {fs : Leaves} (hkeys : fs.HasKeys) (hnodup : (fs.map Prod.fst).Nodup)
    (depth : Nat) : valueAt d (depth + 1) jumps fs.node = some (fs.value, jumps) :=
  valueWith_mapping d jumps (eachEntry_map jumps Leaf.node Leaf.value
    (fun f hf => valueAt_scalar d jumps depth (untaggedValue_key (hkeys f hf)))
    (fun f _ => valueAt_scalar d jumps depth (untaggedValue_leaf f.2)) [] hnodup)

theorem valueAt_tree {t : Tree} (h : t.IsPrinted) (hdistinct : t.IsDistinct) (depth : Nat) :
    valueAt d (depth + 3) jumps t.node = some (t.value, jumps) := by
  have hitems : ∀ s ∈ t, valueAt d (depth + 2) jumps (.sequence none none (s.2.map Leaves.node)) =
      some (.sequence (s.2.map Leaves.value), jumps) := fun s hs =>
    valueWith_sequence d jumps (eachItem_map jumps fun fs hfs =>
      valueAt_leaves d jumps (h.fields s hs fs hfs).2 (hdistinct.fields s hs fs hfs) depth)
  have hkeys : ∀ s ∈ t, valueAt d (depth + 2) jumps (keyNode s.1) = some (.string s.1, jumps) :=
    fun s hs => valueAt_scalar d jumps (depth + 2) (untaggedValue_key (h.keys s hs))
  exact valueWith_mapping d jumps (eachEntry_map jumps
    (fun items : List Leaves => .sequence none none (items.map Leaves.node))
    (fun items : List Leaves => .sequence (items.map Leaves.value)) hkeys hitems [] hdistinct.keys)

end

theorem read_tree {t : Tree} (h : t.IsPrinted) (hdistinct : t.IsDistinct) :
    read (print (.object t.toFields)) = some t.value := by
  obtain ⟨d, hd, hroot⟩ := documentOf_tree h
  rw [read, hd]
  simp only [Option.bind_eq_bind, Option.bind_some]
  rw [hroot, show depthLimit = 125 + 3 from rfl, valueAt_tree d d.jumps h hdistinct]
  rfl

/-! ## Data values -/

theorem toJson_leaf (v : Leaf) : v.value.toJson = .ok v.toJson := by
  cases v <;> rfl

theorem entriesToJson_map {α : Type} (value : α → Value) (json : α → Json)
    {as : List (String × α)} (h : ∀ a ∈ as, (value a.2).toJson = .ok (json a.2)) :
    Value.entriesToJson (as.map fun a => (.string a.1, value a.2)) =
      .ok (as.map fun a => (a.1, json a.2)) := by
  induction as with
  | nil => rfl
  | cons a as ih =>
    rw [List.map_cons, Value.entriesToJson, h a List.mem_cons_self, Result.ok_bind,
      ih fun b hb => h b (List.mem_cons_of_mem a hb)]
    rfl

theorem itemsToJson_map {α : Type} {value : α → Value} {json : α → Json} {as : List α}
    (h : ∀ a ∈ as, (value a).toJson = .ok (json a)) :
    Value.itemsToJson (as.map value) = .ok (as.map json) := by
  induction as with
  | nil => rfl
  | cons a as ih =>
    rw [List.map_cons, Value.itemsToJson, h a List.mem_cons_self, Result.ok_bind,
      ih fun b hb => h b (List.mem_cons_of_mem a hb)]
    rfl

theorem sortedFields_map {α : Type} (json : α → Json) (as : List (String × α)) :
    Json.sortedFields (as.map fun a => (a.1, json a.2)) =
      as.map fun a => (a.1, (json a.2).sorted) := by
  rw [Json.sortedFields_eq_map, List.map_map]
  rfl

theorem sorted_leaf (v : Leaf) : v.toJson.sorted = v.toJson := by
  cases v <;> rfl

theorem toJson_leaves (fs : Leaves) : fs.value.toJson = .ok (Json.object fs.toFields).sorted := by
  have hfields : ∀ f ∈ fs, f.2.value.toJson = .ok f.2.toJson := fun f _ => toJson_leaf f.2
  rw [Leaves.value, Value.toJson, entriesToJson_map Leaf.value Leaf.toJson hfields, Json.sorted,
    Leaves.toFields, sortedFields_map]
  simp only [sorted_leaf]
  rfl

theorem toJson_tree (t : Tree) : t.value.toJson = .ok (Json.object t.toFields).sorted := by
  have hitems : ∀ s ∈ t, (Value.sequence (s.2.map Leaves.value)).toJson =
      .ok (Json.array (Tree.toItems s.2)).sorted := by
    intro s _
    rw [Value.toJson, itemsToJson_map fun fs _ => toJson_leaves fs, Json.sorted,
      Json.sortedItems_eq_map, Tree.toItems, List.map_map]
    rfl
  rw [Tree.value, Value.toJson, entriesToJson_map (fun items => .sequence (items.map Leaves.value))
      (fun items => (Json.array (Tree.toItems items)).sorted) hitems, Json.sorted, Tree.toFields,
    sortedFields_map fun items => Json.array (Tree.toItems items)]
  rfl

end Methodology.Yaml
