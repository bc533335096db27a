import Mathlib.Tactic.SplitIfs
import Methodology.Proofs.Result
import Methodology.Yaml.ToJson
import Methodology.Yaml.Value.OfNode

/-!
# Where references lead

A reference leads to a node that is none itself, so it is followed in one step. What a node stands
for is said by the node that it leads to.

* `Document.target?`, `Document.IsScalar`, `Document.entries`: where a node leads.
* **`isResolved_of_documentOf`**: no reference of a text leads to another one.
* `valueWith_eq_some_iff`: what a node stands for, its tag apart.
* `scalarValue_cases`: **what a scalar stands for**.
* `scalar_of_valueAt`, `valueAt_eq_string_iff`: the nodes that stand for a value without parts, and
  for a text.
* `eachEntry_cons_eq_some_iff`, `entriesToJson_cons_eq_ok_iff`: one entry of a mapping.
* `pairwise_of_eachEntry`, `nodup_of_entriesToJson`: no key of a mapping that is read comes twice.
-/

namespace Methodology.Yaml

open Result

namespace Document

/-- Where a node leads: to what it refers to, or to itself. -/
def target? (d : Document) : Node Nat → Option (Node Nat)
  | .reference name => d.targets.lookup name
  | n => some n

/-- A node that leads to a scalar. -/
def IsScalar (d : Document) (n : Node Nat) (tag : Option TagText) (style : Style) (text : String) :
    Prop :=
  ∃ anchor, d.target? n = some (.scalar anchor tag style text)

/-- The entries of the mapping that a document is. -/
def entries (d : Document) : List (Node Nat × Node Nat) :=
  match d.target? d.root with
  | some (.mapping _ _ entries) => entries
  | _ => []

/-- No reference leads to another one. -/
def IsResolved (d : Document) : Prop :=
  ∀ name name', d.targets.lookup name ≠ some (.reference name')

variable {d : Document}

theorem target?_of_follow {jumps left : Nat} {n m : Node Nat}
    (h : d.follow jumps n = some (m, left)) : d.target? n = some m := by
  cases n with
  | reference name =>
    simp only [follow] at h
    split at h
    · next htarget =>
      cases h
      exact htarget
    · cases h
  | _ =>
    cases h
    rfl

theorem IsResolved.ne_reference (hd : d.IsResolved) {n m : Node Nat} (h : d.target? n = some m)
    (name : Nat) : m ≠ .reference name := by
  rintro rfl
  cases n with
  | reference name' => exact hd name' name h
  | _ => cases h

theorem isScalar_of_follow {jumps left : Nat} {n : Node Nat} {anchor : Option Nat}
    {tag : Option TagText} {style : Style} {text : String}
    (h : d.follow jumps n = some (.scalar anchor tag style text, left)) :
    d.IsScalar n tag style text := ⟨anchor, target?_of_follow h⟩

theorem IsScalar.unique {n : Node Nat} {tag tag' : Option TagText} {style style' : Style}
    {text text' : String} (h : d.IsScalar n tag style text) (h' : d.IsScalar n tag' style' text') :
    tag = tag' ∧ style = style' ∧ text = text' := by
  obtain ⟨anchor, h⟩ := h
  obtain ⟨anchor', h'⟩ := h'
  cases h.symm.trans h'
  exact ⟨rfl, rfl, rfl⟩

end Document

/-! ## Anchors -/

theorem Node.ne_reference_of_underAnchor {anchor : Option Nat} {n : Node Nat}
    (h : ∀ name, n ≠ .reference name) : ∀ e ∈ underAnchor anchor n, ∀ name, e.2 ≠ .reference name :=
  List.forall_mem_map.mpr fun _ _ => h

mutual

theorem Node.ne_reference_of_anchored (n : Node Nat) :
    ∀ e ∈ n.anchored, ∀ name, e.2 ≠ .reference name := by
  cases n with
  | scalar anchor tag style text => exact ne_reference_of_underAnchor fun _ h => nomatch h
  | sequence anchor tag items =>
    refine List.forall_mem_append.mpr ⟨?_, ne_reference_of_anchoredItems items⟩
    exact ne_reference_of_underAnchor fun _ h => nomatch h
  | mapping anchor tag entries =>
    refine List.forall_mem_append.mpr ⟨?_, ne_reference_of_anchoredEntries entries⟩
    exact ne_reference_of_underAnchor fun _ h => nomatch h
  | reference name => exact fun e he => nomatch he

theorem Node.ne_reference_of_anchoredItems (items : List (Node Nat)) :
    ∀ e ∈ anchoredItems items, ∀ name, e.2 ≠ .reference name := by
  match items with
  | [] => exact fun e he => nomatch he
  | n :: rest =>
    exact List.forall_mem_append.mpr
      ⟨n.ne_reference_of_anchored, ne_reference_of_anchoredItems rest⟩

theorem Node.ne_reference_of_anchoredEntries (entries : List (Node Nat × Node Nat)) :
    ∀ e ∈ anchoredEntries entries, ∀ name, e.2 ≠ .reference name := by
  match entries with
  | [] => exact fun e he => nomatch he
  | (k, v) :: rest =>
    refine List.forall_mem_append.mpr ⟨?_, ne_reference_of_anchoredEntries rest⟩
    exact List.forall_mem_append.mpr ⟨k.ne_reference_of_anchored, v.ne_reference_of_anchored⟩

end

theorem Document.isResolved_of_ofRoot {root : Node (List Char)} {d : Document}
    (h : Document.ofRoot root = some d) : d.IsResolved := by
  obtain ⟨⟨root', names⟩, -, rfl⟩ := Option.map_eq_some_iff.mp h
  intro name name' hlookup
  obtain ⟨before, behind, htargets, -⟩ := List.lookup_eq_some_iff.mp hlookup
  have htargets : root'.anchored.reverse = before ++ (name, .reference name') :: behind := htargets
  have hmem : (name, Node.reference name') ∈ root'.anchored.reverse := by
    rw [htargets]
    exact List.mem_append_right before List.mem_cons_self
  exact root'.ne_reference_of_anchored _ (List.mem_reverse.mp hmem) name' rfl

theorem isResolved_of_documentOf {text : String} {d : Document}
    (h : documentOf text = some (some d)) : d.IsResolved := by
  rw [documentOf] at h
  obtain ⟨ts, -, h⟩ := Option.bind_eq_some_iff.mp h
  obtain ⟨⟨root, rest⟩, -, h⟩ := Option.bind_eq_some_iff.mp h
  simp only at h
  split at h
  · split at h
    · cases h
    · obtain ⟨d', hd', heq⟩ := Option.map_eq_some_iff.mp h
      cases heq
      exact Document.isResolved_of_ofRoot hd'
  · cases h

/-! ## Values of nodes -/

/-- A value under the tag of its own that it has. -/
def Value.under (v : Value) : Option (List Char) → Value
  | none => v
  | some tag => .tagged tag v

/-- A scalar that stands for its own text, under no tag of the document's own. -/
structure StandsForItself (tag : Option TagText) (style : Style) (text : String) : Prop where
  bare : localTag? tag = none
  value : scalarValue tag style text = some (.string text)

theorem Value.toJson_under (v : Value) (tag : Option (List Char)) :
    (v.under tag).toJson = v.toJson := by
  cases tag with
  | none => rfl
  | some tag => rw [under, toJson]

variable {d : Document} {depth jumps left : Nat} {n : Node Nat}

/-- **What a node stands for**: the content of the node that it leads to, under its tag. -/
theorem valueWith_eq_some_iff {inner : Option (Reading Value)} {w : Value} :
    valueWith d inner jumps n = some (w, left) ↔ ∃ m jumps' v, d.follow jumps n = some (m, jumps') ∧
      contentOf inner jumps' m = some (v, left) ∧ w = v.under (localTag? m.tag?) := by
  rw [valueWith]
  constructor
  · intro h
    obtain ⟨⟨m, jumps'⟩, hm, h⟩ := Option.bind_eq_some_iff.mp h
    obtain ⟨⟨v, left'⟩, hv, h⟩ := Option.bind_eq_some_iff.mp h
    simp only at h
    split at h
    · next htag =>
      cases h
      exact ⟨m, jumps', w, hm, hv, by rw [htag, Value.under]⟩
    · next tag htag =>
      cases h
      exact ⟨m, jumps', v, hm, hv, by rw [htag, Value.under]⟩
  · rintro ⟨m, jumps', v, hm, hv, rfl⟩
    refine Option.bind_eq_some_iff.mpr ⟨_, hm, Option.bind_eq_some_iff.mpr ⟨_, hv, ?_⟩⟩
    cases hlocal : localTag? m.tag? <;> simp only [Value.under]

theorem valueAt_eq_valueWith (d : Document) (depth : Nat) :
    ∃ inner, valueAt d depth = valueWith d inner := by
  cases depth with
  | zero => exact ⟨none, rfl⟩
  | succ depth => exact ⟨some (valueAt d depth), rfl⟩

theorem untaggedValue_cases {style : Style} {text : String} {v : Value}
    (h : untaggedValue style text = some v) :
    v = .null ∨ (∃ b, v = .bool b) ∨ (∃ x, v = .number x) ∨ v = .string text := by
  cases style with
  | plain =>
    rw [untaggedValue] at h
    cases hplain : resolve text.toList <;> rw [hplain] at h <;> cases h
    · exact .inl rfl
    · exact .inr (.inl ⟨_, rfl⟩)
    · exact .inr (.inr (.inl ⟨_, rfl⟩))
    · exact .inr (.inr (.inr rfl))
  | quoted =>
    cases h
    exact .inr (.inr (.inr rfl))

/-- **What a scalar stands for** is null, a flag, a number or its own text. -/
theorem scalarValue_cases {tag : Option TagText} {style : Style} {text : String} {v : Value}
    (h : scalarValue tag style text = some v) :
    v = .null ∨ (∃ b, v = .bool b) ∨ (∃ x, v = .number x) ∨ v = .string text := by
  cases tag with
  | none => exact untaggedValue_cases h
  | some t =>
    rw [scalarValue] at h
    split_ifs at h
    · exact untaggedValue_cases h
    · obtain ⟨b, -, rfl⟩ := Option.map_eq_some_iff.mp h
      exact .inr (.inl ⟨b, rfl⟩)
    · split at h
      · next x _ =>
        cases h
        exact .inr (.inr (.inl ⟨x, rfl⟩))
      · cases h
    · obtain ⟨x, -, rfl⟩ := Option.map_eq_some_iff.mp h
      exact .inr (.inr (.inl ⟨x, rfl⟩))
    · cases h
      exact .inl rfl
    · cases h
      exact .inr (.inr (.inr rfl))

theorem valueAt_scalar_iff {anchor : Option Nat} {tag : Option TagText} {style : Style}
    {text : String} (h : d.follow jumps n = some (.scalar anchor tag style text, left))
    {w : Value} {left' : Nat} : valueAt d depth jumps n = some (w, left') ↔
      ∃ v, scalarValue tag style text = some v ∧ w = v.under (localTag? tag) ∧ left = left' := by
  obtain ⟨inner, hvalue⟩ := valueAt_eq_valueWith d depth
  rw [hvalue, valueWith_eq_some_iff, h]
  constructor
  · rintro ⟨m, jumps', v, hm, hv, rfl⟩
    cases hm
    obtain ⟨v', hv', heq⟩ := Option.map_eq_some_iff.mp hv
    cases heq
    exact ⟨v, hv', rfl, rfl⟩
  · rintro ⟨v, hv, rfl, rfl⟩
    exact ⟨_, _, v, rfl, Option.map_eq_some_iff.mpr ⟨v, hv, rfl⟩, rfl⟩

/-- **A node that stands for a value without parts** leads to a scalar. -/
theorem scalar_of_valueAt {w : Value} (h : valueAt d depth jumps n = some (w, left)) {j : Json}
    (hjson : w.toJson = .ok j) (hlist : ∀ items, j ≠ .array items)
    (hmapping : ∀ fields, j ≠ .object fields) :
    ∃ anchor tag style text, d.follow jumps n = some (.scalar anchor tag style text, left) := by
  obtain ⟨inner, hvalue⟩ := valueAt_eq_valueWith d depth
  obtain ⟨m, jumps', v, hm, hv, rfl⟩ := valueWith_eq_some_iff.mp (hvalue ▸ h)
  rw [v.toJson_under] at hjson
  cases m with
  | scalar anchor tag style text =>
    obtain ⟨v', -, heq⟩ := Option.map_eq_some_iff.mp hv
    cases heq
    exact ⟨anchor, tag, style, text, hm⟩
  | sequence anchor tag items =>
    obtain ⟨read, -, hv⟩ := Option.bind_eq_some_iff.mp hv
    obtain ⟨⟨values, jumps''⟩, -, heq⟩ := Option.bind_eq_some_iff.mp hv
    cases heq
    rw [Value.toJson] at hjson
    obtain ⟨items', -, rfl⟩ := map_eq_ok.mp hjson
    exact absurd rfl (hlist items')
  | mapping anchor tag entries =>
    obtain ⟨read, -, hv⟩ := Option.bind_eq_some_iff.mp hv
    obtain ⟨⟨values, jumps''⟩, -, heq⟩ := Option.bind_eq_some_iff.mp hv
    cases heq
    rw [Value.toJson] at hjson
    obtain ⟨fields, -, rfl⟩ := map_eq_ok.mp hjson
    exact absurd rfl (hmapping _)
  | reference name => cases hv

/-- **A node that stands for a text** leads to a scalar that stands for itself. -/
theorem valueAt_eq_string_iff {s : String} : valueAt d depth jumps n = some (.string s, left) ↔
    ∃ anchor tag style, d.follow jumps n = some (.scalar anchor tag style s, left) ∧
      StandsForItself tag style s := by
  constructor
  · intro h
    obtain ⟨anchor, tag, style, text, hm⟩ := scalar_of_valueAt h rfl (fun _ h => nomatch h)
      fun _ h => nomatch h
    obtain ⟨v, hv, heq, -⟩ := (valueAt_scalar_iff hm).mp h
    cases hlocal : localTag? tag with
    | some own =>
      rw [hlocal, Value.under] at heq
      cases heq
    | none =>
      rw [hlocal, Value.under] at heq
      subst heq
      obtain rfl : s = text := by
        rcases scalarValue_cases hv with h | ⟨_, h⟩ | ⟨_, h⟩ | h <;> cases h
        rfl
      exact ⟨anchor, tag, style, hm, hlocal, hv⟩
  · rintro ⟨anchor, tag, style, hm, hself⟩
    refine (valueAt_scalar_iff hm).mpr ⟨_, hself.value, ?_, rfl⟩
    rw [hself.bare, Value.under]

/-! ## Entries -/

theorem eachEntry_cons_eq_some_iff {read : Reading Value} {met : List Value}
    {k v : Node Nat} {rest : List (Node Nat × Node Nat)} {pairs : List (Value × Value)} :
    eachEntry read met jumps ((k, v) :: rest) = some (pairs, left) ↔
      ∃ key jumps₁ value jumps₂ others, read jumps k = some (key, jumps₁) ∧
        met.any key.same = false ∧ read jumps₁ v = some (value, jumps₂) ∧
        eachEntry read (key :: met) jumps₂ rest = some (others, left) ∧
        pairs = (key, value) :: others := by
  rw [eachEntry]
  constructor
  · intro h
    obtain ⟨⟨key, jumps₁⟩, hkey, h⟩ := Option.bind_eq_some_iff.mp h
    simp only at h
    split at h
    · cases h
    · next hnew =>
      obtain ⟨⟨value, jumps₂⟩, hvalue, h⟩ := Option.bind_eq_some_iff.mp h
      obtain ⟨⟨others, left'⟩, hothers, heq⟩ := Option.bind_eq_some_iff.mp h
      cases heq
      exact ⟨key, jumps₁, value, jumps₂, others, hkey, Bool.eq_false_iff.mpr hnew, hvalue, hothers,
        rfl⟩
  · rintro ⟨key, jumps₁, value, jumps₂, others, hkey, hnew, hvalue, hothers, rfl⟩
    refine Option.bind_eq_some_iff.mpr ⟨_, hkey, ?_⟩
    simp only [hnew, Bool.false_eq_true, if_false]
    exact Option.bind_eq_some_iff.mpr ⟨_, hvalue, Option.bind_eq_some_iff.mpr ⟨_, hothers, rfl⟩⟩

theorem entriesToJson_cons_eq_ok_iff {k v : Value} {rest : List (Value × Value)}
    {fields : List (String × Json)} : Value.entriesToJson ((k, v) :: rest) = .ok fields ↔
      ∃ key j others, k = .string key ∧ v.toJson = .ok j ∧
        Value.entriesToJson rest = .ok others ∧ fields = (key, j) :: others := by
  constructor
  · intro h
    cases k with
    | string key =>
      rw [Value.entriesToJson] at h
      obtain ⟨j, hj, h⟩ := bind_eq_ok.mp h
      obtain ⟨others, hothers, heq⟩ := bind_eq_ok.mp h
      cases heq
      exact ⟨key, j, others, rfl, hj, hothers, rfl⟩
    | _ =>
      rw [Value.entriesToJson] at h
      · cases h
      · exact fun _ hkey => nomatch hkey
  · rintro ⟨key, j, others, rfl, hj, hothers, rfl⟩
    rw [Value.entriesToJson]
    exact bind_eq_ok.mpr ⟨j, hj, bind_eq_ok.mpr ⟨others, hothers, rfl⟩⟩

theorem same_string (a b : String) : Value.same (.string a) (.string b) = (a == b) := by
  rw [Value.same]

/-- **No key of a mapping that is read comes twice**, or is among those met before. -/
theorem pairwise_of_eachEntry {read : Reading Value} {met : List Value}
    {entries : List (Node Nat × Node Nat)} {pairs : List (Value × Value)}
    (h : eachEntry read met jumps entries = some (pairs, left)) :
    (pairs.map Prod.fst).Pairwise (fun k k' => k'.same k = false) ∧
      ∀ k ∈ pairs.map Prod.fst, met.any k.same = false := by
  induction entries generalizing met jumps pairs with
  | nil =>
    cases h
    exact ⟨.nil, List.forall_mem_nil _⟩
  | cons e rest ih =>
    obtain ⟨k, v⟩ := e
    obtain ⟨key, jumps₁, value, jumps₂, others, -, hnew, -, hothers, rfl⟩ :=
      eachEntry_cons_eq_some_iff.mp h
    obtain ⟨hpairwise, hmet⟩ := ih hothers
    simp only [List.any_cons, Bool.or_eq_false_iff] at hmet
    exact ⟨List.pairwise_cons.mpr ⟨fun k hk => (hmet k hk).1, hpairwise⟩,
      List.forall_mem_cons.mpr ⟨hnew, fun k hk => (hmet k hk).2⟩⟩

theorem nodup_of_entriesToJson {pairs : List (Value × Value)} {fields : List (String × Json)}
    (hdistinct : (pairs.map Prod.fst).Pairwise fun k k' => k'.same k = false)
    (hfields : Value.entriesToJson pairs = .ok fields) : (fields.map Prod.fst).Nodup := by
  have hkeys : pairs.map Prod.fst = (fields.map Prod.fst).map .string := by
    clear hdistinct
    induction pairs generalizing fields with
    | nil =>
      cases hfields
      rfl
    | cons e rest ih =>
      obtain ⟨k, v⟩ := e
      obtain ⟨key, j, others, rfl, -, hothers, rfl⟩ := entriesToJson_cons_eq_ok_iff.mp hfields
      rw [List.map_cons, List.map_cons, List.map_cons, ih hothers]
  rw [hkeys, List.pairwise_map] at hdistinct
  refine hdistinct.imp fun {key key'} hsame heq => ?_
  rw [heq, same_string, beq_self_eq_true] at hsame
  cases hsame

end Methodology.Yaml
