import Methodology.Proofs.Yaml.Tokens
import Methodology.Yaml.Node.Reader

/-!
# The document of a printed text

* `Leaf.node`, `Leaves.node`, `Tree.node`: the nodes that the tokens are made into.
* `blockEntries_leaves`, `indentlessItems_items`, `blockEntries_tree`: the reader on the tokens.
* **`documentOf_leaf`**, **`documentOf_leaves`**, **`documentOf_tree`**: the document of a text.
-/

namespace Methodology.Yaml

variable {α : Type}

/-! ## Nodes -/

/-- The node of a key. -/
def keyNode (k : String) : Node α := .scalar none none .plain k

/-- The node of a flag or a text. -/
def Leaf.node (v : Leaf) : Node α := .scalar none none v.style (String.ofList v.chars)

/-- The entries of a mapping of flags and texts. -/
def Leaves.entries (fs : Leaves) : List (Node α × Node α) := fs.map fun f => (keyNode f.1, f.2.node)

/-- The node of a mapping of flags and texts. -/
def Leaves.node (fs : Leaves) : Node α := .mapping none none fs.entries

/-- The entries of a mapping of lists. -/
def Tree.entries (t : Tree) : List (Node α × Node α) :=
  t.map fun s => (keyNode s.1, .sequence none none (s.2.map Leaves.node))

/-- The node of a mapping of lists. -/
def Tree.node (t : Tree) : Node α := .mapping none none t.entries

section

variable {handles : Handles} {block indentless : Bool}

theorem nodeFrom_scalar (fuel : Nat) (style : Style) (text : List Char) (rest : List Token) :
    nodeFrom handles (fuel + 1) block indentless (.scalar style text :: rest) =
      some (.scalar none none style (String.ofList text), rest) := by
  simp [nodeFrom, properties]

theorem nodeFrom_key (fuel : Nat) (k : String) (rest : List Token) :
    nodeFrom handles (fuel + 1) block indentless (keyToken k :: rest) = some (keyNode k, rest) := by
  rw [keyToken, nodeFrom_scalar, String.ofList_toList]
  rfl

theorem nodeFrom_mapping {fuel : Nat} {ts rest : List Token}
    {entries : List (Node (List Char) × Node (List Char))}
    (h : blockEntries handles fuel ts = some (entries, rest)) :
    nodeFrom handles (fuel + 1) true indentless (.blockMappingStart :: ts) =
      some (.mapping none none entries, rest) := by
  simp [nodeFrom, properties, next, h]

theorem nodeFrom_sequence {fuel : Nat} {ts rest : List Token} {items : List (Node (List Char))}
    (h : indentlessItems handles fuel (.blockEntry :: ts) = some (items, rest)) :
    nodeFrom handles (fuel + 1) block true (.blockEntry :: ts) =
      some (.sequence none none items, rest) := by
  simp [nodeFrom, properties, next, h]

theorem blockEntries_entry {fuel : Nat} {k : String} {t : Token} {ts more rest : List Token}
    {value : Node (List Char)} {entries : List (Node (List Char) × Node (List Char))}
    (ht : [Token.key, .value, .blockEnd].contains t = false)
    (hvalue : nodeFrom handles (fuel + 1) true true (t :: ts) = some (value, more))
    (hmore : blockEntries handles (fuel + 1) more = some (entries, rest)) :
    blockEntries handles (fuel + 2) (.key :: keyToken k :: .value :: t :: ts) =
      some ((keyNode k, value) :: entries, rest) := by
  have hkey : next (keyToken k :: .value :: t :: ts) [.key, .value, .blockEnd] = false := rfl
  have hnext : next (t :: ts) [.key, .value, .blockEnd] = false := ht
  rw [blockEntries, unlessNext, hkey]
  simp only [Bool.false_eq_true, if_false, nodeFrom_key, Option.bind_eq_bind, Option.bind_some,
    unlessNext, hnext, hvalue, hmore]

theorem blockEntries_leaves (fs : Leaves) (rest : List Token) {fuel : Nat} (h : fs.length < fuel) :
    blockEntries handles fuel (fs.tokens ++ .blockEnd :: rest) = some (fs.entries, rest) := by
  induction fs generalizing fuel with
  | nil =>
    obtain ⟨fuel, rfl⟩ : ∃ n, fuel = n + 1 := ⟨fuel - 1, by omega⟩
    simp [Leaves.tokens, Leaves.entries, blockEntries]
  | cons f fs ih =>
    rw [List.length_cons] at h
    obtain ⟨fuel, rfl⟩ : ∃ n, fuel = n + 2 := ⟨fuel - 2, by omega⟩
    exact blockEntries_entry rfl (nodeFrom_scalar ..) (ih (by omega))

theorem nodeFrom_leaves (handles : Handles) (indentless : Bool) (fs : Leaves) (rest : List Token)
    {fuel : Nat} (h : fs.length < fuel) : nodeFrom handles (fuel + 1) true indentless
      (.blockMappingStart :: (fs.tokens ++ .blockEnd :: rest)) = some (fs.node, rest) :=
  nodeFrom_mapping (blockEntries_leaves fs rest h)

theorem indentlessItems_items (handles : Handles) (items : List Leaves) {rest : List Token}
    (hrest : rest.head? ≠ some .blockEntry) (fuel : Nat)
    (h : (Tree.itemTokens items).length < fuel) :
    indentlessItems handles fuel (Tree.itemTokens items ++ rest) =
      some (items.map Leaves.node, rest) := by
  induction items generalizing fuel with
  | nil =>
    obtain ⟨fuel, rfl⟩ : ∃ n, fuel = n + 1 := ⟨fuel - 1, by omega⟩
    change indentlessItems handles (fuel + 1) rest = some ([], rest)
    unfold indentlessItems
    split
    · next heq => cases heq
    · next heq => exact absurd rfl hrest
    · rfl
  | cons fs items ih =>
    have htokens : Tree.itemTokens (fs :: items) ++ rest = .blockEntry :: .blockMappingStart ::
        (fs.tokens ++ .blockEnd :: (Tree.itemTokens items ++ rest)) := by
      simp [Tree.itemTokens]
    have hlength : (Tree.itemTokens (fs :: items)).length =
        fs.tokens.length + (Tree.itemTokens items).length + 3 := by
      simp [Tree.itemTokens]
      omega
    have hfields : fs.length ≤ fs.tokens.length := by
      simp [Leaves.tokens]
      omega
    obtain ⟨fuel, rfl⟩ : ∃ n, fuel = n + 2 := ⟨fuel - 2, by omega⟩
    have hnode := nodeFrom_leaves handles false fs
      (Tree.itemTokens items ++ rest) (show fs.length < fuel by omega)
    have hnext : next (.blockMappingStart :: (fs.tokens ++ .blockEnd ::
        (Tree.itemTokens items ++ rest))) [.blockEntry, .key, .value, .blockEnd] = false := rfl
    rw [htokens, indentlessItems, unlessNext, hnext]
    simp only [Bool.false_eq_true, if_false, hnode, Option.bind_eq_bind, Option.bind_some,
      ih (fuel + 1) (by omega), List.map_cons]

theorem blockEntries_tree {t : Tree} (ht : ∀ s ∈ t, s.2 ≠ []) (rest : List Token) {fuel : Nat}
    (h : (Tree.tokens t).length < fuel) :
    blockEntries handles fuel (t.tokens ++ .blockEnd :: rest) = some (t.entries, rest) := by
  induction t generalizing fuel with
  | nil =>
    obtain ⟨fuel, rfl⟩ : ∃ n, fuel = n + 1 := ⟨fuel - 1, by omega⟩
    simp [Tree.tokens, Tree.entries, blockEntries]
  | cons s t ih =>
    obtain ⟨k, items⟩ := s
    obtain ⟨fs, items, rfl⟩ := List.exists_cons_of_ne_nil (ht _ List.mem_cons_self)
    have hlength : (Tree.tokens ((k, fs :: items) :: t)).length =
        (Tree.itemTokens (fs :: items)).length + (Tree.tokens t).length + 3 := by
      simp [Tree.tokens]
    obtain ⟨fuel, rfl⟩ : ∃ n, fuel = n + 2 := ⟨fuel - 2, by omega⟩
    have hmore : (Tree.tokens t ++ .blockEnd :: rest).head? ≠ some .blockEntry := by
      cases t with
      | nil => exact fun heq => by cases heq
      | cons s t => exact fun heq => by cases heq
    have hitems := indentlessItems_items handles (fs :: items) hmore fuel (by omega)
    have htokens : Tree.tokens ((k, fs :: items) :: t) ++ .blockEnd :: rest = .key :: keyToken k ::
        .value :: (Tree.itemTokens (fs :: items) ++ (Tree.tokens t ++ .blockEnd :: rest)) := by
      simp [Tree.tokens]
    rw [htokens]
    exact blockEntries_entry rfl (nodeFrom_sequence hitems)
      (ih (fun x hx => ht x (List.mem_cons_of_mem _ hx)) (by omega))

end

/-! ## Documents -/

theorem numbered_leaf (v : Leaf) (names : Node.Names) :
    Node.numbered v.node names = some (v.node, names) := rfl

theorem numberedEntries_leaves (fs : Leaves) (names : Node.Names) :
    Node.numberedEntries fs.entries names = some (fs.entries, names) := by
  induction fs with
  | nil => rfl
  | cons f fs ih =>
    have hcons : ∀ {β : Type}, Leaves.entries (α := β) (f :: fs) =
        (keyNode f.1, f.2.node) :: Leaves.entries fs := rfl
    simp [hcons, Node.numberedEntries, keyNode, Node.numbered, Node.Names.addAnchor,
      numbered_leaf, ih]

theorem numbered_leaves (fs : Leaves) (names : Node.Names) :
    Node.numbered fs.node names = some (fs.node, names) := by
  simp [Leaves.node, Node.numbered, Node.Names.addAnchor, numberedEntries_leaves]

theorem numberedItems_items (items : List Leaves) (names : Node.Names) :
    Node.numberedItems (items.map Leaves.node) names = some (items.map Leaves.node, names) := by
  induction items with
  | nil => rfl
  | cons fs items ih => simp [Node.numberedItems, numbered_leaves, ih]

theorem numbered_tree (t : Tree) (names : Node.Names) :
    Node.numbered t.node names = some (t.node, names) := by
  have hentries : Node.numberedEntries t.entries names = some (t.entries, names) := by
    induction t with
    | nil => rfl
    | cons s t ih =>
      have hcons : ∀ {β : Type}, Tree.entries (α := β) (s :: t) =
          (keyNode s.1, .sequence none none (s.2.map Leaves.node)) :: Tree.entries t := rfl
      simp [hcons, Node.numberedEntries, keyNode, Node.numbered, Node.Names.addAnchor,
        numberedItems_items, ih]
  simp [Tree.node, Node.numbered, Node.Names.addAnchor, hentries]

theorem documentOf_of_tokens {text : String} {t : Token} {ts : List Token}
    {root : Node (List Char)} {root' : Node Nat} (htokens : tokens text = some (t :: ts))
    (ht : t = .blockMappingStart ∨ t = .flowMappingStart ∨ ∃ style s, t = .scalar style s)
    (hnode : nodeFrom Handles.standard (3 * (t :: ts).length + 3) true false (t :: ts) =
      some (root, [.streamEnd])) (hroot : root.numbered [] = some (root', [])) :
    ∃ d, documentOf text = some (some d) ∧ d.root = root' := by
  have hfirst : rootFrom (t :: ts) = some (some root, [.streamEnd]) := by
    rw [List.length_cons] at hnode
    rcases ht with rfl | rfl | ⟨style, s, rfl⟩ <;> simp [rootFrom, directives, hnode]
  have hofRoot : Document.ofRoot root =
      some ⟨root', root'.anchored.reverse, 100 * root'.events⟩ := by
    simp [Document.ofRoot, hroot]
  refine ⟨⟨root', root'.anchored.reverse, 100 * root'.events⟩, ?_, rfl⟩
  simp [documentOf, htokens, hfirst, hofRoot]

theorem documentOf_leaf (v : Leaf) :
    ∃ d, documentOf (print v.toJson) = some (some d) ∧ d.root = v.node :=
  documentOf_of_tokens (tokens_leaf v) (.inr (.inr ⟨_, _, rfl⟩)) (nodeFrom_scalar ..)
    (numbered_leaf v [])

theorem documentOf_leaves {fs : Leaves} (hne : fs ≠ []) (h : fs.HasKeys) :
    ∃ d, documentOf (print (.object fs.toFields)) = some (some d) ∧ d.root = fs.node := by
  obtain ⟨f, fs, rfl⟩ := List.exists_cons_of_ne_nil hne
  have hlength : (f :: fs).length ≤ (Leaves.tokens (f :: fs)).length := by
    simp [Leaves.tokens]
    omega
  refine documentOf_of_tokens (tokens_leaves h) (.inl rfl)
    (nodeFrom_leaves _ _ (f :: fs) [.streamEnd] ?_) (numbered_leaves _ [])
  simp only [List.length_cons, List.length_append] at hlength ⊢
  omega

theorem tokens_tree_nil : tokens (print (.object (Tree.toFields []))) =
    some [.flowMappingStart, .flowMappingEnd, .streamEnd] := by decide +kernel

/-- **The document of a mapping of lists.** The empty mapping is written in braces. -/
theorem documentOf_tree {t : Tree} (h : t.IsPrinted) :
    ∃ d, documentOf (print (.object t.toFields)) = some (some d) ∧ d.root = t.node := by
  cases t with
  | nil =>
    exact documentOf_of_tokens tokens_tree_nil (.inr (.inl rfl)) (by rfl) (numbered_tree [] [])
  | cons s t =>
    refine documentOf_of_tokens (tokens_tree h) (.inl rfl)
      (nodeFrom_mapping (blockEntries_tree h.items [.streamEnd] ?_)) (numbered_tree _ [])
    simp only [List.length_cons, List.length_append]
    omega

end Methodology.Yaml
