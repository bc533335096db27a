import Methodology.Proofs.Yaml.Lexer

/-!
# The lexer on a printed mapping

What is printed is a flag or a text, a mapping of such, or a mapping of lists of such mappings.

* `Leaf`, `Leaves`, `Tree`: what is printed, and the tokens that stand for it.
* `leads_field`, **`leads_leaves`**: the lexer on a mapping of flags and texts.
* **`leads_items`**, **`leads_sections`**: the lexer on lists of such mappings, and on a mapping of
  such lists.
* `streamEnd_mapping`, `streamEnd_scalar`: the end of the stream.
-/

namespace Methodology.Yaml

/-! ## What is printed -/

/-- A flag or a text. -/
inductive Leaf
  | flag (b : Bool)
  | text (s : String)

/-- A mapping of flags and texts. -/
abbrev Leaves := List (String × Leaf)

/-- A mapping of lists of mappings. -/
abbrev Tree := List (String × List Leaves)

/-- The characters of a flag. -/
def flagChars (b : Bool) : List Char := if b then "true".toList else "false".toList

/-- The token of a key. -/
def keyToken (k : String) : Token := .scalar .plain k.toList

namespace Leaf

/-- The data value. -/
def toJson : Leaf → Json
  | flag b => .bool b
  | text s => .string s

/-- How the scalar is written. -/
def style : Leaf → Style
  | flag _ => .plain
  | text s => if styleOf s.toList = .plain then .plain else .quoted

/-- The characters of the scalar. -/
def chars : Leaf → List Char
  | flag b => flagChars b
  | text s => s.toList

/-- The token. -/
def token (v : Leaf) : Token := .scalar v.style v.chars

end Leaf

namespace Leaves

/-- The fields as data values. -/
def toFields (fs : Leaves) : List (String × Json) := fs.map fun f => (f.1, f.2.toJson)

/-- The tokens between the start and the end of the mapping. -/
def tokens (fs : Leaves) : List Token :=
  fs.flatMap fun f => [.key, keyToken f.1, .value, f.2.token]

/-- The keys may stand in front of a colon. -/
def HasKeys (fs : Leaves) : Prop := ∀ f ∈ fs, Lexer.IsKey f.1.toList

end Leaves

namespace Tree

/-- The tokens of the items of a list. -/
def itemTokens (items : List Leaves) : List Token :=
  items.flatMap fun fs => .blockEntry :: .blockMappingStart :: (fs.tokens ++ [.blockEnd])

/-- The tokens between the start and the end of the mapping. -/
def tokens (t : Tree) : List Token :=
  t.flatMap fun s => .key :: keyToken s.1 :: .value :: itemTokens s.2

/-- The items of a list as data values. -/
def toItems (items : List Leaves) : List Json := items.map fun fs => .object fs.toFields

/-- The fields as data values. -/
def toFields (t : Tree) : List (String × Json) := t.map fun s => (s.1, .array (toItems s.2))

/-- The lists are not empty, nor are their items, and the keys may stand in front of a colon. -/
structure IsPrinted (t : Tree) : Prop where
  keys : ∀ s ∈ t, Lexer.IsKey s.1.toList
  items : ∀ s ∈ t, s.2 ≠ []
  fields : ∀ s ∈ t, ∀ fs ∈ s.2, fs ≠ [] ∧ Leaves.HasKeys fs

end Tree

/-! ## Scalars on their lines -/

theorem isPlain_flagChars (b : Bool) : IsPlain (flagChars b) := by
  cases b <;> exact isPlain_of_word (by decide) (by decide) (by decide)

theorem scalarLine_toJson (n : Nat) (v : Leaf) : scalarLine n v.toJson = match v with
    | .flag b => flagChars b ++ ['\n']
    | .text s => ended (scalarChars n s.toList) := by
  rcases v with (_ | _) | s <;> rfl

theorem startsLine_of_isPlain {s : List Char} (hs : IsPlain s) (rest : List Char) :
    Lexer.StartsLine (s ++ rest) := by
  obtain ⟨x, s, rfl⟩ := List.exists_cons_of_ne_nil hs.ne_nil
  intro y hy
  obtain rfl : x = y := by simpa using hy
  have hprint := hs.prints x List.mem_cons_self
  refine ⟨⟨?_, hs.unbroken x List.mem_cons_self⟩, ?_, ne_of_isPrintable hprint rfl⟩
  · rw [isBlank_eq_isSpace hprint, hs.head x rfl]
  · rintro rfl
    exact hs.isWords.head_ne_hash rfl

theorem startsLine_scalarLine (n : Nat) (v : Leaf) (rest : List Char) :
    Lexer.StartsLine (scalarLine n v.toJson ++ rest) := by
  have hmark : ∀ {x : Char} {cs : List Char}, (isBlank x = false ∧ isBreak x = false) ∧ x ≠ '#' ∧
      x ≠ Lexer.byteOrderMark → Lexer.StartsLine (x :: cs) := by
    intro x cs hx y hy
    obtain rfl : x = y := by simpa using hy
    exact hx
  cases v with
  | flag b =>
    rw [scalarLine_toJson]
    simp only [List.append_assoc]
    exact startsLine_of_isPlain (isPlain_flagChars b) _
  | text s =>
    rw [scalarLine_toJson]
    simp only
    cases hstyle : styleOf s.toList with
    | plain =>
      have hs := (isPlain_of_styleOf hstyle).1
      rw [scalarChars, hstyle]
      simp only [ended]
      split_ifs
      · exact startsLine_of_isPlain hs _
      · rw [List.append_assoc]
        exact startsLine_of_isPlain hs _
    | single =>
      obtain ⟨t, ht⟩ := exists_ended_cons '\'' (singleChars n false s.toList ++ ['\''])
      rw [scalarChars, hstyle]
      simp only [List.cons_append, ht]
      exact hmark ⟨⟨rfl, rfl⟩, by decide, by decide⟩
    | double =>
      obtain ⟨t, ht⟩ := exists_ended_cons '"' (s.toList.flatMap doubleChar ++ ['"'])
      rw [scalarChars, hstyle]
      simp only [List.cons_append, ht]
      exact hmark ⟨⟨rfl, rfl⟩, by decide, by decide⟩
    | literal =>
      obtain ⟨t, ht⟩ := exists_ended_cons '|' (literalIndent s.toList ++ literalChomp s.toList ++
        '\n' :: literalChars n true s.toList)
      rw [scalarChars, hstyle]
      simp only [List.cons_append, ht]
      exact hmark ⟨⟨rfl, rfl⟩, by decide, by decide⟩

namespace Lexer

theorem takesScalar_leaf (ts : List Token) (outer : List Int) (allowed : Bool) (v : Leaf)
    {c : Cursor} {indent : Int} {rest : List Char} {i n : Nat}
    (hn : n = (max indent 0).toNat + 2)
    (h : c.rest = scalarLine n v.toJson ++ (spaces i ++ rest)) (hrest : StartsLine rest)
    (hallowed : allowed = true → indent ≠ c.column) (hcolumn : indent < c.column)
    (hi : (i : Int) ≤ indent ∨ i = 0 ∧ rest = []) :
    TakesScalar c ts indent outer allowed v.token i rest := by
  rw [scalarLine_toJson] at h
  cases v with
  | flag b =>
    rw [List.append_assoc, List.singleton_append] at h
    exact takesScalar_plain (isPlain_flagChars b) h hrest hallowed hcolumn (hi.imp id And.right)
  | text s => exact takesScalar_text hn h hrest hallowed hcolumn hi

/-! ## Mappings of flags and texts -/

theorem step_leaf (ts : List Token) (outer : List Int) {c : Cursor} {indent : Int} {v : Leaf}
    {rest : List Char} {i n : Nat} (hn : n = (max indent 0).toNat + 2)
    (h : c.rest = ' ' :: (scalarLine n v.toJson ++ (spaces i ++ rest))) (hrest : StartsLine rest)
    (hindent : indent ≤ c.column) (hi : (i : Int) ≤ indent) :
    ∃ l c', step ⟨c, ts, indent, outer, false, none, []⟩ = some l ∧
      l.cursor.rest.length < c.rest.length ∧ l.tokens = v.token :: ts ∧
      l.Reaches ⟨c', v.token :: ts, indent, outer, true, none, []⟩ ∧ c'.rest = rest ∧
      c'.column = i := by
  have hspace : c.rest = spaces 1 ++ (scalarLine n v.toJson ++ (spaces i ++ rest)) := h
  have hreach := reaches_spaces (l := ⟨c, ts, indent, outer, false, none, []⟩) hspace
    (startsLine_scalarLine n v _)
  have hcolumn : indent < (c.skip 1).column := by simp only [Cursor.column_skip]; omega
  have hstands := hreach.stands_of_le (Int.le_of_lt hcolumn)
  have hnext := Cursor.rest_skip_spaces hspace
  obtain ⟨x, l, c', k, hpeek, hstep, hlt, htokens, hreach', hrest', hcol', -, hnone⟩ :=
    takesScalar_leaf ts outer false v hn hnext hrest
      (fun h => by cases h) hcolumn (.inl hi)
  obtain rfl := hnone rfl
  refine ⟨l, c', (hstands.some x hpeek).trans hstep, ?_, htokens, hreach', hrest', hcol'⟩
  rw [hnext] at hlt
  rw [h, List.length_cons]
  omega

theorem leads_key {l : Lexer} {c : Cursor} {ts : List Token} {indent : Int} {outer : List Int}
    {k : String} {x : Char} {rest : List Char} (hk : IsKey k.toList)
    (hl : l.Stands ⟨c, ts, indent, outer, true, none, []⟩) (hindent : indent ≤ c.column)
    (h : c.rest = k.toList ++ ':' :: x :: rest) (hx : isBlank x || isBreak x) :
    Leads l ⟨(c.skip k.toList.length).skip 1, .value :: keyToken k :: .key ::
      (if indent = c.column then ts else .blockMappingStart :: ts), c.column,
      if indent = c.column then outer else indent :: outer, false, none, []⟩ := by
  obtain ⟨y, hy⟩ : ∃ y, k.toList.head? = some y := by
    obtain ⟨y, cs, hcs⟩ := List.exists_cons_of_ne_nil hk.plain.ne_nil
    exact ⟨y, by rw [hcs]; rfl⟩
  have hpeek : c.peek = some y := by
    obtain ⟨cs, hcs⟩ := List.head?_eq_some_iff.mp hy
    rw [Cursor.peek, h, hcs]
    rfl
  have hpos : 0 < k.toList.length := List.length_pos_iff.mpr hk.plain.ne_nil
  have hkey := (hl.some y hpeek).trans (stepAt_key hk h hy hx)
  have hcolon := step_colon ts outer (indent == c.column) hk h hindent hx
  have hnext := Cursor.rest_skip h
  have hnext' := Cursor.rest_skip_one hnext
  refine .step hkey ?_ (fun heq => by cases heq) (.step hcolon ?_ (fun heq => by cases heq)
    (.refl _))
  · have hle := hl.le
    simp only [h, List.length_append] at hle
    simp only [hnext]
    omega
  · simp only [hnext, hnext', List.length_cons]
    omega

theorem leads_field {l : Lexer} {c : Cursor} {ts : List Token} {indent : Int} {outer : List Int}
    {k : String} {v : Leaf} {rest : List Char} {i : Nat} (hk : IsKey k.toList)
    (hl : l.Stands ⟨c, ts, indent, outer, true, none, []⟩) (hindent : indent ≤ c.column)
    (h : c.rest = k.toList ++ ':' :: ' ' ::
      (scalarLine (c.column + 2) v.toJson ++ (spaces i ++ rest)))
    (hrest : StartsLine rest) (hi : i ≤ c.column) :
    ∃ l' c', Leads l l' ∧ l'.Reaches ⟨c', v.token :: .value :: keyToken k :: .key ::
        (if indent = c.column then ts else .blockMappingStart :: ts), c.column,
        if indent = c.column then outer else indent :: outer, true, none, []⟩ ∧
      c'.rest = rest ∧ c'.column = i := by
  have hkey := leads_key hk hl hindent h rfl
  have hrest₃ := Cursor.rest_skip_one (Cursor.rest_skip h)
  obtain ⟨l', c', hstep, hlt, htokens, hreach, hrest', hcol'⟩ := step_leaf
    (.value :: keyToken k :: .key :: (if indent = c.column then ts else .blockMappingStart :: ts))
    (if indent = c.column then outer else indent :: outer)
    (show c.column + 2 = (max (c.column : Int) 0).toNat + 2 by omega) hrest₃ hrest
    (by simp only [Cursor.column_skip]; omega) (by omega)
  refine ⟨l', c', hkey.trans (.step hstep hlt ?_ (.refl l')), hreach, hrest', hcol'⟩
  rw [htokens]
  cases v <;> exact fun heq => by cases heq

theorem fieldLines_leaves (indent : Nat) (f : String × Leaf) (fs : Leaves) :
    fieldLines indent (Leaves.toFields (f :: fs)) = f.1.toList ++ ':' :: ' ' ::
      (scalarLine (indent + 2) f.2.toJson ++ moreFields indent (Leaves.toFields fs)) := by
  obtain ⟨k, _ | _⟩ := f <;>
    simp [Leaves.toFields, fieldLines, underKey, Leaf.toJson]

theorem moreFields_leaves (indent : Nat) (f : String × Leaf) (fs : Leaves) :
    moreFields indent (Leaves.toFields (f :: fs)) =
      spaces indent ++ fieldLines indent (Leaves.toFields (f :: fs)) := by
  simp [Leaves.toFields, fieldLines, moreFields]

theorem startsLine_fieldLines {k : String} (hk : IsKey k.toList) (indent : Nat) (v : Json)
    (fs : List (String × Json)) (rest : List Char) :
    StartsLine (fieldLines indent ((k, v) :: fs) ++ rest) := by
  rw [fieldLines, List.append_assoc, List.append_assoc]
  exact startsLine_of_isPlain hk.plain _

/-- **The fields of a mapping**, the first of which may open it. -/
theorem leads_leaves {l : Lexer} {c : Cursor} {ts : List Token} {indent : Int} {outer : List Int}
    {f : String × Leaf} {fs : Leaves} {rest : List Char} {i : Nat}
    (hkeys : Leaves.HasKeys (f :: fs)) (hl : l.Stands ⟨c, ts, indent, outer, true, none, []⟩)
    (hindent : indent ≤ c.column)
    (h : c.rest = fieldLines c.column (Leaves.toFields (f :: fs)) ++ (spaces i ++ rest))
    (hrest : StartsLine rest) (hi : i ≤ c.column) :
    ∃ l' c', Leads l l' ∧ l'.Reaches ⟨c', (Leaves.tokens (f :: fs)).reverse ++
        (if indent = c.column then ts else .blockMappingStart :: ts), c.column,
        if indent = c.column then outer else indent :: outer, true, none, []⟩ ∧
      c'.rest = rest ∧ c'.column = i := by
  induction fs generalizing f l c ts indent outer with
  | nil =>
    have hk := hkeys f List.mem_cons_self
    rw [fieldLines_leaves, List.append_assoc, List.cons_append, List.cons_append,
      List.append_assoc] at h
    obtain ⟨l', c', hleads, hreach, hend⟩ := leads_field hk hl hindent h hrest hi
    exact ⟨l', c', hleads, hreach, hend⟩
  | cons g fs ih =>
    have hk := hkeys f List.mem_cons_self
    have hkeys' : Leaves.HasKeys (g :: fs) := fun x hx => hkeys x (List.mem_cons_of_mem f hx)
    rw [fieldLines_leaves, moreFields_leaves, List.append_assoc, List.cons_append,
      List.cons_append, List.append_assoc, List.append_assoc] at h
    obtain ⟨l₁, c₁, hleads, hreach, hrest₁, hcol₁⟩ := leads_field hk hl hindent h
      (startsLine_fieldLines (hkeys' g List.mem_cons_self) _ _ _ _) (Nat.le_refl _)
    have hle : (c.column : Int) ≤ c₁.column := by omega
    rw [← hcol₁] at hrest₁ hi
    obtain ⟨l', c', hleads', hreach', hend⟩ := ih hkeys' (hreach.stands_of_le hle) hle hrest₁ hi
    refine ⟨l', c', hleads.trans hleads', ?_, hend⟩
    have htokens : (Leaves.tokens (f :: g :: fs)).reverse =
        (Leaves.tokens (g :: fs)).reverse ++ [f.2.token, .value, keyToken f.1, .key] := by
      rw [Leaves.tokens, List.flatMap_cons, List.reverse_append]
      rfl
    simp only [hcol₁, if_true] at hreach'
    rw [htokens, List.append_assoc]
    exact hreach'

/-! ## Lists of mappings -/

theorem itemLines_items (indent : Nat) (f : String × Leaf) (fs : Leaves) (items : List Leaves) :
    itemLines indent (Tree.toItems ((f :: fs) :: items)) = '-' :: ' ' ::
      (fieldLines (indent + 2) (Leaves.toFields (f :: fs)) ++
        moreItems indent (Tree.toItems items)) := by
  simp [Tree.toItems, itemLines, Leaves.toFields, inPlace]

theorem moreItems_items (fs : Leaves) (items : List Leaves) :
    moreItems 0 (Tree.toItems (fs :: items)) = itemLines 0 (Tree.toItems (fs :: items)) := by
  simp [Tree.toItems, itemLines, moreItems, spaces]

theorem stepAt_entry {c : Cursor} {ts : List Token} {outer : List Int} {rest : List Char}
    (h : c.rest = '-' :: ' ' :: rest) (hcolumn : c.column = 0) :
    stepAt ⟨c, ts, 0, outer, true, none, []⟩ '-' =
      some ⟨c.skip 1, .blockEntry :: ts, 0, outer, true, none, []⟩ := by
  have hpeek : c.peek = some '-' := by rw [Cursor.peek, h]; rfl
  have hnext : c.peekAt 1 = some ' ' := by rw [Cursor.peekAt, h]; rfl
  have hends : endsWord (some ' ') = true := rfl
  simp [stepAt, Cursor.atMarker, hpeek, hnext, hends, inFlow, blockEntry, roll, hcolumn, dropKey,
    emit, skip]

theorem leads_item {l : Lexer} {c : Cursor} {ts : List Token} {outer : List Int}
    {f : String × Leaf} {fs : Leaves} {rest : List Char} (hkeys : Leaves.HasKeys (f :: fs))
    (hl : l.Stands ⟨c, ts, 0, outer, true, none, []⟩) (hcolumn : c.column = 0)
    (h : c.rest = '-' :: ' ' :: (fieldLines 2 (Leaves.toFields (f :: fs)) ++ rest))
    (hrest : StartsLine rest) :
    ∃ l' c', Leads l l' ∧ l'.Stands ⟨c', .blockEnd :: ((Leaves.tokens (f :: fs)).reverse ++
        .blockMappingStart :: .blockEntry :: ts), 0, outer, true, none, []⟩ ∧
      c'.rest = rest ∧ c'.column = 0 := by
  have hpeek : c.peek = some '-' := by rw [Cursor.peek, h]; rfl
  have hentry := (hl.some '-' hpeek).trans (stepAt_entry h hcolumn)
  have hnext : (c.skip 1).rest = spaces 1 ++ (fieldLines 2 (Leaves.toFields (f :: fs)) ++ rest) :=
    Cursor.rest_skip_one h
  have hlead : Leads l ⟨c.skip 1, .blockEntry :: ts, 0, outer, true, none, []⟩ := by
    refine .step hentry ?_ (fun heq => by cases heq) (.refl _)
    have hle := hl.le
    simp only [h, List.length_cons] at hle
    simp only [Cursor.rest_skip_one h, List.length_cons]
    omega
  have hreach := reaches_spaces (l := ⟨c.skip 1, .blockEntry :: ts, 0, outer, true, none, []⟩) hnext
    (startsLine_fieldLines (hkeys f List.mem_cons_self) _ _ _ _)
  obtain ⟨c₁, hc₁⟩ : ∃ c₁, c₁ = (c.skip 1).skip 1 := ⟨_, rfl⟩
  have hcol₁ : c₁.column = 2 := by simp [hc₁, hcolumn]
  have hrest₁ : c₁.rest =
      fieldLines c₁.column (Leaves.toFields (f :: fs)) ++ (spaces 0 ++ rest) := by
    rw [hcol₁, hc₁, Cursor.rest_skip_spaces hnext]
    rfl
  rw [← hc₁] at hreach
  have hle : (0 : Int) ≤ c₁.column := by omega
  have hne : (0 : Int) ≠ c₁.column := by omega
  obtain ⟨l', c', hleads, hreach', hrest', hcol'⟩ := leads_leaves hkeys (hreach.stands_of_le hle)
    hle hrest₁ hrest (Nat.zero_le _)
  rw [if_neg hne, if_neg hne] at hreach'
  have haround : (0 : Int) ≤ c'.column := by omega
  have hstands := hreach'.stands_of_lt (by omega) haround
  exact ⟨l', c', hlead.trans hleads, hstands, hrest', hcol'⟩

theorem startsLine_itemLines (fs : Leaves) (items : List Leaves) (rest : List Char) :
    StartsLine (itemLines 0 (Tree.toItems (fs :: items)) ++ rest) := by
  intro x hx
  obtain rfl : '-' = x := by simpa [Tree.toItems, itemLines] using hx
  exact ⟨⟨rfl, rfl⟩, by decide, by decide⟩

theorem itemTokens_reverse (fs : Leaves) (items : List Leaves) (ts : List Token) :
    (Tree.itemTokens (fs :: items)).reverse ++ ts = (Tree.itemTokens items).reverse ++
      .blockEnd :: (fs.tokens.reverse ++ .blockMappingStart :: .blockEntry :: ts) := by
  simp [Tree.itemTokens]

theorem leads_items {l : Lexer} {c : Cursor} {ts : List Token} {outer : List Int}
    {fs : Leaves} {items : List Leaves} {rest : List Char}
    (hitems : ∀ x ∈ fs :: items, x ≠ [] ∧ Leaves.HasKeys x)
    (hl : l.Stands ⟨c, ts, 0, outer, true, none, []⟩) (hcolumn : c.column = 0)
    (h : c.rest = itemLines 0 (Tree.toItems (fs :: items)) ++ rest) (hrest : StartsLine rest) :
    ∃ l' c', Leads l l' ∧ l'.Stands ⟨c', (Tree.itemTokens (fs :: items)).reverse ++ ts, 0, outer,
      true, none, []⟩ ∧ c'.rest = rest ∧ c'.column = 0 := by
  induction items generalizing fs l c ts with
  | nil =>
    obtain ⟨hne, hkeys⟩ := hitems fs List.mem_cons_self
    obtain ⟨f, fs, rfl⟩ := List.exists_cons_of_ne_nil hne
    rw [itemLines_items, List.cons_append, List.cons_append, List.append_assoc] at h
    obtain ⟨l', c', hleads, hstands, hend⟩ := leads_item hkeys hl hcolumn h hrest
    rw [itemTokens_reverse]
    exact ⟨l', c', hleads, hstands, hend⟩
  | cons g items ih =>
    obtain ⟨hne, hkeys⟩ := hitems fs List.mem_cons_self
    obtain ⟨f, fs, rfl⟩ := List.exists_cons_of_ne_nil hne
    rw [itemLines_items, moreItems_items, List.cons_append, List.cons_append,
      List.append_assoc] at h
    obtain ⟨l₁, c₁, hleads, hstands, hrest₁, hcol₁⟩ := leads_item hkeys hl hcolumn h
      (startsLine_itemLines g items rest)
    obtain ⟨l', c', hleads', hstands', hend⟩ := ih
      (fun x hx => hitems x (List.mem_cons_of_mem _ hx)) hstands hcol₁ hrest₁
    rw [itemTokens_reverse]
    exact ⟨l', c', hleads.trans hleads', hstands', hend⟩

/-! ## Mappings of lists -/

theorem fieldLines_tree (k : String) (fs : Leaves) (items : List Leaves) (t : Tree) :
    fieldLines 0 (Tree.toFields ((k, fs :: items) :: t)) = k.toList ++ ':' :: '\n' ::
      (itemLines 0 (Tree.toItems (fs :: items)) ++ moreFields 0 (Tree.toFields t)) := by
  simp [Tree.toFields, Tree.toItems, fieldLines, underKey, spaces]

theorem moreFields_tree (s : String × List Leaves) (t : Tree) :
    moreFields 0 (Tree.toFields (s :: t)) = fieldLines 0 (Tree.toFields (s :: t)) := by
  simp [Tree.toFields, fieldLines, moreFields, spaces]

theorem treeTokens_reverse (k : String) (items : List Leaves) (t : Tree) (ts : List Token) :
    (Tree.tokens ((k, items) :: t)).reverse ++ ts = (Tree.tokens t).reverse ++
      ((Tree.itemTokens items).reverse ++ .value :: keyToken k :: .key :: ts) := by
  simp [Tree.tokens]

theorem leads_section {l : Lexer} {c : Cursor} {ts : List Token} {indent : Int} {outer : List Int}
    {k : String} {fs : Leaves} {items : List Leaves} {rest : List Char} (hk : IsKey k.toList)
    (hitems : ∀ x ∈ fs :: items, x ≠ [] ∧ Leaves.HasKeys x)
    (hl : l.Stands ⟨c, ts, indent, outer, true, none, []⟩) (hindent : indent ≤ 0)
    (hcolumn : c.column = 0) (h : c.rest = k.toList ++ ':' :: '\n' ::
      (itemLines 0 (Tree.toItems (fs :: items)) ++ rest)) (hrest : StartsLine rest) :
    ∃ l' c', Leads l l' ∧ l'.Stands ⟨c', (Tree.itemTokens (fs :: items)).reverse ++ .value ::
        keyToken k :: .key :: (if indent = 0 then ts else .blockMappingStart :: ts), 0,
        if indent = 0 then outer else indent :: outer, true, none, []⟩ ∧
      c'.rest = rest ∧ c'.column = 0 := by
  have hzero : (c.column : Int) = 0 := by omega
  have hlead := leads_key hk hl (by omega) h rfl
  rw [hzero] at hlead
  have hnext := Cursor.rest_skip_one (Cursor.rest_skip h)
  obtain ⟨c₁, hreach, hrest₁, hcol₁⟩ := reaches_line (i := 0)
    (l := ⟨(c.skip k.toList.length).skip 1, .value :: keyToken k :: .key ::
      (if indent = 0 then ts else .blockMappingStart :: ts), 0,
      if indent = 0 then outer else indent :: outer, false, none, []⟩) hnext
    (startsLine_itemLines fs items rest) rfl
  have hle : (0 : Int) ≤ c₁.column := by omega
  obtain ⟨l', c', hleads, hstands, hend⟩ := leads_items hitems (hreach.stands_of_le hle) hcol₁
    hrest₁ hrest
  exact ⟨l', c', hlead.trans hleads, hstands, hend⟩

/-- **The lists of a mapping**, the first of which may open it. -/
theorem leads_sections {l : Lexer} {c : Cursor} {ts : List Token} {indent : Int}
    {outer : List Int} {s : String × List Leaves} {t : Tree} (ht : Tree.IsPrinted (s :: t))
    (hl : l.Stands ⟨c, ts, indent, outer, true, none, []⟩) (hindent : indent ≤ 0)
    (hcolumn : c.column = 0) (h : c.rest = fieldLines 0 (Tree.toFields (s :: t))) :
    ∃ l' c', Leads l l' ∧ l'.Stands ⟨c', (Tree.tokens (s :: t)).reverse ++
        (if indent = 0 then ts else .blockMappingStart :: ts), 0,
        if indent = 0 then outer else indent :: outer, true, none, []⟩ ∧ c'.rest = [] := by
  induction t generalizing s l c ts indent outer with
  | nil =>
    obtain ⟨k, items⟩ := s
    have hk := ht.keys (k, items) List.mem_cons_self
    have hall := ht.fields (k, items) List.mem_cons_self
    obtain ⟨fs, items, rfl⟩ := List.exists_cons_of_ne_nil (ht.items _ List.mem_cons_self)
    rw [fieldLines_tree] at h
    obtain ⟨l', c', hleads, hstands, hrest', -⟩ := leads_section hk hall hl hindent hcolumn h
      (fun x hx => by cases hx)
    rw [treeTokens_reverse]
    exact ⟨l', c', hleads, hstands, hrest'⟩
  | cons s' t ih =>
    obtain ⟨k, items⟩ := s
    have hk := ht.keys (k, items) List.mem_cons_self
    have hall := ht.fields (k, items) List.mem_cons_self
    obtain ⟨fs, items, rfl⟩ := List.exists_cons_of_ne_nil (ht.items _ List.mem_cons_self)
    have ht' : Tree.IsPrinted (s' :: t) :=
      ⟨fun x hx => ht.keys x (List.mem_cons_of_mem _ hx),
        fun x hx => ht.items x (List.mem_cons_of_mem _ hx),
        fun x hx => ht.fields x (List.mem_cons_of_mem _ hx)⟩
    rw [fieldLines_tree, moreFields_tree] at h
    have hstart : StartsLine (fieldLines 0 (Tree.toFields (s' :: t))) := by
      rw [← List.append_nil (fieldLines 0 _)]
      exact startsLine_fieldLines (ht'.keys s' List.mem_cons_self) _ _ _ _
    obtain ⟨l₁, c₁, hleads, hstands, hrest₁, hcol₁⟩ := leads_section hk hall hl hindent hcolumn h
      hstart
    obtain ⟨l', c', hleads', hstands', hend⟩ := ih ht' hstands (Int.le_refl 0) hcol₁ hrest₁
    rw [treeTokens_reverse]
    rw [if_pos rfl, if_pos rfl] at hstands'
    exact ⟨l', c', hleads.trans hleads', hstands', hend⟩

/-! ## Whole texts -/

theorem streamEnd_mapping {c : Cursor} (ts : List Token) :
    streamEnd ⟨c, ts, 0, [-1], true, none, []⟩ =
      some ⟨c, .streamEnd :: .blockEnd :: ts, -1, [], true, none, []⟩ := by
  have hunroll : (⟨c, ts, 0, [-1], true, none, []⟩ : Lexer).unroll (-1) =
      ⟨c, .blockEnd :: ts, -1, [], true, none, []⟩ :=
    unroll_of_lt (by decide) (by decide)
  rw [streamEnd, hunroll]
  rfl

theorem streamEnd_scalar {c : Cursor} {ts : List Token} {k : Option KeyStart}
    (hk : k.any KeyStart.required = false) : streamEnd ⟨c, ts, -1, [], true, k, []⟩ =
      some ⟨c, .streamEnd :: ts, -1, [], true, none, []⟩ := by
  have hunroll : (⟨c, ts, -1, [], true, k, []⟩ : Lexer).unroll (-1) =
      ⟨c, ts, -1, [], true, k, []⟩ := unroll_of_le (Int.le_refl _)
  rw [streamEnd, hunroll, dropKey, hk]
  rfl

theorem refreshKey_of_optional {c : Cursor} {k : Option KeyStart}
    (hk : k.any KeyStart.required = false) :
    ∃ k', refreshKey c k = some k' ∧ k'.any KeyStart.required = false := by
  cases k with
  | none => exact ⟨none, rfl, rfl⟩
  | some k =>
    rw [refreshKey]
    split_ifs with hstale hrequired
    · rw [Option.any_some, hrequired] at hk
      cases hk
    · exact ⟨none, rfl, rfl⟩
    · exact ⟨some k, rfl, hk⟩

end Lexer

end Methodology.Yaml
