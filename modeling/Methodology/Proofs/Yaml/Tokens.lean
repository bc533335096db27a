import Methodology.Proofs.Yaml.Mapping

/-!
# The tokens of a printed text

* `Streams`: characters that a stream may hold; all that is printed is made of them.
* `tokens_of_leads`: the tokens of a text that the lexer runs through.
* **`tokens_leaf`**, **`tokens_leaves`**, **`tokens_tree`**: the tokens of what is printed.
-/

namespace Methodology.Yaml

/-! ## Characters of a stream -/

/-- A text that may stand in a stream. -/
def Streams (cs : List Char) : Prop := ∀ c ∈ cs, isStreamChar c

theorem Streams.append {a b : List Char} (ha : Streams a) (hb : Streams b) : Streams (a ++ b) :=
  fun c hc => (List.mem_append.mp hc).elim (ha c) (hb c)

theorem Streams.cons {x : Char} {cs : List Char} (hx : isStreamChar x) (h : Streams cs) :
    Streams (x :: cs) := fun c hc => (List.mem_cons.mp hc).elim (fun heq => heq ▸ hx) (h c)

theorem streams_nil : Streams [] := fun _ hc => absurd hc List.not_mem_nil

theorem streams_of_prints {cs : List Char} (h : Prints cs) : Streams cs :=
  fun c hc => isStreamChar_of_isPrintable (h c hc)

theorem streams_spaces (n : Nat) : Streams (spaces n) :=
  fun _ hc => eq_space_of_mem_spaces hc ▸ rfl

theorem streams_ended {cs : List Char} (h : Streams cs) : Streams (ended cs) := by
  rw [ended]
  split_ifs
  · exact h
  · exact h.append (streams_nil.cons rfl)

theorem streams_capitalHex {width n : Nat} (hn : n < 16 ^ (width + 1)) :
    Streams (capitalHex (width + 1) n) := by
  have hdigit : ∀ d < 16, isStreamChar (Nat.digitChar d).toUpper := by decide
  intro c hc
  rw [capitalHex, Text.hex, Text.padded_toDigits (by decide) hn, List.map_map] at hc
  obtain ⟨d, hd, rfl⟩ := List.mem_map.mp hc
  exact hdigit d (Text.lt_of_mem_places (by decide) hd)

theorem isStreamChar_of_escapedChar? {letter x : Char} (h : escapedChar? letter = some x) :
    isStreamChar letter := by
  unfold escapedChar? at h
  split at h <;> first | rfl | cases h

theorem streams_doubleChar (x : Char) : Streams (doubleChar x) := by
  rw [doubleChar]
  split_ifs with hraw
  · refine Streams.cons rfl ?_
    have hmax : x.toNat < 16 ^ 8 := by
      have hchar : x.toNat.isValidChar := x.valid
      simp only [Nat.isValidChar] at hchar
      omega
    obtain ⟨letter, heq, hletter⟩ | ⟨hx, heq⟩ | ⟨hx, heq⟩ | heq := escapeOf_cases x
    · exact heq ▸ streams_nil.cons (isStreamChar_of_escapedChar? hletter)
    · exact heq ▸ (streams_capitalHex hx).cons rfl
    · exact heq ▸ (streams_capitalHex hx).cons rfl
    · exact heq ▸ (streams_capitalHex hmax).cons rfl
  · simp only [Bool.not_eq_true, Bool.or_eq_false_iff, Bool.not_eq_false'] at hraw
    exact streams_nil.cons (isStreamChar_of_isPrintable hraw.1.1.1)

theorem streams_singleChars (indent : Nat) (after : Bool) {s : List Char} (h : Prints s) :
    Streams (singleChars indent after s) := by
  induction s generalizing after with
  | nil =>
    rw [singleChars]
    split_ifs
    · exact streams_spaces indent
    · exact streams_nil
  | cons c s ih =>
    have hc := isStreamChar_of_isPrintable (h c List.mem_cons_self)
    have hmore := fun after => ih after fun d hd => h d (List.mem_cons_of_mem c hd)
    rw [singleChars]
    split_ifs
    · exact (hmore true).cons hc
    · exact ((streams_spaces indent).append (.cons rfl (.cons rfl streams_nil))).append
        (hmore false)
    · exact ((streams_spaces indent).append (streams_nil.cons hc)).append (hmore false)
    · exact (streams_nil.append (.cons rfl (.cons rfl streams_nil))).append (hmore false)
    · exact (streams_nil.append (streams_nil.cons hc)).append (hmore false)

theorem streams_literalChars (indent : Nat) (after : Bool) {s : List Char} (h : Prints s) :
    Streams (literalChars indent after s) := by
  induction s generalizing after with
  | nil => exact streams_nil
  | cons c s ih =>
    have hc := isStreamChar_of_isPrintable (h c List.mem_cons_self)
    have hmore := fun after => ih after fun d hd => h d (List.mem_cons_of_mem c hd)
    rw [literalChars]
    split_ifs
    · exact (hmore true).cons hc
    · exact (streams_spaces indent).append ((hmore false).cons hc)
    · exact streams_nil.append ((hmore false).cons hc)

theorem streams_scalarChars (indent : Nat) (s : List Char) : Streams (scalarChars indent s) := by
  rw [scalarChars]
  cases hstyle : styleOf s with
  | plain => exact streams_of_prints (isPlain_of_styleOf hstyle).1.prints
  | single =>
    exact ((streams_singleChars indent false (isSingle_of_styleOf hstyle).prints).cons rfl).append
      (streams_nil.cons rfl)
  | double =>
    refine (Streams.cons rfl fun c hc => ?_).append (streams_nil.cons rfl)
    obtain ⟨x, -, hx⟩ := List.mem_flatMap.mp hc
    exact streams_doubleChar x c hx
  | literal =>
    have hs := isLiteral_of_styleOf hstyle
    have hind : Streams (literalIndent s) := by
      rcases literalIndent_cases s with ⟨h, -⟩ | h
      · exact h ▸ streams_nil
      · exact h ▸ streams_nil.cons rfl
    have hsign : Streams (literalChomp s) := by
      rcases literalChomp_cases hs.ne_nil with ⟨h, -⟩ | ⟨h, -⟩ | ⟨h, -⟩
      · exact h ▸ streams_nil.cons rfl
      · exact h ▸ streams_nil
      · exact h ▸ streams_nil.cons rfl
    exact ((hind.cons rfl).append hsign).append
      ((streams_literalChars indent true hs.prints).cons rfl)

theorem streams_scalarLine (n : Nat) (v : Leaf) : Streams (scalarLine n v.toJson) := by
  rw [scalarLine_toJson]
  cases v with
  | flag b => exact (streams_of_prints (isPlain_flagChars b).prints).append (streams_nil.cons rfl)
  | text s => exact streams_ended (streams_scalarChars n s.toList)

theorem streams_fieldLines (indent : Nat) {f : String × Leaf} {fs : Leaves}
    (h : Leaves.HasKeys (f :: fs)) : Streams (fieldLines indent (Leaves.toFields (f :: fs))) := by
  induction fs generalizing f with
  | nil =>
    have hk := streams_of_prints (h f List.mem_cons_self).plain.prints
    rw [Lexer.fieldLines_leaves]
    exact hk.append (.cons rfl (.cons rfl ((streams_scalarLine _ _).append streams_nil)))
  | cons g fs ih =>
    have hk := streams_of_prints (h f List.mem_cons_self).plain.prints
    have hmore := ih fun x hx => h x (List.mem_cons_of_mem f hx)
    rw [Lexer.fieldLines_leaves, Lexer.moreFields_leaves]
    exact hk.append (.cons rfl (.cons rfl ((streams_scalarLine _ _).append
      ((streams_spaces _).append hmore))))

theorem streams_itemLines {fs : Leaves} {items : List Leaves}
    (h : ∀ x ∈ fs :: items, x ≠ [] ∧ Leaves.HasKeys x) :
    Streams (itemLines 0 (Tree.toItems (fs :: items))) := by
  induction items generalizing fs with
  | nil =>
    obtain ⟨hne, hkeys⟩ := h fs List.mem_cons_self
    obtain ⟨f, fs, rfl⟩ := List.exists_cons_of_ne_nil hne
    rw [Lexer.itemLines_items]
    exact .cons rfl (.cons rfl ((streams_fieldLines _ hkeys).append streams_nil))
  | cons g items ih =>
    obtain ⟨hne, hkeys⟩ := h fs List.mem_cons_self
    obtain ⟨f, fs, rfl⟩ := List.exists_cons_of_ne_nil hne
    rw [Lexer.itemLines_items, Lexer.moreItems_items]
    exact .cons rfl (.cons rfl ((streams_fieldLines _ hkeys).append
      (ih fun x hx => h x (List.mem_cons_of_mem _ hx))))

theorem Tree.IsPrinted.tail {s : String × List Leaves} {t : Tree} (h : IsPrinted (s :: t)) :
    IsPrinted t :=
  ⟨fun x hx => h.keys x (List.mem_cons_of_mem s hx),
    fun x hx => h.items x (List.mem_cons_of_mem s hx),
    fun x hx => h.fields x (List.mem_cons_of_mem s hx)⟩

theorem streams_tree {s : String × List Leaves} {t : Tree} (h : Tree.IsPrinted (s :: t)) :
    Streams (fieldLines 0 (Tree.toFields (s :: t))) := by
  induction t generalizing s with
  | nil =>
    obtain ⟨k, items⟩ := s
    have hk := streams_of_prints (h.keys (k, items) List.mem_cons_self).plain.prints
    have hall := h.fields (k, items) List.mem_cons_self
    obtain ⟨fs, items, rfl⟩ := List.exists_cons_of_ne_nil (h.items _ List.mem_cons_self)
    rw [Lexer.fieldLines_tree]
    exact hk.append (.cons rfl (.cons rfl ((streams_itemLines hall).append streams_nil)))
  | cons s' t ih =>
    obtain ⟨k, items⟩ := s
    have hk := streams_of_prints (h.keys (k, items) List.mem_cons_self).plain.prints
    have hall := h.fields (k, items) List.mem_cons_self
    obtain ⟨fs, items, rfl⟩ := List.exists_cons_of_ne_nil (h.items _ List.mem_cons_self)
    rw [Lexer.fieldLines_tree, Lexer.moreFields_tree]
    exact hk.append (.cons rfl (.cons rfl ((streams_itemLines hall).append (ih h.tail))))

/-! ## The tokens -/

theorem tokens_of_leads {chars : List Char} {l l' : Lexer} {ts : List Token}
    (hchars : Streams chars) (hlead : (Lexer.start chars).Leads l) (hstep : l.step = some l')
    (htokens : l'.tokens = .streamEnd :: ts) :
    tokens (String.ofList chars) = some (ts.reverse ++ [.streamEnd]) := by
  have hall : chars.all isStreamChar = true := List.all_eq_true.mpr hchars
  have hrun := Lexer.run_of_leads hlead hstep (by rw [htokens]; rfl) (chars.length + 2)
    (show chars.length < chars.length + 2 by omega)
  simp only [tokens, String.toList_ofList, hall, if_true, hrun, Option.map_some, htokens,
    List.reverse_cons]

theorem stands_start {chars : List Char} (h : Lexer.StartsLine chars) :
    (Lexer.start chars).Stands (Lexer.start chars) :=
  Lexer.Reaches.stands_of_le (Lexer.reaches_here (l := Lexer.start chars) h)
    (show (-1 : Int) ≤ (0 : Nat) by decide)

theorem tokens_leaf (v : Leaf) : tokens (print v.toJson) = some [v.token, .streamEnd] := by
  have hprint : printChars v.toJson = scalarLine 2 v.toJson := by cases v <;> rfl
  have happ : scalarLine 2 v.toJson = scalarLine 2 v.toJson ++ (spaces 0 ++ []) := by simp [spaces]
  have hstart : Lexer.StartsLine (scalarLine 2 v.toJson) := by
    rw [happ]
    exact startsLine_scalarLine 2 v _
  obtain ⟨x, l, c, k, hpeek, hstep, hlt, htokens, hreach, hrest, hcol, hk, -⟩ :=
    Lexer.takesScalar_leaf (c := Cursor.start (scalarLine 2 v.toJson)) [] [] true v
      (show 2 = (max (-1 : Int) 0).toNat + 2 by decide) happ
      (fun y hy => by cases hy) (fun _ => show (-1 : Int) ≠ (0 : Nat) by decide)
      (show (-1 : Int) < (0 : Nat) by decide) (.inr ⟨rfl, rfl⟩)
  obtain ⟨k', hrefresh, hk'⟩ := Lexer.refreshKey_of_optional (c := c) hk
  have hstands := hreach.stands hrefresh
  rw [Lexer.unroll_of_le (by simp only [hcol]; decide)] at hstands
  have hend := (hstands.none (by rw [Cursor.peek, hrest]; rfl)).trans (Lexer.streamEnd_scalar hk')
  have hlead : (Lexer.start (scalarLine 2 v.toJson)).Leads l := by
    refine .step (((stands_start hstart).some x hpeek).trans hstep) hlt ?_ (.refl l)
    rw [htokens]
    cases v <;> exact fun heq => by cases heq
  rw [print, hprint]
  exact tokens_of_leads (streams_scalarLine 2 v) hlead hend rfl

theorem tokens_leaves {f : String × Leaf} {fs : Leaves} (h : Leaves.HasKeys (f :: fs)) :
    tokens (print (.object (Leaves.toFields (f :: fs)))) =
      some (.blockMappingStart :: (Leaves.tokens (f :: fs) ++ [.blockEnd, .streamEnd])) := by
  have hprint : printChars (.object (Leaves.toFields (f :: fs))) =
      fieldLines 0 (Leaves.toFields (f :: fs)) := rfl
  have happ : fieldLines 0 (Leaves.toFields (f :: fs)) =
      fieldLines 0 (Leaves.toFields (f :: fs)) ++ (spaces 0 ++ []) := by simp [spaces]
  have hstart : Lexer.StartsLine (fieldLines 0 (Leaves.toFields (f :: fs))) := by
    rw [happ]
    exact Lexer.startsLine_fieldLines (h f List.mem_cons_self) _ _ _ _
  obtain ⟨l, c, hlead, hreach, hrest, hcol⟩ := Lexer.leads_leaves h (stands_start hstart)
    (show (-1 : Int) ≤ 0 by decide) happ (fun y hy => by cases hy) (Nat.le_refl 0)
  have hstands := hreach.stands_of_le (show (0 : Int) ≤ c.column by omega)
  have hend := (hstands.none (by rw [Cursor.peek, hrest]; rfl)).trans (Lexer.streamEnd_mapping _)
  rw [print, hprint, tokens_of_leads (streams_fieldLines 0 h) hlead hend rfl]
  simp [Cursor.start]

/-- **The tokens of a mapping of lists.** -/
theorem tokens_tree {s : String × List Leaves} {t : Tree} (h : Tree.IsPrinted (s :: t)) :
    tokens (print (.object (Tree.toFields (s :: t)))) =
      some (.blockMappingStart :: (Tree.tokens (s :: t) ++ [.blockEnd, .streamEnd])) := by
  have hprint : printChars (.object (Tree.toFields (s :: t))) =
      fieldLines 0 (Tree.toFields (s :: t)) := rfl
  have hstart : Lexer.StartsLine (fieldLines 0 (Tree.toFields (s :: t))) := by
    rw [← List.append_nil (fieldLines 0 _)]
    exact Lexer.startsLine_fieldLines (h.keys s List.mem_cons_self) _ _ _ _
  obtain ⟨l, c, hlead, hstands, hrest⟩ := Lexer.leads_sections h (stands_start hstart)
    (show (-1 : Int) ≤ 0 by decide) rfl rfl
  have hend := (hstands.none (by rw [Cursor.peek, hrest]; rfl)).trans (Lexer.streamEnd_mapping _)
  rw [print, hprint, tokens_of_leads (streams_tree h) hlead hend rfl]
  simp

end Methodology.Yaml
