import Methodology.Proofs.Json.Text

/-!
# Data values are read back

* `Json.sorted`: a value with the fields of its mappings in the order of their keys.
* `Json.Fits`: a value without numbers whose lists and mappings are nested no deeper than a bound.
* `itemsFrom_items`, `fieldsFrom_fields`: items and fields are read one by one.
* **`read_pretty`**: the text of a value over several lines is read as the sorted value.
-/

namespace Methodology.Json

open Text Result

mutual

/-- The value with the fields of every mapping in the order of their keys. -/
def sorted : Json → Json
  | array items => array (sortedItems items)
  | object fields => object (sortFields (sortedFields fields))
  | null => null
  | bool b => bool b
  | number n => number n
  | string s => string s

/-- The sorted items of a list. -/
def sortedItems : List Json → List Json
  | [] => []
  | v :: rest => sorted v :: sortedItems rest

/-- The fields of a mapping in their order, with sorted values. -/
def sortedFields : List (String × Json) → List (String × Json)
  | [] => []
  | (k, v) :: rest => (k, sorted v) :: sortedFields rest

end

theorem sortedItems_eq_map (items : List Json) : sortedItems items = items.map sorted := by
  induction items with
  | nil => rfl
  | cons v rest ih => rw [sortedItems, ih, List.map_cons]

theorem sortedFields_eq_map (fields : List (String × Json)) :
    sortedFields fields = fields.map fun f => (f.1, f.2.sorted) := by
  induction fields with
  | nil => rfl
  | cons f fields ih => rw [sortedFields, ih, List.map_cons]

theorem keys_sortedFields (fields : List (String × Json)) :
    (sortedFields fields).map Prod.fst = fields.map Prod.fst := by
  rw [sortedFields_eq_map, List.map_map]
  rfl

/-- A value without numbers whose lists and mappings stand inside one another at most so often. -/
inductive Fits : Nat → Json → Prop
  | null {depth : Nat} : Fits depth null
  | bool {depth : Nat} (b : Bool) : Fits depth (bool b)
  | string {depth : Nat} (s : String) : Fits depth (string s)
  | array {depth : Nat} {items : List Json} (h : ∀ v ∈ items, Fits depth v) :
    Fits (depth + 1) (array items)
  | object {depth : Nat} {fields : List (String × Json)} (h : ∀ f ∈ fields, Fits depth f.2) :
    Fits (depth + 1) (object fields)

/-! ## Blanks -/

theorem skipBlanks_newline (level : Nat) (cs : List Char) :
    skipBlanks (newline level ++ cs) = skipBlanks cs := by
  have hspaces : ∀ n, skipBlanks (List.replicate n ' ' ++ cs) = skipBlanks cs := by
    intro n
    induction n with
    | zero => rfl
    | succ n ih => exact ih
  exact hspaces (2 * level)

theorem skipBlanks_cons {c : Char} (h : isBlank c = false) (cs : List Char) :
    skipBlanks (c :: cs) = c :: cs := List.dropWhile_cons_of_neg (by simp [h])

/-- **A value starts** with a character that is no blank and ends no list. -/
theorem exists_cons_prettyChars {depth : Nat} {v : Json} (h : Fits depth v) (level : Nat) :
    ∃ c cs, prettyChars level v = c :: cs ∧ isBlank c = false ∧ c ≠ ']' := by
  cases h with
  | null => exact ⟨_, _, rfl, rfl, by decide⟩
  | bool b => cases b <;> exact ⟨_, _, rfl, rfl, by decide⟩
  | string s => exact ⟨_, _, rfl, rfl, by decide⟩
  | @array _ items h => cases items <;> exact ⟨_, _, rfl, rfl, by decide⟩
  | @object _ fields h => cases fields <;> exact ⟨_, _, rfl, rfl, by decide⟩

theorem commaJoined_cons (x : List Char) (xs : List (List Char)) :
    commaJoined (x :: xs) = x ++ xs.flatMap (',' :: ·) := by
  induction xs generalizing x with
  | nil => simp [commaJoined]
  | cons y ys ih => rw [commaJoined, ih, List.flatMap_cons, List.cons_append]

theorem valueFrom_blank {c : Char} (h : isBlank c = true) (fuel depth : Nat) (cs : List Char) :
    valueFrom fuel depth (c :: cs) = valueFrom fuel depth cs := by
  cases fuel with
  | zero => rfl
  | succ fuel =>
    have hskip : skipBlanks (c :: cs) = skipBlanks cs := List.dropWhile_cons_of_pos h
    rw [valueFrom, valueFrom, hskip]

/-! ## Lists and mappings -/

/-- What is known of a value that is read back wherever it stands. -/
def ReadsBack (depth level : Nat) (v : Json) : Prop :=
  ∀ fuel rest, (prettyChars level v).length ≤ fuel →
    valueFrom fuel depth (prettyChars level v ++ rest) = .ok (v.sorted, rest)

theorem skipBlanks_prettyChars {depth : Nat} {v : Json} (h : Fits depth v) (level : Nat)
    (cs : List Char) : skipBlanks (prettyChars level v ++ cs) = prettyChars level v ++ cs := by
  obtain ⟨c, cs', hc, hblank, -⟩ := exists_cons_prettyChars h level
  rw [hc, List.cons_append, skipBlanks_cons hblank]

theorem nextItem_item {depth : Nat} {v : Json} (h : Fits depth v) (level : Nat)
    (cs : List Char) : nextItem true (newline level ++ (prettyChars level v ++ cs)) =
      .ok (some (prettyChars level v ++ cs)) := by
  obtain ⟨c, cs', hc, -, hne⟩ := exists_cons_prettyChars h level
  rw [nextItem, skipBlanks_newline, skipBlanks_prettyChars h, hc, List.cons_append]
  simp only [if_neg hne, if_true]

theorem nextItem_comma {depth : Nat} {v : Json} (h : Fits depth v) (level : Nat)
    (cs : List Char) : nextItem false (',' :: (newline level ++ (prettyChars level v ++ cs))) =
      .ok (some (prettyChars level v ++ cs)) := by
  obtain ⟨c, cs', hc, hblank, hne⟩ := exists_cons_prettyChars h level
  rw [nextItem, skipBlanks_cons rfl, hc, List.cons_append]
  simp [skipBlanks_newline, skipBlanks_cons hblank, hne]

theorem nextItem_end (first : Bool) (level : Nat) (cs : List Char) :
    nextItem first (newline level ++ ']' :: cs) = .ok none := by
  rw [nextItem, skipBlanks_newline, skipBlanks_cons rfl]
  rfl

theorem itemsFrom_step {depth level fuel : Nat} {first : Bool} {v : Json} {cs more : List Char}
    (hnext : nextItem first cs = .ok (some (prettyChars level v ++ more)))
    (h : ReadsBack depth level v) (hfuel : (prettyChars level v).length ≤ fuel) :
    itemsFrom (fuel + 1) depth first cs =
      (itemsFrom fuel depth false more).map fun r => (v.sorted :: r.1, r.2) := by
  rw [itemsFrom, hnext, ok_bind]
  simp only
  rw [h fuel more hfuel, ok_bind]
  rfl

theorem itemsFrom_items {bound depth level : Nat} (outer : Nat) {items : List Json}
    (hfits : ∀ v ∈ items, Fits bound v) (h : ∀ v ∈ items, ReadsBack depth level v)
    (rest : List Char) {fuel : Nat}
    (hfuel : ((prettyItems level items).flatMap (',' :: ·)).length < fuel) :
    itemsFrom fuel depth false
        ((prettyItems level items).flatMap (',' :: ·) ++ (newline outer ++ ']' :: rest)) =
      .ok (sortedItems items, rest) := by
  induction items generalizing fuel with
  | nil =>
    obtain ⟨fuel, rfl⟩ : ∃ n, fuel = n + 1 := ⟨fuel - 1, by omega⟩
    rw [prettyItems, List.flatMap_nil, List.nil_append, itemsFrom, nextItem_end, ok_bind,
      skipBlanks_newline, skipBlanks_cons rfl]
    rfl
  | cons v items ih =>
    obtain ⟨fuel, rfl⟩ : ∃ n, fuel = n + 1 := ⟨fuel - 1, by omega⟩
    simp only [prettyItems, List.flatMap_cons, List.length_append, List.length_cons] at hfuel
    have hrest := ih (fun w hw => hfits w (List.mem_cons_of_mem v hw))
      (fun w hw => h w (List.mem_cons_of_mem v hw)) (show _ < fuel by omega)
    simp only [prettyItems, List.flatMap_cons, List.cons_append, List.append_assoc]
    rw [itemsFrom_step (nextItem_comma (hfits v List.mem_cons_self) level _)
      (h v List.mem_cons_self) (by omega), hrest, map_ok]
    rfl

/-! ## Mappings -/

theorem quotedChars_append (k : String) (cs : List Char) :
    quotedChars k ++ cs = '"' :: (k.toList.flatMap escaped ++ '"' :: cs) := by
  simp [quotedChars]

theorem nextKey_first {gap : List Char} (hgap : ∀ cs, skipBlanks (gap ++ cs) = skipBlanks cs)
    (k : String) (cs : List Char) : nextKey true (gap ++ (quotedChars k ++ cs)) =
      .ok (some (k.toList.flatMap escaped ++ '"' :: cs)) := by
  rw [nextKey, hgap, quotedChars_append, skipBlanks_cons rfl]
  rfl

theorem nextKey_later {gap : List Char} (hgap : ∀ cs, skipBlanks (gap ++ cs) = skipBlanks cs)
    (k : String) (cs : List Char) : nextKey false (',' :: (gap ++ (quotedChars k ++ cs))) =
      .ok (some (k.toList.flatMap escaped ++ '"' :: cs)) := by
  rw [nextKey, skipBlanks_cons rfl, quotedChars_append]
  simp [hgap, skipBlanks_cons (show isBlank '"' = false from rfl)]

theorem nextKey_end (first : Bool) (level : Nat) (cs : List Char) :
    nextKey first (newline level ++ '\x7d' :: cs) = .ok none := by
  rw [nextKey, skipBlanks_newline, skipBlanks_cons rfl]
  rfl

theorem colon_cons (cs : List Char) : colon (':' :: cs) = .ok cs := rfl

theorem fieldsFrom_step {depth level fuel : Nat} {first : Bool} {k : String} {v : Json}
    {cs more : List Char} (hnext : nextKey first cs =
      .ok (some (k.toList.flatMap escaped ++ '"' :: ':' :: ' ' :: (prettyChars level v ++ more))))
    (h : ReadsBack depth level v) (hfuel : (prettyChars level v).length ≤ fuel) :
    fieldsFrom (fuel + 1) depth first cs =
      (fieldsFrom fuel depth false more).map fun r => ((k, v.sorted) :: r.1, r.2) := by
  rw [fieldsFrom, hnext, ok_bind]
  simp only
  rw [stringFrom_escaped, ok_bind]
  simp only
  rw [colon_cons, ok_bind, valueFrom_blank rfl, h fuel more hfuel, ok_bind]
  rfl

theorem fieldsFrom_fields {depth level : Nat} (outer : Nat) {fields : List (String × Json)}
    (h : ∀ f ∈ fields, ReadsBack depth level f.2) (rest : List Char) {fuel : Nat}
    (hfuel : ((prettyFields level fields).flatMap (',' :: ·)).length < fuel) :
    fieldsFrom fuel depth false
        ((prettyFields level fields).flatMap (',' :: ·) ++ (newline outer ++ '\x7d' :: rest)) =
      .ok (sortedFields fields, rest) := by
  induction fields generalizing fuel with
  | nil =>
    obtain ⟨fuel, rfl⟩ : ∃ n, fuel = n + 1 := ⟨fuel - 1, by omega⟩
    rw [prettyFields, List.flatMap_nil, List.nil_append, fieldsFrom, nextKey_end, ok_bind,
      skipBlanks_newline, skipBlanks_cons rfl]
    rfl
  | cons f fields ih =>
    obtain ⟨k, v⟩ := f
    obtain ⟨fuel, rfl⟩ : ∃ n, fuel = n + 1 := ⟨fuel - 1, by omega⟩
    simp only [prettyFields, List.flatMap_cons, List.length_append, List.length_cons] at hfuel
    have hrest := ih (fun w hw => h w (List.mem_cons_of_mem _ hw)) (show _ < fuel by omega)
    simp only [prettyFields, List.flatMap_cons, List.cons_append, List.append_assoc,
      List.nil_append]
    rw [fieldsFrom_step (nextKey_later (skipBlanks_newline level) k _) (h (k, v) List.mem_cons_self)
      (by simp only; omega), hrest, map_ok]
    rfl

/-! ## Whole values -/

theorem readsBack_string (depth level : Nat) (s : String) : ReadsBack depth level (string s) := by
  intro fuel rest hfuel
  obtain ⟨fuel, rfl⟩ : ∃ n, fuel = n + 1 := by
    refine ⟨fuel - 1, ?_⟩
    simp only [prettyChars, quotedChars, List.cons_append, List.length_cons] at hfuel
    omega
  rw [prettyChars, quotedChars_append, valueFrom, skipBlanks_cons rfl]
  simp only [stringFrom_escaped, map_ok, sorted]

theorem one_le_length_newline (level : Nat) : 1 ≤ (newline level).length := by
  rw [newline, List.length_cons]
  omega

theorem readsBack_array {bound depth level : Nat} {items : List Json}
    (hfits : ∀ v ∈ items, Fits bound v)
    (h : ∀ v ∈ items, ReadsBack (depth + 1) (level + 1) v) :
    ReadsBack (depth + 2) level (array items) := by
  intro fuel rest hfuel
  cases items with
  | nil =>
    simp only [prettyChars, List.length_cons, List.length_nil] at hfuel
    obtain ⟨fuel, rfl⟩ : ∃ n, fuel = n + 2 := ⟨fuel - 2, by omega⟩
    rw [prettyChars, List.cons_append, List.cons_append, valueFrom, skipBlanks_cons rfl]
    simp [itemsFrom, nextItem, skipBlanks_cons (show isBlank ']' = false from rfl), ok_bind,
      map_ok, sorted, sortedItems]
  | cons v items =>
    have hnewline := one_le_length_newline level
    have hnewline' := one_le_length_newline (level + 1)
    simp only [prettyChars, prettyItems, commaJoined_cons, List.length_append, List.length_cons,
      List.cons_append] at hfuel
    obtain ⟨fuel, rfl⟩ : ∃ n, fuel = n + 2 := ⟨fuel - 2, by omega⟩
    have hrest := itemsFrom_items level (fun w hw => hfits w (List.mem_cons_of_mem v hw))
      (fun w hw => h w (List.mem_cons_of_mem v hw)) rest (show _ < fuel by omega)
    simp only [prettyChars, prettyItems, commaJoined_cons, List.cons_append, List.append_assoc,
      List.nil_append]
    rw [valueFrom, skipBlanks_cons rfl]
    simp only
    rw [if_neg (by omega), show depth + 2 - 1 = depth + 1 from rfl,
      itemsFrom_step (nextItem_item (hfits v List.mem_cons_self) _ _) (h v List.mem_cons_self)
        (by omega), hrest]
    rfl

theorem readsBack_object {depth level : Nat} {fields : List (String × Json)}
    (h : ∀ f ∈ fields, ReadsBack (depth + 1) (level + 1) f.2) :
    ReadsBack (depth + 2) level (object fields) := by
  intro fuel rest hfuel
  cases fields with
  | nil =>
    simp only [prettyChars, List.length_cons, List.length_nil] at hfuel
    obtain ⟨fuel, rfl⟩ : ∃ n, fuel = n + 2 := ⟨fuel - 2, by omega⟩
    rw [prettyChars, List.cons_append, List.cons_append, valueFrom, skipBlanks_cons rfl]
    simp [fieldsFrom, nextKey, skipBlanks_cons (show isBlank '\x7d' = false from rfl), ok_bind,
      map_ok, sorted, sortedFields]
  | cons f fields =>
    obtain ⟨k, v⟩ := f
    have hnewline := one_le_length_newline level
    have hnewline' := one_le_length_newline (level + 1)
    simp only [prettyChars, prettyFields, commaJoined_cons, List.length_append, List.length_cons,
      List.cons_append] at hfuel
    obtain ⟨fuel, rfl⟩ : ∃ n, fuel = n + 2 := ⟨fuel - 2, by omega⟩
    have hrest := fieldsFrom_fields level (fun w hw => h w (List.mem_cons_of_mem _ hw)) rest
      (show _ < fuel by omega)
    simp only [prettyChars, prettyFields, commaJoined_cons, List.cons_append, List.append_assoc,
      List.nil_append]
    rw [valueFrom, skipBlanks_cons rfl]
    simp only
    rw [if_neg (by omega), show depth + 2 - 1 = depth + 1 from rfl,
      fieldsFrom_step (nextKey_first (skipBlanks_newline _) k _) (h (k, v) List.mem_cons_self)
        (by simp only; omega), hrest]
    rfl

/-- **A value is read back** wherever it stands, if there is room for its nesting. -/
theorem readsBack {depth : Nat} {v : Json} (h : Fits depth v) (more level : Nat) :
    ReadsBack (depth + more + 1) level v := by
  induction h generalizing level with
  | null =>
    intro fuel rest hfuel
    obtain ⟨fuel, rfl⟩ : ∃ n, fuel = n + 4 := ⟨fuel - 4, by simp [prettyChars] at hfuel; omega⟩
    rfl
  | bool b =>
    intro fuel rest hfuel
    obtain ⟨fuel, rfl⟩ : ∃ n, fuel = n + 4 :=
      ⟨fuel - 4, by cases b <;> simp [prettyChars] at hfuel <;> omega⟩
    cases b <;> rfl
  | string s => exact readsBack_string _ level s
  | @array depth items hfits ih =>
    rw [show depth + 1 + more + 1 = depth + more + 2 by omega]
    exact readsBack_array hfits fun v hv => ih v hv (level + 1)
  | @object depth fields hfits ih =>
    rw [show depth + 1 + more + 1 = depth + more + 2 by omega]
    exact readsBack_object fun f hf => ih f hf (level + 1)

/-- **The text of a value** over several lines is read as the sorted value. -/
theorem read_pretty {v : Json} {depth : Nat} (h : Fits depth v) (hdepth : depth < depthLimit) :
    read v.pretty = .ok v.sorted := by
  have hlen : v.pretty.length = (prettyChars 0 v).length := String.length_ofList
  have hread := readsBack h (depthLimit - depth - 1) 0 (2 * v.pretty.length + 2) []
    (by omega)
  rw [show depth + (depthLimit - depth - 1) + 1 = depthLimit by omega, List.append_nil] at hread
  rw [read, pretty, String.toList_ofList, ← pretty, hread, ok_bind]
  rfl

end Methodology.Json
