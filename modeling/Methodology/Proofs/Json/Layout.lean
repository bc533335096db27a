import Methodology.Proofs.Json.Written
import Methodology.Proofs.Record.Streamed
import Methodology.Proofs.Yaml.Mapping

/-!
# The layouts of a text

A text and a flag, and a mapping of such, are laid out on one line or over several. Either way what
is written in the text is the value itself, with its fields in their order.

* `Layout`, `Layout.print`: the two layouts of the text of a value.
* `Layout.field`: one field; `Layout.chars_mapping`: a mapping is made of them.
* `Layout.writtenFields_fields`: **the loop**, over the fields behind the first one.
* **`Layout.written_leaf`**, **`Layout.written_mapping`**: the value that is written in the text.
-/

namespace Methodology.Json

open Yaml Result

/-- How the text of a value is laid out. -/
inductive Layout
  /-- On one line, without blanks. -/
  | compact
  /-- Over several lines. -/
  | pretty
  deriving DecidableEq, Repr

namespace Layout

/-- **The text of a value.** -/
def print (l : Layout) (v : Json) : String :=
  match l with
  | compact => v.compact
  | pretty => v.pretty

/-- The characters of the text. -/
def chars (l : Layout) (v : Json) : List Char :=
  match l with
  | compact => compactChars v
  | pretty => prettyChars 0 v

/-- What stands in front of a key. -/
def gap : Layout → List Char
  | compact => []
  | pretty => newline 1

/-- What stands between a colon and a value. -/
def space : Layout → List Char
  | compact => []
  | pretty => [' ']

/-- What stands in front of the end of a mapping. -/
def outer : Layout → List Char
  | compact => []
  | pretty => newline 0

/-- The characters of a field. -/
def field (l : Layout) (f : String × Leaf) : List Char :=
  l.gap ++ (quotedChars f.1 ++ ':' :: (l.space ++ compactChars f.2.toJson))

variable (l : Layout)

theorem toList_print (v : Json) : (l.print v).toList = l.chars v := by
  cases l <;> exact String.toList_ofList

theorem skipBlanks_gap (cs : List Char) : skipBlanks (l.gap ++ cs) = skipBlanks cs := by
  cases l with
  | compact => rfl
  | pretty => exact skipBlanks_newline 1 cs

theorem skipBlanks_space (cs : List Char) : skipBlanks (l.space ++ cs) = skipBlanks cs := by
  cases l <;> rfl

theorem skipBlanks_outer (cs : List Char) : skipBlanks (l.outer ++ cs) = skipBlanks cs := by
  cases l with
  | compact => rfl
  | pretty => exact skipBlanks_newline 0 cs

/-! ## What the characters are -/

theorem prettyChars_leaf (level : Nat) (v : Leaf) :
    prettyChars level v.toJson = compactChars v.toJson := by
  cases v with
  | flag b => cases b <;> rfl
  | text s => rfl

theorem chars_leaf (v : Leaf) : l.chars v.toJson = compactChars v.toJson := by
  cases l with
  | compact => rfl
  | pretty => exact prettyChars_leaf 0 v

theorem compactFields_leaves (fs : Leaves) : compactFields fs.toFields = fs.map compact.field := by
  induction fs with
  | nil => rfl
  | cons f fs ih => exact congrArg _ ih

theorem prettyFields_leaves (fs : Leaves) : prettyFields 1 fs.toFields = fs.map pretty.field := by
  induction fs with
  | nil => rfl
  | cons f fs ih =>
    simp only [Leaves.toFields, List.map_cons, prettyFields] at ih ⊢
    rw [ih, prettyChars_leaf]
    simp only [field, gap, space, List.append_assoc, List.cons_append, List.nil_append]

theorem chars_mapping (f : String × Leaf) (fs : Leaves) :
    l.chars (.object (Leaves.toFields (f :: fs))) =
      '\x7b' ::
        (l.field f ++ (fs.flatMap (fun g => ',' :: l.field g) ++ (l.outer ++ ['\x7d']))) := by
  cases l with
  | compact =>
    rw [chars, compactChars, compactFields_leaves, List.map_cons, commaJoined_cons,
      List.flatMap_map]
    simp only [outer, List.nil_append, List.cons_append, List.append_assoc]
  | pretty =>
    change '\x7b' :: commaJoined (prettyFields 1 (Leaves.toFields (f :: fs))) ++ newline 0 ++
      ['\x7d'] = _
    rw [prettyFields_leaves, List.map_cons, commaJoined_cons, List.flatMap_map]
    simp only [outer, List.cons_append, List.append_assoc]

/-! ## What is written -/

theorem writtenFrom_leaf (fuel depth : Nat) (v : Leaf) (rest : List Char) :
    writtenFrom (fuel + 1) depth (l.space ++ (compactChars v.toJson ++ rest)) =
      .ok (v.toJson, rest) := by
  have hblank := l.skipBlanks_space (compactChars v.toJson ++ rest)
  cases v with
  | flag b =>
    cases b with
    | true => exact writtenFrom_true hblank rfl
    | false => exact writtenFrom_false hblank rfl
  | text s =>
    have hchars : compactChars (Leaf.text s).toJson ++ rest =
        '"' :: (s.toList.flatMap escaped ++ '"' :: rest) := quotedChars_append s rest
    rw [hchars] at hblank ⊢
    exact writtenFrom_string hblank (stringFrom_escaped s rest)

/-- **One field**, however the reader came to its key. -/
theorem writtenFields_step {fuel depth : Nat} {first : Bool} {k : String} {v : Leaf}
    {cs more rest : List Char} {others : List (String × Json)}
    (hnext : nextKey first cs = .ok (some (k.toList.flatMap escaped ++
      '"' :: ':' :: (l.space ++ (compactChars v.toJson ++ more)))))
    (h : writtenFields (fuel + 1) depth false more = .ok (others, rest)) :
    writtenFields (fuel + 2) depth first cs = .ok ((k, v.toJson) :: others, rest) :=
  writtenFields_succ_eq_ok_iff.mpr (.inr ⟨_, k, _, _, v.toJson, more, others, hnext,
    stringFrom_escaped k _, colon_cons _, l.writtenFrom_leaf fuel depth v more, h, rfl⟩)

theorem writtenFields_fields (fs : Leaves) (rest : List Char) {fuel : Nat} (depth : Nat)
    (hfuel : fs.length ≤ fuel) :
    writtenFields (fuel + 1) depth false
        (fs.flatMap (fun f => ',' :: l.field f) ++ (l.outer ++ '\x7d' :: rest)) =
      .ok (fs.toFields, rest) := by
  induction fs generalizing fuel with
  | nil =>
    refine writtenFields_succ_eq_ok_iff.mpr (.inl ⟨?_, rfl⟩)
    rw [List.flatMap_nil, List.nil_append, skipBlanks_outer, skipBlanks_cons rfl]
  | cons f fs ih =>
    obtain ⟨fuel, rfl⟩ : ∃ n, fuel = n + 1 :=
      ⟨fuel - 1, (Nat.sub_add_cancel (Nat.one_le_of_lt hfuel)).symm⟩
    refine l.writtenFields_step ?_ (ih (Nat.le_of_succ_le_succ hfuel))
    simp only [List.flatMap_cons, field, List.cons_append, List.append_assoc]
    exact nextKey_later l.skipBlanks_gap f.1 _

theorem length_le_fields (fs : Leaves) :
    fs.length ≤ (fs.flatMap fun f => ',' :: l.field f).length := by
  induction fs with
  | nil => exact Nat.zero_le _
  | cons f fs ih =>
    simp only [List.flatMap_cons, List.length_append, List.length_cons]
    omega

theorem written_of {v : Json} {trail : String} (htrail : skipBlanks trail.toList = [])
    (h : ∀ fuel, (l.chars v).length ≤ fuel →
      writtenFrom (fuel + 1) depthLimit (l.chars v ++ trail.toList) = .ok (v, trail.toList)) :
    written (l.print v ++ trail) = .ok v := by
  have hfuel : (l.chars v).length ≤ 2 * (l.print v ++ trail).length + 1 := by
    rw [← toList_print, String.length_toList, String.length_append]
    omega
  have hfinish : finish trail.toList = .ok () := by rw [finish, htrail]
  refine bind_eq_ok.mpr ⟨(v, trail.toList), ?_, bind_eq_ok.mpr ⟨(), hfinish, rfl⟩⟩
  rw [String.toList_append, toList_print]
  exact h _ hfuel

theorem written_leaf (v : Leaf) (trail : String) (htrail : skipBlanks trail.toList = []) :
    written (l.print v.toJson ++ trail) = .ok v.toJson := by
  refine l.written_of htrail fun fuel _ => ?_
  rw [chars_leaf]
  exact compact.writtenFrom_leaf fuel depthLimit v trail.toList

/-- **A mapping of flags and texts is written** as itself, its fields in their order. -/
theorem written_mapping {fs : Leaves} (hne : fs ≠ []) (trail : String)
    (htrail : skipBlanks trail.toList = []) :
    written (l.print (.object fs.toFields) ++ trail) = .ok (.object fs.toFields) := by
  obtain ⟨f, fs, rfl⟩ := List.exists_cons_of_ne_nil hne
  refine l.written_of htrail fun fuel hfuel => ?_
  rw [chars_mapping] at hfuel ⊢
  have hlen := l.length_le_fields fs
  simp only [List.length_cons, List.length_append] at hfuel
  -- every field is a step of the loop, and there are fewer of them than characters
  obtain ⟨fuel, rfl⟩ : ∃ n, fuel = n + 2 := ⟨fuel - 2, by omega⟩
  rw [List.cons_append, writtenFrom_mapping (skipBlanks_cons rfl _) (by decide)]
  refine l.writtenFields_step ?_ (l.writtenFields_fields fs trail.toList _ (by omega))
  simp only [field, List.cons_append, List.append_assoc, List.nil_append]
  exact nextKey_first l.skipBlanks_gap f.1 _

end Layout

end Methodology.Json
