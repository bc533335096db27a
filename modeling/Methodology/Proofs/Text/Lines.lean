import Methodology.Decimal.Shortest
import Methodology.Proofs.Text.Digits
import Methodology.Text.Quoted

/-!
# Texts and their lines

* `HasBreak`: a text with a line break; `hasBreak_append`, `hasBreak_intercalate`.
* `not_hasBreak_quoted`: **a quoted text** has none; `not_hasBreak_number`, `not_hasBreak_integer`,
  `Binary64.not_hasBreak_written`: nor has the text of a number.
* `linesOf`: the lines of a text, each of which a line break ends.
* `block`: lines with a line break behind each; `linesOf_block`: **they are the lines** of the text,
  unless they have line breaks themselves.
* `linesOf_blocks`: blocks behind one another.
* `length_linesOf_block_eq_iff`: a block has more lines than were put in it exactly if one of them
  has a line break.
* `Starts`: a text that starts with a word.
-/

namespace Methodology.Text

/-! ## Line breaks -/

/-- A text with a line break. -/
def HasBreak (s : String) : Prop := '\n' ∈ s.toList

instance (s : String) : Decidable (HasBreak s) := inferInstanceAs (Decidable ('\n' ∈ s.toList))

@[simp] theorem hasBreak_append {s t : String} : HasBreak (s ++ t) ↔ HasBreak s ∨ HasBreak t := by
  rw [HasBreak, String.toList_append, List.mem_append]
  rfl

@[simp] theorem hasBreak_ofList {cs : List Char} : HasBreak (String.ofList cs) ↔ '\n' ∈ cs := by
  rw [HasBreak, String.toList_ofList]

theorem hasBreak_intercalate {sep : String} (hsep : ¬ HasBreak sep) {ts : List String} :
    HasBreak (sep.intercalate ts) ↔ ∃ t ∈ ts, HasBreak t := by
  induction ts with
  | nil => exact iff_of_false (by rw [String.intercalate_nil]; decide) nofun
  | cons t ts ih =>
    cases ts with
    | nil => simp [String.intercalate_singleton]
    | cons u ts =>
      rw [String.intercalate_cons_cons, hasBreak_append, hasBreak_append, ih, or_iff_left hsep]
      simp only [List.mem_cons, or_and_right, exists_or, exists_eq_left]

theorem not_mem_decimal (n : Nat) : '\n' ∉ decimal n := by
  intro h
  obtain ⟨d, hd, heq⟩ := exists_of_mem_toDigits (by decide) h
  exact absurd heq (by revert d; decide)

@[simp] theorem not_hasBreak_number (n : Nat) : ¬ HasBreak (number n) := by
  rw [number, hasBreak_ofList]
  exact not_mem_decimal n

@[simp] theorem not_hasBreak_integer (n : Int) : ¬ HasBreak (integer n) := by
  rw [integer, hasBreak_ofList]
  split <;> simp [not_mem_decimal]

theorem not_mem_escaped (c : Char) : '\n' ∉ escaped c := by
  have hhex : '\n' ∉ hex c.toNat := by
    intro h
    obtain ⟨d, hd, heq⟩ := exists_of_mem_toDigits (by decide) h
    exact absurd heq (by revert d; decide)
  rw [escaped]
  split_ifs with hquote hslash hbreak
  · decide
  · decide
  · decide
  · decide
  · decide
  · decide
  · simp [hhex]
  · exact fun h => hbreak (List.mem_singleton.mp h).symm

/-- **A quoted text** stands on one line. -/
@[simp] theorem not_hasBreak_quoted (s : String) : ¬ HasBreak (quoted s) := by
  rw [quoted, hasBreak_ofList]
  simp [not_mem_escaped]

/-! ## Lines -/

/-- The lines of a text behind what is already read of the first one. -/
def linesFrom (line : List Char) : List Char → List String
  | [] => []
  | c :: cs =>
    if c = '\n' then String.ofList line :: linesFrom [] cs else linesFrom (line ++ [c]) cs

/-- **The lines of a text**, each of which a line break ends. -/
def linesOf (s : String) : List String := linesFrom [] s.toList

theorem linesFrom_append {line cs rest : List Char} (h : '\n' ∉ cs) :
    linesFrom line (cs ++ '\n' :: rest) = String.ofList (line ++ cs) :: linesFrom [] rest := by
  induction cs generalizing line with
  | nil => rw [List.nil_append, linesFrom, if_pos rfl, List.append_nil]
  | cons c cs ih =>
    rw [List.mem_cons, not_or] at h
    rw [List.cons_append, linesFrom, if_neg (Ne.symm h.1), ih h.2, List.append_assoc]
    rfl

theorem linesFrom_break (line cs rest : List Char) :
    linesFrom line (cs ++ '\n' :: rest) = linesFrom line (cs ++ ['\n']) ++ linesFrom [] rest := by
  induction cs generalizing line with
  | nil => rfl
  | cons c cs ih =>
    simp only [List.cons_append, linesFrom, ih]
    split <;> rfl

theorem length_linesFrom (line cs : List Char) :
    (linesFrom line cs).length = cs.count '\n' := by
  induction cs generalizing line with
  | nil => rfl
  | cons c cs ih =>
    rw [linesFrom, List.count_cons]
    split
    · next h => rw [List.length_cons, ih, if_pos (beq_iff_eq.mpr h)]
    · next h => rw [ih, if_neg (by simpa using h), Nat.add_zero]

/-- Lines with a line break behind each. -/
def block (lines : List String) : String := String.join (lines.map (· ++ "\n"))

theorem block_cons (l : String) (lines : List String) :
    block (l :: lines) = l ++ "\n" ++ block lines := by
  rw [block, List.map_cons, String.join_cons]
  rfl

theorem intercalate_append_break {lines : List String} (h : lines ≠ []) :
    "\n".intercalate lines ++ "\n" = block lines := by
  induction lines with
  | nil => exact absurd rfl h
  | cons l lines ih =>
    cases lines with
    | nil => rw [String.intercalate_singleton, block_cons, block, List.map_nil, String.join_nil,
        String.append_empty]
    | cons m lines =>
      rw [String.intercalate_cons_cons, String.append_assoc, ih (List.cons_ne_nil m lines),
        ← block_cons]

theorem toList_block_cons (l : String) (lines : List String) :
    (block (l :: lines)).toList = l.toList ++ '\n' :: (block lines).toList := by
  simp [block, String.toList_join]

theorem linesOf_break (l s : String) :
    linesOf (l ++ "\n" ++ s) = linesOf (l ++ "\n") ++ linesOf s := by
  have hbreak : ∀ t, (l ++ "\n" ++ t).toList = l.toList ++ '\n' :: t.toList := by simp
  rw [linesOf, hbreak, linesFrom_break, linesOf, String.toList_append]
  rfl

theorem linesOf_block_append (lines : List String) (s : String) :
    linesOf (block lines ++ s) = linesOf (block lines) ++ linesOf s := by
  induction lines with
  | nil => rw [block, List.map_nil, String.join_nil, String.empty_append]; rfl
  | cons l lines ih =>
    rw [block_cons, String.append_assoc, linesOf_break, ih, linesOf_break, List.append_assoc]

/-- **Blocks behind one another** have the lines of the one behind those of the other. -/
theorem linesOf_blocks {α : Type} (f : α → List String) (xs : List α) :
    linesOf (String.join (xs.map fun x => block (f x))) =
      xs.flatMap fun x => linesOf (block (f x)) := by
  induction xs with
  | nil => rfl
  | cons x xs ih =>
    rw [List.map_cons, String.join_cons, linesOf_block_append, ih, List.flatMap_cons]

/-- **The lines of a block** are its lines, if none of them has a line break. -/
theorem linesOf_block {lines : List String} (h : ∀ l ∈ lines, ¬ HasBreak l) :
    linesOf (block lines) = lines := by
  induction lines with
  | nil => rfl
  | cons l lines ih =>
    obtain ⟨hl, hlines⟩ := List.forall_mem_cons.mp h
    rw [linesOf, toList_block_cons, linesFrom_append hl, List.nil_append, String.ofList_toList]
    exact congrArg (l :: ·) (ih hlines)

theorem length_linesOf_block_cons (l : String) (lines : List String) :
    (linesOf (block (l :: lines))).length =
      l.toList.count '\n' + ((linesOf (block lines)).length + 1) := by
  rw [linesOf, length_linesFrom, toList_block_cons, List.count_append, List.count_cons_self,
    linesOf, length_linesFrom]

/-- **A block has a line for each of its lines**, and more if one of them has a line break. -/
theorem length_le_linesOf_block (lines : List String) :
    lines.length ≤ (linesOf (block lines)).length := by
  induction lines with
  | nil => exact Nat.zero_le _
  | cons l lines ih =>
    rw [length_linesOf_block_cons, List.length_cons]
    omega

theorem length_linesOf_block_eq_iff {lines : List String} :
    (linesOf (block lines)).length = lines.length ↔ ∀ l ∈ lines, ¬ HasBreak l := by
  constructor
  · intro h
    induction lines with
    | nil => exact List.forall_mem_nil _
    | cons l lines ih =>
      rw [length_linesOf_block_cons, List.length_cons] at h
      have hle := length_le_linesOf_block lines
      refine List.forall_mem_cons.mpr ⟨?_, ih (by omega)⟩
      exact List.count_eq_zero.mp (by omega)
  · intro h
    rw [linesOf_block h]

/-! ## First words -/

/-- A text that starts with a word. -/
def Starts (word s : String) : Prop := word.toList <+: s.toList

instance (word s : String) : Decidable (Starts word s) :=
  inferInstanceAs (Decidable (word.toList <+: s.toList))

theorem Starts.append {word s : String} (h : Starts word s) (t : String) :
    Starts word (s ++ t) := by
  rw [Starts, String.toList_append]
  exact h.trans (List.prefix_append _ _)

theorem not_starts_append {word s : String} (h : ¬ Starts word s) (hword : ¬ Starts s word)
    (t : String) : ¬ Starts word (s ++ t) := by
  intro hstarts
  rw [Starts, String.toList_append] at hstarts
  exact (List.prefix_or_prefix_of_prefix hstarts (List.prefix_append _ _)).elim h hword

end Methodology.Text

namespace Methodology.Binary64

open Text

@[simp] theorem not_hasBreak_written (style : DecimalStyle) (x : Binary64) :
    ¬ HasBreak (x.written style) := by
  have hdigits := not_mem_decimal x.shortest.1
  have htake : ∀ n, '\n' ∉ (decimal x.shortest.1).take n :=
    fun n h => hdigits (List.mem_of_mem_take h)
  have hdrop : ∀ n, '\n' ∉ (decimal x.shortest.1).drop n :=
    fun n h => hdigits (List.mem_of_mem_drop h)
  have hmagnitude : '\n' ∉ x.writtenMagnitude style := by
    simp only [writtenMagnitude]
    split
    · simp [hdigits]
    split
    · simp [htake, hdrop]
    split
    · simp [hdigits]
    · -- with an exponent
      split_ifs <;> simp [htake, hdrop, not_mem_decimal, -List.drop_one]
  rw [written, hasBreak_ofList]
  split <;> split <;> simp [hmagnitude]

end Methodology.Binary64
