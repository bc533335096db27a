import Methodology.Text.Basic

/-!
# Trimming

What trimming leaves is the part of a text between its outermost blanks, and trimming that part
again changes nothing.

* `IsTrimmed`: a text that trimming keeps.
* `takeWhile_eq_iff`, `dropWhile_eq_iff`: a text that is cut in two where a condition first fails.
* `exists_append_trimBlanks`: trimming takes nothing but blanks, and those from the two ends;
  `trimBlanks_append`: it takes all of them.
* `IsCore`, **`trimBlanks_eq_iff`**: what is left is what stands between the outermost blanks.
* `KeepsSize`, **`keepsSize_iff`**: the shortcut is taken where nothing is lost; `toList_trim`: it
  gives what trimming gives.
* **`isTrimmed_trim`**: a trimmed text is kept.
* `IsFramed`, **`exists_isFramed_iff`**: a text is a core between blanks, and the core is what
  trimming leaves; `IsFramed.unique`: it has one place; **`trim_padded`**: more blanks around the
  text make no difference.
-/

namespace Methodology.Text

/-- A text that trimming keeps. -/
def IsTrimmed (s : String) : Prop := trim s = s

instance (s : String) : Decidable (IsTrimmed s) := inferInstanceAs (Decidable (trim s = s))

/-- A list of characters without blanks at its ends. -/
def IsBare (cs : List Char) : Prop :=
  (∀ c ∈ cs.head?, isBlank c = false) ∧ ∀ c ∈ cs.getLast?, isBlank c = false

/-! ## Texts that are cut in two -/

theorem head?_dropWhile_false (p : Char → Bool) (cs : List Char) :
    ∀ c ∈ (cs.dropWhile p).head?, p c = false := by
  intro c hc
  have h := List.head?_dropWhile_not p cs
  rw [Option.mem_def.mp hc] at h
  simpa using h

theorem takeWhile_eq_iff {p : Char → Bool} {cs front : List Char} : cs.takeWhile p = front ↔
    ∃ rest, cs = front ++ rest ∧ (∀ c ∈ front, p c) ∧ ∀ c ∈ rest.head?, p c = false := by
  constructor
  · rintro rfl
    exact ⟨cs.dropWhile p, List.takeWhile_append_dropWhile.symm,
      List.all_eq_true.mp List.all_takeWhile, head?_dropWhile_false p cs⟩
  · rintro ⟨rest, rfl, hfront, hrest⟩
    rw [List.takeWhile_append_of_pos hfront]
    cases rest with
    | nil => rw [List.takeWhile_nil, List.append_nil]
    | cons c rest =>
      rw [List.takeWhile_cons_of_neg (by simp [hrest c rfl]), List.append_nil]

theorem dropWhile_eq_iff {p : Char → Bool} {cs rest : List Char} : cs.dropWhile p = rest ↔
    ∃ front, cs = front ++ rest ∧ (∀ c ∈ front, p c) ∧ ∀ c ∈ rest.head?, p c = false := by
  constructor
  · rintro rfl
    exact ⟨cs.takeWhile p, List.takeWhile_append_dropWhile.symm,
      List.all_eq_true.mp List.all_takeWhile, head?_dropWhile_false p cs⟩
  · rintro ⟨front, rfl, hfront, hrest⟩
    rw [List.dropWhile_append_of_pos hfront]
    cases rest with
    | nil => rfl
    | cons c rest => exact List.dropWhile_cons_of_neg (by simp [hrest c rfl])

/-! ## Blanks at the ends -/

theorem dropWhile_isBlank_eq_self {cs : List Char} (h : ∀ c ∈ cs.head?, isBlank c = false) :
    cs.dropWhile isBlank = cs := by
  cases cs with
  | nil => rfl
  | cons c cs =>
    have hc : isBlank c = false := h c rfl
    exact List.dropWhile_cons_of_neg (by simp [hc])

theorem trimBlanks_eq_self {cs : List Char} (h : IsBare cs) : trimBlanks cs = cs := by
  rw [trimBlanks, dropWhile_isBlank_eq_self h.1, dropWhile_isBlank_eq_self, List.reverse_reverse]
  rw [List.head?_reverse]
  exact h.2

theorem isBare_of_forall {cs : List Char} (h : ∀ c ∈ cs, isBlank c = false) : IsBare cs :=
  ⟨fun c hc => h c (List.mem_of_mem_head? hc), fun c hc => h c (List.mem_of_mem_getLast? hc)⟩

/-- **Trimming takes blanks from the two ends**, and nothing else. -/
theorem exists_append_trimBlanks (cs : List Char) : ∃ before behind : List Char,
    cs = before ++ trimBlanks cs ++ behind ∧ (∀ c ∈ before, isBlank c) ∧
      ∀ c ∈ behind, isBlank c := by
  refine ⟨cs.takeWhile isBlank, ((cs.dropWhile isBlank).reverse.takeWhile isBlank).reverse,
    ?_, fun c hc => ?_, fun c hc => ?_⟩
  · rw [trimBlanks, List.append_assoc, ← List.reverse_append, List.takeWhile_append_dropWhile,
      List.reverse_reverse, List.takeWhile_append_dropWhile]
  · exact List.all_eq_true.mp List.all_takeWhile c hc
  · exact List.all_eq_true.mp List.all_takeWhile c (List.mem_reverse.mp hc)

theorem isBare_trimBlanks (cs : List Char) : IsBare (trimBlanks cs) := by
  have hlast : ∀ c ∈ (trimBlanks cs).getLast?, isBlank c = false := by
    rw [trimBlanks, List.getLast?_reverse]
    exact head?_dropWhile_false isBlank _
  refine ⟨fun c hc => ?_, hlast⟩
  -- what trimming at the end leaves still starts where trimming at the start has stopped
  obtain ⟨rest, hrest⟩ : ∃ rest, cs.dropWhile isBlank = trimBlanks cs ++ rest :=
    ⟨((cs.dropWhile isBlank).reverse.takeWhile isBlank).reverse, by
      rw [trimBlanks, ← List.reverse_append, List.takeWhile_append_dropWhile,
        List.reverse_reverse]⟩
  refine head?_dropWhile_false isBlank cs c ?_
  rw [hrest, List.head?_append, Option.mem_def.mp hc]
  rfl

theorem trimBlanks_trimBlanks (cs : List Char) : trimBlanks (trimBlanks cs) = trimBlanks cs :=
  trimBlanks_eq_self (isBare_trimBlanks cs)

/-- **Blanks at the two ends** of a bare text are what trimming takes. -/
theorem trimBlanks_append {before cs behind : List Char} (hbefore : ∀ c ∈ before, isBlank c)
    (hbehind : ∀ c ∈ behind, isBlank c) (h : IsBare cs) :
    trimBlanks (before ++ cs ++ behind) = cs := by
  have hbehind' : ∀ c ∈ behind.reverse, isBlank c := fun c hc => hbehind c (List.mem_reverse.mp hc)
  have hlast : ∀ c ∈ cs.reverse.head?, isBlank c = false := by
    rw [List.head?_reverse]
    exact h.2
  rw [trimBlanks, List.append_assoc, List.dropWhile_append_of_pos hbefore]
  cases cs with
  | nil =>
    have hall : (behind ++ []).dropWhile isBlank = [] := List.dropWhile_append_of_pos hbehind
    rw [List.append_nil] at hall
    rw [List.nil_append, hall]
    rfl
  | cons c cs =>
    have hfirst : ((c :: cs) ++ behind).dropWhile isBlank = (c :: cs) ++ behind :=
      dropWhile_isBlank_eq_self fun d hd => h.1 d hd
    rw [hfirst, List.reverse_append, List.dropWhile_append_of_pos hbehind',
      dropWhile_isBlank_eq_self hlast, List.reverse_reverse]

/-- **What stands between the outermost blanks** of a text. -/
def IsCore (cs core : List Char) : Prop :=
  ∃ before behind : List Char, cs = before ++ core ++ behind ∧ (∀ c ∈ before, isBlank c) ∧
    (∀ c ∈ behind, isBlank c) ∧ IsBare core

/-- **Trimming leaves what stands between the outermost blanks.** -/
theorem trimBlanks_eq_iff {cs core : List Char} : trimBlanks cs = core ↔ IsCore cs core := by
  constructor
  · rintro rfl
    obtain ⟨before, behind, hcs, hbefore, hbehind⟩ := exists_append_trimBlanks cs
    exact ⟨before, behind, hcs, hbefore, hbehind, isBare_trimBlanks cs⟩
  · rintro ⟨before, behind, rfl, hbefore, hbehind, hcore⟩
    exact trimBlanks_append hbefore hbehind hcore

/-! ## Sizes -/

theorem utf8ByteSize_ofList (cs : List Char) : (String.ofList cs).utf8ByteSize = byteSize cs := by
  induction cs with
  | nil => rfl
  | cons c cs ih =>
    rw [← List.singleton_append, String.ofList_append, String.utf8ByteSize_append, ih]
    rw [show String.ofList [c] = String.singleton c from rfl, String.utf8ByteSize_singleton]
    rfl

theorem byteSize_append (as bs : List Char) : byteSize (as ++ bs) = byteSize as + byteSize bs := by
  induction as with
  | nil => simp [byteSize]
  | cons a as ih => simp only [List.cons_append, byteSize, ih]; omega

theorem length_le_flatMap {cs : List Char} {f : Char → List Char} (h : ∀ c ∈ cs, f c ≠ []) :
    cs.length ≤ (cs.flatMap f).length := by
  induction cs with
  | nil => exact Nat.le_refl _
  | cons c cs ih =>
    have hc := List.length_pos_iff.mpr (h c List.mem_cons_self)
    have hcs := ih fun d hd => h d (List.mem_cons_of_mem c hd)
    rw [List.flatMap_cons, List.length_cons, List.length_append]
    omega

theorem length_le_byteSize (cs : List Char) : cs.length ≤ byteSize cs := by
  induction cs with
  | nil => exact Nat.le_refl _
  | cons c cs ih => have := c.utf8Size_pos; simp only [List.length_cons, byteSize]; omega

theorem byteSize_eq_length {cs : List Char} (h : ∀ c ∈ cs, c.utf8Size = 1) :
    byteSize cs = cs.length := by
  induction cs with
  | nil => rfl
  | cons c cs ih =>
    rw [byteSize, h c List.mem_cons_self, ih fun d hd => h d (List.mem_cons_of_mem c hd),
      List.length_cons, Nat.add_comm]

/-! ## The text that is left -/

/-- What stands between the outermost blanks has as many bytes as the text. This is where `trim`
takes its shortcut. -/
def KeepsSize (s : String) : Prop :=
  (String.ofList (trimBlanks s.toList)).utf8ByteSize = s.utf8ByteSize

instance (s : String) : Decidable (KeepsSize s) :=
  inferInstanceAs (Decidable ((String.ofList (trimBlanks s.toList)).utf8ByteSize = s.utf8ByteSize))

theorem trim_eq_ite (s : String) :
    trim s = if KeepsSize s then s else String.ofList (trimBlanks s.toList) := by
  rw [trim]
  rfl

/-- **The size tells whether something is lost.** -/
theorem keepsSize_iff {s : String} : KeepsSize s ↔ trimBlanks s.toList = s.toList := by
  have hsize : KeepsSize s ↔ byteSize (trimBlanks s.toList) = byteSize s.toList := by
    rw [← utf8ByteSize_ofList, ← utf8ByteSize_ofList, String.ofList_toList]
    rfl
  rw [hsize]
  constructor
  · intro h
    -- equal sizes leave no room for characters at the ends
    obtain ⟨before, behind, hs, -, -⟩ := exists_append_trimBlanks s.toList
    have hsum := congrArg byteSize hs
    rw [byteSize_append, byteSize_append] at hsum
    have h₁ := length_le_byteSize before
    have h₂ := length_le_byteSize behind
    have hbefore : before = [] := List.length_eq_zero_iff.mp (by omega)
    have hbehind : behind = [] := List.length_eq_zero_iff.mp (by omega)
    rw [hbefore, hbehind, List.nil_append, List.append_nil] at hs
    exact hs.symm
  · intro h
    rw [h]

/-- **A text that loses nothing is what trimming leaves of it.** -/
theorem toList_trim (s : String) : (trim s).toList = trimBlanks s.toList := by
  rw [trim_eq_ite]
  split
  · next h => exact (keepsSize_iff.mp h).symm
  · exact String.toList_ofList

theorem trim_eq (s : String) : trim s = String.ofList (trimBlanks s.toList) := by
  rw [← toList_trim, String.ofList_toList]

/-- **A trimmed text is kept.** -/
theorem isTrimmed_trim (s : String) : IsTrimmed (trim s) := by
  rw [IsTrimmed, trim_eq (trim s), toList_trim, trimBlanks_trimBlanks, ← trim_eq]

theorem isTrimmed_iff {s : String} : IsTrimmed s ↔ IsBare s.toList := by
  constructor
  · intro h
    rw [← show trim s = s from h, toList_trim]
    exact isBare_trimBlanks _
  · intro h
    rw [IsTrimmed, trim_eq, trimBlanks_eq_self h, String.ofList_toList]

/-! ## Blanks around a text -/

/-- A text made of blanks, a core without blanks at its ends, and blanks. -/
structure IsFramed (s before core behind : String) : Prop where
  text : s = before ++ core ++ behind
  before : ∀ c ∈ before.toList, isBlank c
  behind : ∀ c ∈ behind.toList, isBlank c
  core : IsBare core.toList

theorem exists_isFramed_trim (s : String) : ∃ before behind, IsFramed s before (trim s) behind := by
  obtain ⟨before, behind, hs, hbefore, hbehind⟩ := exists_append_trimBlanks s.toList
  refine ⟨String.ofList before, String.ofList behind, ?_, ?_, ?_, ?_⟩
  · rw [trim_eq, ← String.ofList_append, ← String.ofList_append, ← hs, String.ofList_toList]
  · rwa [String.toList_ofList]
  · rwa [String.toList_ofList]
  · exact isTrimmed_iff.mp (isTrimmed_trim s)

namespace IsFramed

variable {s before core behind : String} (h : IsFramed s before core behind)

include h

theorem toList_eq : s.toList = before.toList ++ core.toList ++ behind.toList := by
  rw [h.text, String.toList_append, String.toList_append]

theorem trimBlanks_eq : trimBlanks s.toList = core.toList := by
  rw [h.toList_eq, trimBlanks_append h.before h.behind h.core]

/-- **The core is what trimming leaves.** -/
theorem core_eq : core = trim s := by
  rw [trim_eq, h.trimBlanks_eq, String.ofList_toList]

theorem keepsSize_iff : KeepsSize s ↔ before = "" ∧ behind = "" := by
  rw [Text.keepsSize_iff, h.trimBlanks_eq, h.toList_eq]
  constructor
  · intro hlist
    have hlength := congrArg List.length hlist
    rw [List.length_append, List.length_append] at hlength
    have hbefore : before.toList = [] := List.length_eq_zero_iff.mp (by omega)
    have hbehind : behind.toList = [] := List.length_eq_zero_iff.mp (by omega)
    exact ⟨String.toList_eq_nil_iff.mp hbefore, String.toList_eq_nil_iff.mp hbehind⟩
  · rintro ⟨rfl, rfl⟩
    rw [String.toList_empty, List.nil_append, List.append_nil]

theorem takeWhile_eq (hcore : core ≠ "") : s.toList.takeWhile isBlank = before.toList := by
  obtain ⟨first, rest, hfirst⟩ := List.exists_cons_of_ne_nil (mt String.toList_eq_nil_iff.mp hcore)
  refine takeWhile_eq_iff.mpr ⟨core.toList ++ behind.toList, ?_, h.before, fun c hc => ?_⟩
  · rw [h.toList_eq, List.append_assoc]
  · refine h.core.1 c ?_
    rw [hfirst] at hc ⊢
    exact hc

/-- **A text has one frame**, unless it is all blanks. -/
theorem unique {before' core' behind' : String} (h' : IsFramed s before' core' behind')
    (hcore : core ≠ "") : before = before' ∧ behind = behind' := by
  obtain rfl : core = core' := h.core_eq.trans h'.core_eq.symm
  have hbefore : before = before' :=
    String.toList_inj.mp ((h.takeWhile_eq hcore).symm.trans (h'.takeWhile_eq hcore))
  subst hbefore
  refine ⟨rfl, String.toList_inj.mp ?_⟩
  exact List.append_cancel_left (h.toList_eq.symm.trans h'.toList_eq)

theorem padded {front rear : String} (hfront : ∀ c ∈ front.toList, isBlank c)
    (hrear : ∀ c ∈ rear.toList, isBlank c) :
    IsFramed (front ++ s ++ rear) (front ++ before) core (behind ++ rear) where
  text := by rw [h.text]; simp only [String.append_assoc]
  before c hc := by
    rw [String.toList_append, List.mem_append] at hc
    exact hc.elim (hfront c) (h.before c)
  behind c hc := by
    rw [String.toList_append, List.mem_append] at hc
    exact hc.elim (h.behind c) (hrear c)
  core := h.core

end IsFramed

/-- **Trimming leaves the core of a text**, and a text has no other. -/
theorem exists_isFramed_iff {s t : String} :
    (∃ before behind, IsFramed s before t behind) ↔ t = trim s := by
  constructor
  · rintro ⟨before, behind, h⟩
    exact h.core_eq
  · rintro rfl
    exact exists_isFramed_trim s

/-- **Blanks around a text** make no difference to what trimming leaves of it. -/
theorem trim_padded {front s rear : String} (hfront : ∀ c ∈ front.toList, isBlank c)
    (hrear : ∀ c ∈ rear.toList, isBlank c) : trim (front ++ s ++ rear) = trim s := by
  obtain ⟨before, behind, h⟩ := exists_isFramed_trim s
  exact (h.padded hfront hrear).core_eq.symm

end Methodology.Text
