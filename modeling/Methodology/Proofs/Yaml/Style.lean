import Methodology.Proofs.Yaml.Cursor

/-!
# What the style of a text promises

* `IsPlain`, `IsSingle`, `IsLiteral`: what the texts of a style hold and what they do not.
* **`isPlain_of_styleOf`**, **`isSingle_of_styleOf`**, **`isLiteral_of_styleOf`**: the style of a
  text is chosen so that the text keeps to it.
-/

namespace Methodology.Yaml

/-- A text that can be written as it is. -/
structure IsPlain (s : List Char) : Prop where
  ne_nil : s ≠ []
  prints : Prints s
  unbroken : ∀ c ∈ s, isBreak c = false
  head : ∀ c ∈ s.head?, isSpace c = false
  last : ∀ c ∈ s.getLast?, isSpace c = false
  marks : (survey s).marks = false

/-- A text that can be written between single quotes. -/
structure IsSingle (s : List Char) : Prop where
  prints : Prints s
  noFeed : '\n' ∉ s
  spaceBreak : s.IsChain fun a b => ¬(isSpace a ∧ isBreak b)
  breakSpace : s.IsChain fun a b => ¬(isBreak a ∧ isSpace b)

/-- A text that can be written as a literal block. -/
structure IsLiteral (s : List Char) : Prop where
  ne_nil : s ≠ []
  prints : Prints s

theorem isPlain_of_word {s : List Char} (hne : s ≠ [])
    (hword : s.all (fun c => isPrintable c && !isSpace c && !isBreak c) = true)
    (hmarks : (survey s).marks = false) : IsPlain s := by
  have hall : ∀ c ∈ s, (isPrintable c = true ∧ isSpace c = false) ∧ isBreak c = false := by
    intro c hc
    simpa using List.all_eq_true.mp hword c hc
  exact ⟨hne, fun c hc => (hall c hc).1.1, fun c hc => (hall c hc).2,
    fun c hc => (hall c (List.mem_of_mem_head? hc)).1.2,
    fun c hc => (hall c (List.mem_of_mem_getLast? hc)).1.2, hmarks⟩

theorem prints_of_special {s : List Char} (h : (survey s).special = false) : Prints s := by
  intro c hc
  simp only [survey, Bool.or_eq_false_iff, List.any_eq_false] at h
  simpa using h.2 c hc

theorem spaceBreak_of_special {s : List Char} (h : (survey s).special = false) :
    s.IsChain fun a b => ¬(isSpace a ∧ isBreak b) := by
  simp only [survey, Bool.or_eq_false_iff] at h
  exact hasPair_eq_false_iff.mp h.1

theorem singleOrDouble_eq_single {v : Survey} (h : singleOrDouble v = .single) :
    v.spaceAfterBreak = false ∧ v.special = false := by
  unfold singleOrDouble at h
  split_ifs at h with hv
  simpa using hv

theorem singleOrDouble_ne_plain (v : Survey) : singleOrDouble v ≠ .plain := by
  unfold singleOrDouble
  split_ifs <;> decide

theorem singleOrDouble_ne_literal (v : Survey) : singleOrDouble v ≠ .literal := by
  unfold singleOrDouble
  split_ifs <;> decide

theorem isPlain_of_styleOf {s : List Char} (h : styleOf s = .plain) :
    IsPlain s ∧ resolve s = .text := by
  unfold styleOf at h
  cases hw : wantedStyle s with
  | literal =>
    simp only [hw] at h
    split_ifs at h
  | single => simp only [hw] at h; exact absurd h (singleOrDouble_ne_plain _)
  | double => simp only [hw] at h; exact absurd h (singleOrDouble_ne_plain _)
  | plain =>
    simp only [hw] at h
    split_ifs at h with hv
    · exact absurd h (singleOrDouble_ne_plain _)
    simp only [Bool.not_eq_true, Bool.or_eq_false_iff] at hv
    obtain ⟨⟨⟨⟨hends, hbreaks⟩, hmarks⟩, -⟩, hspecial⟩ := hv
    have hresolve : resolve s = .text := by
      unfold wantedStyle needsQuotes at hw
      split_ifs at hw with _ hq
      simpa using (Bool.or_eq_false_iff.mp (Bool.eq_false_iff.mpr hq)).1
    have hne : s ≠ [] := by
      rintro rfl
      cases hresolve
    simp only [survey, Bool.or_eq_false_iff] at hends
    refine ⟨⟨hne, prints_of_special hspecial, fun c hc => ?_, fun c hc => ?_, fun c hc => ?_,
      hmarks⟩, hresolve⟩
    · simpa using List.any_eq_false.mp hbreaks c hc
    · have hhead := hends.1
      rw [Option.mem_def.mp hc, Option.any_some, Bool.or_eq_false_iff] at hhead
      exact hhead.1
    · have hlast := hends.2
      rw [Option.mem_def.mp hc, Option.any_some, Bool.or_eq_false_iff] at hlast
      exact hlast.1

/-- **A text between single quotes** has no line feed, and no blanks around its line breaks. -/
theorem isSingle_of_styleOf {s : List Char} (h : styleOf s = .single) : IsSingle s := by
  have hfeed : wantedStyle s ≠ .literal → '\n' ∉ s := by
    intro hw hmem
    unfold wantedStyle at hw
    rw [if_pos (List.contains_iff_mem.mpr hmem)] at hw
    exact hw rfl
  have hmade : singleOrDouble (survey s) = .single → wantedStyle s ≠ .literal → IsSingle s := by
    intro hs hw
    obtain ⟨hspace, hspecial⟩ := singleOrDouble_eq_single hs
    exact ⟨prints_of_special hspecial, hfeed hw, spaceBreak_of_special hspecial,
      hasPair_eq_false_iff.mp hspace⟩
  unfold styleOf at h
  cases hw : wantedStyle s with
  | literal =>
    simp only [hw] at h
    split_ifs at h
  | plain =>
    simp only [hw] at h
    split_ifs at h
    exact hmade h (by rw [hw]; decide)
  | single => simp only [hw] at h; exact hmade h (by rw [hw]; decide)
  | double => simp only [hw] at h; exact hmade h (by rw [hw]; decide)

theorem isLiteral_of_styleOf {s : List Char} (h : styleOf s = .literal) : IsLiteral s := by
  unfold styleOf at h
  cases hw : wantedStyle s with
  | plain =>
    simp only [hw] at h
    split_ifs at h
    exact absurd h (singleOrDouble_ne_literal _)
  | single => simp only [hw] at h; exact absurd h (singleOrDouble_ne_literal _)
  | double => simp only [hw] at h; exact absurd h (singleOrDouble_ne_literal _)
  | literal =>
    simp only [hw] at h
    split_ifs at h with hv
    simp only [Bool.not_eq_true, Bool.or_eq_false_iff] at hv
    have hne : s ≠ [] := by
      rintro rfl
      cases hw
    exact ⟨hne, prints_of_special hv.2⟩

end Methodology.Yaml
