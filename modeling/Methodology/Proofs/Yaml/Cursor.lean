import Mathlib.Data.List.Chain
import Methodology.Proofs.Text.Trim
import Methodology.Yaml.Printer.Scalar
import Methodology.Yaml.Text.Gap

/-!
# Moving through a printed text

* `Cursor.rest_skip`, `Cursor.skip_skip`: moving on along a line.
* `Prints`: a text of characters that print.
* `exists_span`, `exists_spaces`: where a run of characters or of spaces ends.
* `hasPair_eq_false_iff`: a text without a pair of neighbours.
* **`gapFrom_spaces`**, **`gapFrom_breaks`**: the gaps inside a printed scalar.
-/

namespace Methodology.Yaml

/-! ## Moving on along a line -/

namespace Cursor

@[simp] theorem column_skip (c : Cursor) (n : Nat) : (c.skip n).column = c.column + n := rfl

theorem skip_zero (c : Cursor) : c.skip 0 = c := rfl

theorem rest_skip {c : Cursor} {a b : List Char} (h : c.rest = a ++ b) :
    (c.skip a.length).rest = b := by
  simp [skip, h]

theorem rest_skip_one {c : Cursor} {x : Char} {b : List Char} (h : c.rest = x :: b) :
    (c.skip 1).rest = b := by
  simp [skip, h]

theorem index_skip {c : Cursor} {a b : List Char} (h : c.rest = a ++ b) :
    (c.skip a.length).index = c.index + Text.byteSize a := by
  simp [skip, h]

theorem skip_skip (c : Cursor) (m n : Nat) : (c.skip m).skip n = c.skip (m + n) := by
  have htake : c.rest.take (m + n) = c.rest.take m ++ (c.rest.drop m).take n := List.take_add
  simp only [skip, htake, List.drop_drop, Text.byteSize_append, Nat.add_assoc]

theorem skipWhile_eq {c : Cursor} {p : Char → Bool} {a b : List Char} (h : c.rest = a ++ b)
    (ha : ∀ x ∈ a, p x) (hb : ∀ x ∈ b.head?, p x = false) : c.skipWhile p = c.skip a.length := by
  have htake : (a ++ b).takeWhile p = a := by
    rw [List.takeWhile_append_of_pos ha]
    cases b with
    | nil => exact List.append_nil a
    | cons x b => rw [List.takeWhile_cons_of_neg (by simp [hb x rfl]), List.append_nil]
  rw [skipWhile, h, htake]

theorem skipWhile_eq_self {c : Cursor} {p : Char → Bool} (h : ∀ x ∈ c.rest.head?, p x = false) :
    c.skipWhile p = c :=
  skipWhile_eq (a := []) rfl (fun _ hx => absurd hx List.not_mem_nil) h

theorem skipLine_feed {c : Cursor} {rest : List Char} (h : c.rest = '\n' :: rest) :
    c.skipLine = ⟨rest, c.index + '\n'.utf8Size, c.line + 1, 0⟩ := by
  rw [skipLine, h]
  rfl

theorem atAnyMarker_of_column {c : Cursor} (h : 0 < c.column) : c.atAnyMarker = false := by
  have hcol : (c.column == 0) = false := beq_false_of_ne (by omega)
  simp [atAnyMarker, atMarker, hcol]

end Cursor

/-! ## Characters that print -/

/-- A text of characters that are written as they are. -/
def Prints (s : List Char) : Prop := ∀ c ∈ s, isPrintable c

theorem isStreamChar_of_isPrintable {c : Char} (h : isPrintable c) : isStreamChar c := by
  simp only [isPrintable, Bool.or_eq_true, Bool.and_eq_true, beq_iff_eq, decide_eq_true_eq,
    bne_iff_ne] at h
  simp only [isStreamChar, Bool.or_eq_true, Bool.and_eq_true, beq_iff_eq, decide_eq_true_eq]
  omega

theorem ne_of_isPrintable {c d : Char} (h : isPrintable c) (hd : isPrintable d = false) :
    c ≠ d := by
  intro hcd
  rw [hcd, hd] at h
  cases h

theorem isBlank_eq_isSpace {c : Char} (h : isPrintable c) : isBlank c = isSpace c := by
  have htab : (c == '\t') = false := beq_false_of_ne (ne_of_isPrintable h rfl)
  rw [isBlank, htab, Bool.or_false, isSpace]

theorem breakChar_eq_self {c : Char} (h : isPrintable c) (hb : isBreak c) : breakChar c = c := by
  have hr : c ≠ '\r' := ne_of_isPrintable h rfl
  have hn : c ≠ '\u0085' := ne_of_isPrintable h rfl
  simp only [isBreak, Bool.or_eq_true, beq_iff_eq, hr, hn, or_false] at hb
  rcases hb with (rfl | rfl) | rfl <;> rfl

theorem isSpace_of_isBreak {c : Char} (h : isBreak c) : isSpace c = false := by
  simp only [isBreak, Bool.or_eq_true, beq_iff_eq] at h
  rcases h with (((rfl | rfl) | rfl) | rfl) | rfl <;> rfl

theorem isBlank_of_isBreak {c : Char} (h : isBreak c) : isBlank c = false := by
  simp only [isBreak, Bool.or_eq_true, beq_iff_eq] at h
  rcases h with (((rfl | rfl) | rfl) | rfl) | rfl <;> rfl

theorem Cursor.skipLine_of_isPrintable {c : Cursor} {x : Char} {rest : List Char}
    (h : c.rest = x :: rest) (hx : isPrintable x) (hb : isBreak x) :
    c.skipLine = ⟨rest, c.index + x.utf8Size, c.line + 1, 0⟩ := by
  have hr : x ≠ '\r' := ne_of_isPrintable hx rfl
  simp only [skipLine, h, hr, hb, false_and, if_false, if_true]

/-! ## Where a run ends -/

theorem exists_span (p : Char → Bool) (s : List Char) :
    ∃ a b : List Char, s = a ++ b ∧ (∀ c ∈ a, p c) ∧ ∀ c ∈ b.head?, p c = false := by
  refine ⟨s.takeWhile p, s.dropWhile p, List.takeWhile_append_dropWhile.symm,
    fun c hc => List.all_eq_true.mp List.all_takeWhile c hc, fun c hc => ?_⟩
  have h := List.head?_dropWhile_not p s
  rw [Option.mem_def.mp hc] at h
  simpa using h

theorem eq_spaces {a : List Char} (h : ∀ c ∈ a, isSpace c) : a = spaces a.length := by
  refine List.eq_replicate_iff.mpr ⟨rfl, fun c hc => ?_⟩
  simpa [isSpace] using h c hc

theorem exists_spaces (s : List Char) :
    ∃ (n : Nat) (b : List Char), s = spaces n ++ b ∧ ∀ c ∈ b.head?, isSpace c = false := by
  obtain ⟨a, b, hs, ha, hb⟩ := exists_span isSpace s
  exact ⟨a.length, b, eq_spaces ha ▸ hs, hb⟩

theorem exists_run (t : List Char) : ∃ (run : List Char) (n : Nat) (t' : List Char),
    t = run ++ (spaces n ++ t') ∧ (∀ c ∈ run, isSpace c = false) ∧
      (∀ c ∈ t'.head?, isSpace c = false) ∧ (n = 0 → t' = []) := by
  obtain ⟨run, rest, ht, hrun, hrest⟩ := exists_span (fun c => !isSpace c) t
  obtain ⟨n, t', hn, ht'⟩ := exists_spaces rest
  refine ⟨run, n, t', hn ▸ ht, fun c hc => by simpa using hrun c hc, ht', ?_⟩
  rintro rfl
  cases t' with
  | nil => rfl
  | cons c t' =>
    -- a run ends in front of a space, so that something stands between it and `t'`
    have hc := hrest c (by rw [hn]; rfl)
    rw [ht' c rfl] at hc
    cases hc

@[simp] theorem length_spaces (n : Nat) : (spaces n).length = n := List.length_replicate

theorem spaces_succ (n : Nat) : spaces (n + 1) = ' ' :: spaces n := rfl

theorem spaces_add (m n : Nat) : spaces (m + n) = spaces m ++ spaces n :=
  (List.replicate_append_replicate ..).symm

theorem eq_space_of_mem_spaces {n : Nat} {c : Char} (h : c ∈ spaces n) : c = ' ' :=
  List.eq_of_mem_replicate h

theorem Cursor.rest_skip_spaces {c : Cursor} {n : Nat} {b : List Char}
    (h : c.rest = spaces n ++ b) : (c.skip n).rest = b := by
  have hskip := Cursor.rest_skip h
  rwa [length_spaces] at hskip

/-- **A text without a pair of neighbours.** -/
theorem hasPair_eq_false_iff {p q : Char → Bool} {s : List Char} :
    hasPair p q s = false ↔ s.IsChain fun a b => ¬(p a ∧ q b) := by
  induction s with
  | nil => simp [hasPair]
  | cons a s ih =>
    cases s with
    | nil => simp [hasPair]
    | cons b s => simp [hasPair, ih]

/-! ## Gaps -/

theorem gapFrom_stop (indent : Int) (fuel : Nat) {g : Gap}
    (h : ∀ x ∈ g.next.rest.head?, isBlank x = false ∧ isBreak x = false) :
    gapFrom indent fuel g = some g := by
  cases fuel with
  | zero => rfl
  | succ fuel =>
    cases hrest : g.next.rest with
    | nil => simp [gapFrom, Cursor.peek, hrest]
    | cons x rest =>
      obtain ⟨hblank, hbreak⟩ := h x (by rw [hrest]; rfl)
      simp [gapFrom, Cursor.peek, hrest, hblank, hbreak]

/-- **A gap of spaces.** Behind a line break they are an indentation, which is left out. -/
theorem gapFrom_spaces (indent : Int) (n fuel : Nat) {g : Gap} {t : List Char}
    (h : g.next.rest = spaces n ++ t) (hfuel : n ≤ fuel)
    (ht : ∀ x ∈ t.head?, isBlank x = false ∧ isBreak x = false) :
    gapFrom indent fuel g = some ⟨if g.breaks.isEmpty then g.blanks ++ spaces n else g.blanks,
      g.breaks, g.next.skip n⟩ := by
  induction n generalizing fuel g with
  | zero =>
    rw [gapFrom_stop indent fuel (by rw [h]; exact ht)]
    simp [spaces, Cursor.skip_zero]
  | succ n ih =>
    obtain ⟨fuel, rfl⟩ : ∃ m, fuel = m + 1 := ⟨fuel - 1, by omega⟩
    rw [spaces_succ, List.cons_append] at h
    have hpeek : g.next.peek = some ' ' := by rw [Cursor.peek, h]; rfl
    have hrest : (g.next.skip 1).rest = spaces n ++ t := Cursor.rest_skip_one h
    have hspace : (' ' : Char) ≠ '\t' := by decide
    rw [gapFrom, hpeek]
    by_cases hb : g.breaks.isEmpty
    · simp only [hb, show isBlank ' ' = true from rfl, if_true]
      rw [ih _ hrest (by omega)]
      simp only [hb, if_true, List.append_assoc, List.singleton_append, Cursor.skip_skip,
        spaces_succ, Nat.add_comm 1 n]
    · simp only [hb, show isBlank ' ' = true from rfl, hspace, false_and, if_true, if_false,
        Bool.false_eq_true]
      rw [ih _ hrest (by omega)]
      simp only [hb, if_false, Cursor.skip_skip, Nat.add_comm 1 n, Bool.false_eq_true]

theorem gapFrom_start (indent : Int) (fuel : Nat) {n : Nat} {c : Cursor} {t : List Char}
    (h : c.rest = spaces n ++ t) (hfuel : n ≤ fuel)
    (ht : ∀ x ∈ t.head?, isBlank x = false ∧ isBreak x = false) :
    gapFrom indent fuel (Gap.start c) = some ⟨spaces n, [], c.skip n⟩ :=
  gapFrom_spaces (g := Gap.start c) indent n fuel h hfuel ht

/-- **A gap of line breaks** with an indentation behind them. -/
theorem gapFrom_breaks (indent : Int) (n fuel : Nat) {bs : List Char} (hbs : bs ≠ [])
    (hbreak : ∀ c ∈ bs, isPrintable c ∧ isBreak c) {g : Gap} {t : List Char}
    (h : g.next.rest = bs ++ (spaces n ++ t)) (hfuel : bs.length + n ≤ fuel)
    (ht : ∀ x ∈ t.head?, isBlank x = false ∧ isBreak x = false) :
    ∃ c : Cursor, gapFrom indent fuel g = some ⟨[], g.breaks ++ bs, c⟩ ∧ c.rest = t ∧
      c.column = n := by
  induction bs generalizing fuel g with
  | nil => exact absurd rfl hbs
  | cons b bs ih =>
    obtain ⟨fuel, rfl⟩ : ∃ m, fuel = m + 1 := ⟨fuel - 1, by simp at hfuel; omega⟩
    obtain ⟨hprint, hb⟩ := hbreak b List.mem_cons_self
    rw [List.cons_append] at h
    have hpeek : g.next.peek = some b := by rw [Cursor.peek, h]; rfl
    obtain ⟨c, hskip, hrest, hcol⟩ : ∃ c : Cursor, g.next.skipLine = c ∧
        c.rest = bs ++ (spaces n ++ t) ∧ c.column = 0 :=
      ⟨_, Cursor.skipLine_of_isPrintable h hprint hb, rfl, rfl⟩
    rw [gapFrom, hpeek]
    simp only [isBlank_of_isBreak hb, hb, hskip, breakChar_eq_self hprint hb, Bool.false_eq_true,
      if_true, if_false]
    rw [List.length_cons] at hfuel
    cases bs with
    | nil =>
      rw [gapFrom_spaces (g := ⟨[], g.breaks ++ [b], c⟩) indent n _ hrest (by omega) ht]
      exact ⟨c.skip n, by simp, Cursor.rest_skip_spaces hrest, by simp [hcol]⟩
    | cons d bs =>
      have hmore : ∀ c ∈ d :: bs, isPrintable c ∧ isBreak c := fun c hc =>
        hbreak c (List.mem_cons_of_mem b hc)
      obtain ⟨c', hc', hrest', hcol'⟩ := ih fuel (List.cons_ne_nil _ _) hmore
        (g := ⟨[], g.breaks ++ [b], c⟩) hrest (show (d :: bs).length + n ≤ fuel by omega)
      exact ⟨c', by rw [hc', List.append_assoc, List.singleton_append], hrest', hcol'⟩

end Methodology.Yaml
