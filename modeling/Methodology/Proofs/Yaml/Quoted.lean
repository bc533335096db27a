import Methodology.Proofs.Text.Digits
import Methodology.Proofs.Yaml.Style
import Methodology.Yaml.Text.Quoted

/-!
# Quoted texts are read back

A quoted text is a row of runs and gaps as well; its runs are read character by character, and each
character is written so that it is read back.

* `hexChar_capitalHex`, **`escape_escapeOf`**: an escaped character is read back.
* `quotedRun_flatMap`: a run is read if each of its characters is.
* **`quotedScalar_single`**, **`quotedScalar_double`**: a quoted text is read back.
-/

namespace Methodology.Yaml

open Text

/-! ## Escaped characters -/

theorem hexChar_capitalHex {width : Nat} {x : Char} {c : Cursor} {more : List Char}
    (hx : x.toNat < 16 ^ (width + 1)) (h : c.rest = capitalHex (width + 1) x.toNat ++ more) :
    hexChar (width + 1) c = some (x, c.skip (width + 1)) := by
  have hdigits : capitalHex (width + 1) x.toNat =
      (places 16 (width + 1) x.toNat).map fun d => (Nat.digitChar d).toUpper := by
    rw [capitalHex, hex, padded_toDigits (by decide) hx, List.map_map]
    rfl
  have hlen : (capitalHex (width + 1) x.toNat).length = width + 1 := by rw [hdigits]; simp
  have hread : (capitalHex (width + 1) x.toNat).mapM hexValue? =
      some (places 16 (width + 1) x.toNat) := by
    rw [hdigits]
    exact mapM_hexValue?_map (fun d hd => hexValue?_toUpper_digitChar hd)
      fun d hd => lt_of_mem_places (by decide) hd
  have hvalid : x.toNat < 0xD800 ∨ (0xDFFF < x.toNat ∧ x.toNat ≤ 0x10FFFF) := by
    have hchar : x.toNat.isValidChar := x.valid
    simp only [Nat.isValidChar] at hchar
    omega
  rw [hexChar, h, List.take_left' hlen, hread]
  simp only [Option.bind_eq_bind, Option.bind_some, foldl_places, Nat.mod_eq_of_lt hx,
    length_places, hvalid, and_true, if_true, Char.ofNat_toNat]

theorem escape_letter {c : Cursor} {letter x : Char} {more : List Char}
    (hletter : escapedChar? letter = some x) (h : c.rest = letter :: more) :
    escape c = some (x, c.skip 1) := by
  have hpeek : c.peek = some letter := by rw [Cursor.peek, h]; rfl
  have hx : letter ≠ 'x' := by rintro rfl; cases hletter
  have hu : letter ≠ 'u' := by rintro rfl; cases hletter
  have hU : letter ≠ 'U' := by rintro rfl; cases hletter
  rw [escape, hpeek]
  split
  · next heq => cases heq
  · next heq => exact absurd (Option.some.inj heq) hx
  · next heq => exact absurd (Option.some.inj heq) hu
  · next heq => exact absurd (Option.some.inj heq) hU
  · next heq =>
    rw [← Option.some.inj heq, hletter]
    rfl

/-- An escape is a letter that stands for the character, or the number of the character behind a
letter that says how wide it is. -/
theorem escapeOf_cases (x : Char) :
    (∃ letter, escapeOf x = [letter] ∧ escapedChar? letter = some x) ∨
      (x.toNat < 16 ^ 2 ∧ escapeOf x = 'x' :: capitalHex 2 x.toNat) ∨
      (x.toNat < 16 ^ 4 ∧ escapeOf x = 'u' :: capitalHex 4 x.toNat) ∨
      escapeOf x = 'U' :: capitalHex 8 x.toNat := by
  by_cases hletter : x.toNat ∈ [0x00, 0x07, 0x08, 0x09, 0x0A, 0x0B, 0x0C, 0x0D, 0x1B, 0x22, 0x5C,
      0x85, 0xA0, 0x2028, 0x2029]
  · left
    have hall : ∀ n ∈ [0x00, 0x07, 0x08, 0x09, 0x0A, 0x0B, 0x0C, 0x0D, 0x1B, 0x22, 0x5C, 0x85, 0xA0,
        0x2028, 0x2029], escapeOf (Char.ofNat n) = [(escapeOf (Char.ofNat n)).headD ' '] ∧
          escapedChar? ((escapeOf (Char.ofNat n)).headD ' ') = some (Char.ofNat n) := by decide
    have hx := hall x.toNat hletter
    rw [Char.ofNat_toNat] at hx
    exact ⟨_, hx⟩
  · right
    simp only [List.mem_cons, List.not_mem_nil, or_false, not_or] at hletter
    obtain ⟨h₀, h₁, h₂, h₃, h₄, h₅, h₆, h₇, h₈, h₉, h₁₀, h₁₁, h₁₂, h₁₃, h₁₄⟩ := hletter
    rw [escapeOf, if_neg h₀, if_neg h₁, if_neg h₂, if_neg h₃, if_neg h₄, if_neg h₅, if_neg h₆,
      if_neg h₇, if_neg h₈, if_neg h₉, if_neg h₁₀, if_neg h₁₁, if_neg h₁₂, if_neg h₁₃, if_neg h₁₄]
    by_cases hbyte : x.toNat ≤ 0xFF
    · exact .inl ⟨by omega, if_pos hbyte⟩
    · rw [if_neg hbyte]
      by_cases hplane : x.toNat ≤ 0xFFFF
      · exact .inr (.inl ⟨by omega, if_pos hplane⟩)
      · exact .inr (.inr (if_neg hplane))

theorem length_capitalHex {width n : Nat} (hn : n < 16 ^ (width + 1)) :
    (capitalHex (width + 1) n).length = width + 1 := by
  rw [capitalHex, List.length_map, hex, padded_toDigits (by decide) hn, List.length_map,
    length_places]

/-- **An escaped character is read back.** -/
theorem escape_escapeOf {x : Char} {c : Cursor} {more : List Char}
    (h : c.rest = escapeOf x ++ more) :
    escape c = some (x, c.skip (escapeOf x).length) := by
  have hmax : x.toNat < 16 ^ 8 := by
    have hchar : x.toNat.isValidChar := x.valid
    simp only [Nat.isValidChar] at hchar
    omega
  obtain ⟨letter, heq, hletter⟩ | ⟨hx, heq⟩ | ⟨hx, heq⟩ | heq := escapeOf_cases x
  · rw [heq] at h ⊢
    exact escape_letter hletter h
  · rw [heq] at h ⊢
    have hpeek : c.peek = some 'x' := by rw [Cursor.peek, h]; rfl
    rw [escape, hpeek, List.length_cons, length_capitalHex hx, Nat.add_comm (1 + 1) 1,
      ← Cursor.skip_skip]
    exact hexChar_capitalHex hx (Cursor.rest_skip_one h)
  · rw [heq] at h ⊢
    have hpeek : c.peek = some 'u' := by rw [Cursor.peek, h]; rfl
    rw [escape, hpeek, List.length_cons, length_capitalHex hx, Nat.add_comm (3 + 1) 1,
      ← Cursor.skip_skip]
    exact hexChar_capitalHex hx (Cursor.rest_skip_one h)
  · rw [heq] at h ⊢
    have hpeek : c.peek = some 'U' := by rw [Cursor.peek, h]; rfl
    rw [escape, hpeek, List.length_cons, length_capitalHex hmax, Nat.add_comm (7 + 1) 1,
      ← Cursor.skip_skip]
    exact hexChar_capitalHex hmax (Cursor.rest_skip_one h)

theorem exists_escapeOf (x : Char) : ∃ y ys, escapeOf x = y :: ys ∧ isBreak y = false := by
  obtain ⟨letter, heq, hletter⟩ | ⟨-, heq⟩ | ⟨-, heq⟩ | heq := escapeOf_cases x
  · refine ⟨letter, [], heq, Bool.eq_false_iff.mpr fun hbreak => ?_⟩
    simp only [isBreak, Bool.or_eq_true, beq_iff_eq] at hbreak
    rcases hbreak with (((rfl | rfl) | rfl) | rfl) | rfl <;> cases hletter
  · exact ⟨_, _, heq, rfl⟩
  · exact ⟨_, _, heq, rfl⟩
  · exact ⟨_, _, heq, rfl⟩

/-! ## Runs -/

/-- **A run is read** if each of its characters is, however that is written. -/
theorem quotedRun_flatMap {q : Quote} {enc : Char → List Char} {run rest : List Char}
    (hstep : ∀ x ∈ run, ∀ (fuel : Nat) (c : Cursor) (more : List Char), c.rest = enc x ++ more →
      quotedRun q (fuel + 1) c = (quotedRun q fuel (c.skip (enc x).length)).map fun r =>
        (x :: r.1, r.2))
    (hstop : ∀ (fuel : Nat) (c : Cursor), c.rest = rest →
      quotedRun q (fuel + 1) c = some ([], c, false))
    (fuel : Nat) {c : Cursor} (h : c.rest = run.flatMap enc ++ rest) (hfuel : run.length < fuel) :
    quotedRun q fuel c = some (run, c.skip (run.flatMap enc).length, false) := by
  induction run generalizing fuel c with
  | nil =>
    obtain ⟨fuel, rfl⟩ : ∃ n, fuel = n + 1 := ⟨fuel - 1, by simp at hfuel; omega⟩
    exact hstop fuel c h
  | cons x run ih =>
    obtain ⟨fuel, rfl⟩ : ∃ n, fuel = n + 1 := ⟨fuel - 1, by simp at hfuel; omega⟩
    rw [List.flatMap_cons, List.append_assoc] at h
    have hmore := ih (fun y hy => hstep y (List.mem_cons_of_mem x hy)) fuel
      (Cursor.rest_skip h) (by simpa using hfuel)
    rw [hstep x List.mem_cons_self fuel c _ h, hmore, Option.map_some, Cursor.skip_skip,
      List.flatMap_cons, List.length_append]

/-- A character between single quotes. -/
def singleChar (x : Char) : List Char := if x = '\'' then ['\'', '\''] else [x]

theorem quotedRun_singleChar {x : Char} (hx : isBlank x = false ∧ isBreak x = false) (fuel : Nat)
    (c : Cursor) (more : List Char) (h : c.rest = singleChar x ++ more) :
    quotedRun .single (fuel + 1) c =
      (quotedRun .single fuel (c.skip (singleChar x).length)).map fun r => (x :: r.1, r.2) := by
  by_cases hquote : x = '\''
  · subst hquote
    have hrest : c.rest = '\'' :: '\'' :: more := h
    rw [quotedRun, hrest]
    simp [isBlank, isBreak, Quote.mark, singleChar]
  · have hsingle : singleChar x = [x] := if_neg hquote
    have hrest : c.rest = x :: more := by rw [h, hsingle]; rfl
    have hmark : x ≠ Quote.single.mark := hquote
    rw [quotedRun, hrest]
    simp [hx.1, hx.2, hmark, hsingle]

theorem quotedRun_doubleChar {x : Char} (hx : isSpace x = false) (fuel : Nat) (c : Cursor)
    (more : List Char) (h : c.rest = doubleChar x ++ more) :
    quotedRun .double (fuel + 1) c =
      (quotedRun .double fuel (c.skip (doubleChar x).length)).map fun r => (x :: r.1, r.2) := by
  by_cases hraw : (!isPrintable x || isBreak x || x == '"' || x == '\\') = true
  · have hdouble : doubleChar x = '\\' :: escapeOf x := if_pos hraw
    rw [hdouble, List.cons_append] at h
    have hnext : (c.skip 1).rest = escapeOf x ++ more := Cursor.rest_skip_one h
    obtain ⟨y, ys, hescape, hbreak⟩ := exists_escapeOf x
    have hhead : (escapeOf x ++ more).head?.any isBreak = false := by
      rw [hescape]
      exact hbreak
    have hslash : ('\\' : Char) ≠ Quote.double.mark := by decide
    rw [quotedRun, h]
    simp only [show isBlank '\\' = false from rfl, show isBreak '\\' = false from rfl, hslash,
      hhead, Bool.or_self, Bool.false_eq_true, if_false, and_self, if_true,
      escape_escapeOf hnext, Option.bind_eq_bind, Option.bind_some]
    rw [hdouble, List.length_cons, Nat.add_comm _ 1, Cursor.skip_skip]
    cases quotedRun Quote.double fuel (c.skip (1 + (escapeOf x).length)) <;> rfl
  · have hdouble : doubleChar x = [x] := if_neg hraw
    simp only [Bool.not_eq_true, Bool.or_eq_false_iff, Bool.not_eq_false', beq_eq_false_iff_ne]
      at hraw
    obtain ⟨⟨⟨hprint, hbreak⟩, hquote⟩, hslash⟩ := hraw
    have hblank : isBlank x = false := by rw [isBlank_eq_isSpace hprint, hx]
    have hmark : x ≠ Quote.double.mark := hquote
    have hrest : c.rest = x :: more := by rw [h, hdouble]; rfl
    rw [quotedRun, hrest]
    simp [hblank, hbreak, hmark, hslash, hdouble]

/-! ## The scanner -/

theorem quotedFrom_end {q : Quote} {fuel : Nat} {text run tail : List Char} {c c' : Cursor}
    (hcolumn : 0 < c.column) (hpeek : c.peek.isNone = false)
    (hrun : quotedRun q (c.rest.length + 1) c = some (run, c', false))
    (h : c'.rest = q.mark :: tail) :
    quotedFrom q (fuel + 1) text c = some (text ++ run, c'.skip 1) := by
  have hpeek' : c'.peek = some q.mark := by rw [Cursor.peek, h]; rfl
  rw [quotedFrom, Cursor.atAnyMarker_of_column hcolumn, hpeek, hrun]
  simp [hpeek']

theorem quotedFrom_gap {q : Quote} {fuel : Nat} {text run : List Char} {c c' : Cursor} {g : Gap}
    (hcolumn : 0 < c.column) (hpeek : c.peek.isNone = false)
    (hrun : quotedRun q (c.rest.length + 1) c = some (run, c', false))
    (h : c'.peek ≠ some q.mark)
    (hgap : gapFrom 0 (c'.rest.length + 1) (Gap.start c') = some g) :
    quotedFrom q (fuel + 1) text c = quotedFrom q fuel (text ++ run ++ g.folded) g.next := by
  rw [quotedFrom, Cursor.atAnyMarker_of_column hcolumn, hpeek, hrun]
  simp [h, hgap]

/-! ## Single quotes -/

theorem singleChars_run (indent : Nat) {run : List Char} (hrun : ∀ c ∈ run, isBreak c = false)
    (rest : List Char) : singleChars indent false (run ++ rest) =
      run.flatMap singleChar ++ singleChars indent false rest := by
  induction run with
  | nil => rfl
  | cons c run ih =>
    have hc := hrun c List.mem_cons_self
    rw [List.cons_append, singleChars, ih fun d hd => hrun d (List.mem_cons_of_mem c hd)]
    simp [hc, singleChar]

theorem singleChars_spaces (indent n : Nat) (rest : List Char) :
    singleChars indent false (spaces n ++ rest) = spaces n ++ singleChars indent false rest := by
  have hbreak : ∀ c ∈ spaces n, isBreak c = false := fun c hc => eq_space_of_mem_spaces hc ▸ rfl
  rw [singleChars_run indent hbreak]
  congr 1
  induction n with
  | zero => rfl
  | succ n ih =>
    rw [spaces_succ, List.flatMap_cons, ih fun c hc => eq_space_of_mem_spaces hc ▸ rfl]
    rfl

theorem singleChars_breaks (indent : Nat) {bs : List Char} (hbs : bs ≠ [])
    (hbreak : ∀ c ∈ bs, isBreak c) {rest : List Char} (hrest : ∀ c ∈ rest.head?, isBreak c = false)
    (after : Bool) : singleChars indent after (bs ++ rest) =
      bs ++ (spaces indent ++ singleChars indent false rest) := by
  induction bs generalizing after with
  | nil => exact absurd rfl hbs
  | cons b bs ih =>
    have hb := hbreak b List.mem_cons_self
    rw [List.cons_append, singleChars, if_pos hb, List.cons_append]
    congr 1
    cases bs with
    | nil =>
      cases rest with
      | nil => simp [singleChars]
      | cons c rest =>
        have hc := hrest c rfl
        simp [singleChars, hc]
    | cons d bs =>
      exact ih (List.cons_ne_nil _ _) (fun c hc => hbreak c (List.mem_cons_of_mem b hc)) _

theorem head_singleChars {indent : Nat} {rest tail : List Char}
    (h : ∀ c ∈ rest.head?, isBlank c = false ∧ isBreak c = false) :
    ∀ x ∈ (singleChars indent false rest ++ '\'' :: tail).head?,
      isBlank x = false ∧ isBreak x = false := by
  intro x hx
  cases rest with
  | nil =>
    obtain rfl : '\'' = x := by simpa [singleChars] using hx
    exact ⟨rfl, rfl⟩
  | cons c rest =>
    have hc := h c rfl
    simp only [singleChars, hc.2, Bool.false_eq_true, if_false, List.nil_append] at hx
    split_ifs at hx with hquote
    · obtain rfl : '\'' = x := by simpa using hx
      exact ⟨rfl, rfl⟩
    · obtain rfl : c = x := by simpa using hx
      exact hc

theorem length_le_singleChars (indent : Nat) (after : Bool) (s : List Char) :
    s.length ≤ (singleChars indent after s).length := by
  induction s generalizing after with
  | nil => exact Nat.zero_le _
  | cons c s ih =>
    rw [singleChars]
    split_ifs
    · have := ih true
      simp only [List.length_cons]
      omega
    all_goals
      have := ih false
      simp only [List.length_cons, List.length_append]
      omega

theorem singleChar_ne_nil (x : Char) : singleChar x ≠ [] := by
  unfold singleChar
  split_ifs <;> exact List.cons_ne_nil _ _

theorem quotedRun_single {run rest : List Char} {c : Cursor}
    (hrun : ∀ x ∈ run, isBlank x = false ∧ isBreak x = false)
    (h : c.rest = run.flatMap singleChar ++ rest)
    (hrest : (∃ y ys, rest = y :: ys ∧ (isBlank y || isBreak y)) ∨
      ∃ ys, rest = '\'' :: ys ∧ ys.head? ≠ some '\'') :
    quotedRun .single (c.rest.length + 1) c =
      some (run, c.skip (run.flatMap singleChar).length, false) := by
  have hlength := length_le_flatMap fun x (_ : x ∈ run) => singleChar_ne_nil x
  refine quotedRun_flatMap (fun x hx => quotedRun_singleChar (hrun x hx)) (fun fuel c' hc' => ?_) _
    h (by rw [h, List.length_append]; omega)
  obtain ⟨y, ys, rfl, hy⟩ | ⟨ys, rfl, hys⟩ := hrest
  · simp only [quotedRun, hc', hy, if_true]
  · simp [quotedRun, hc', isBlank, isBreak, Quote.mark, hys]

theorem folded_breaks {bs : List Char} (hbs : bs ≠ []) (hfeed : '\n' ∉ bs) (c : Cursor) :
    (⟨[], bs, c⟩ : Gap).folded = bs := by
  obtain ⟨b, bs, rfl⟩ := List.exists_cons_of_ne_nil hbs
  have hb : b ≠ '\n' := fun h => hfeed (h ▸ List.mem_cons_self)
  unfold Gap.folded
  split
  · next heq => cases heq
  · next heq => exact absurd (List.cons.inj heq).1 hb
  · next heq => exact absurd (List.cons.inj heq).1 hb
  · rfl

theorem IsSingle.right {a b : List Char} (h : IsSingle (a ++ b)) : IsSingle b :=
  ⟨fun c hc => h.prints c (List.mem_append_right a hc),
    fun hc => h.noFeed (List.mem_append_right a hc), h.spaceBreak.right_of_append,
    h.breakSpace.right_of_append⟩

/-- **The first gap** of a text between single quotes is made of spaces, or of line breaks; what
stands behind it is neither. -/
theorem IsSingle.cases {t : List Char} (h : IsSingle t) : ∃ run rest : List Char,
    t = run ++ rest ∧ (∀ c ∈ run, isBlank c = false ∧ isBreak c = false) ∧
      (rest = [] ∨ ∃ gap t' : List Char, rest = gap ++ t' ∧ gap ≠ [] ∧ IsSingle t' ∧
        (∀ c ∈ t'.head?, isBlank c = false ∧ isBreak c = false) ∧
        ((∃ n, gap = spaces n) ∨ '\n' ∉ gap ∧ ∀ c ∈ gap, isPrintable c ∧ isBreak c)) := by
  obtain ⟨run, rest, rfl, hrun, hrest⟩ := exists_span (fun c => !isSpace c && !isBreak c) t
  refine ⟨run, rest, rfl, fun c hc => ?_, ?_⟩
  · have hc' := hrun c hc
    rw [Bool.and_eq_true, Bool.not_eq_true', Bool.not_eq_true'] at hc'
    exact ⟨by rw [isBlank_eq_isSpace (h.prints c (List.mem_append_left rest hc)), hc'.1], hc'.2⟩
  cases rest with
  | nil => exact .inl rfl
  | cons x rest =>
    right
    have hsuffix := h.right
    have hx := hrest x rfl
    by_cases hbreak : isBreak x = true
    · -- a gap of line breaks
      obtain ⟨bs, t', ht, hbs, ht'⟩ := exists_span isBreak (x :: rest)
      have hne : bs ≠ [] := by
        rintro rfl
        have := ht' x (by rw [← List.nil_append t', ← ht]; rfl)
        rw [hbreak] at this
        cases this
      rw [ht] at hsuffix
      have hleft : ∀ c ∈ bs, c ∈ bs ++ t' := fun c hc => List.mem_append_left t' hc
      refine ⟨bs, t', ht, hne, hsuffix.right, fun c hc => ⟨?_, ht' c hc⟩,
        .inr ⟨fun hc => hsuffix.noFeed (hleft _ hc),
          fun c hc => ⟨hsuffix.prints c (hleft c hc), hbs c hc⟩⟩⟩
      obtain ⟨t'', rfl⟩ := List.head?_eq_some_iff.mp hc
      have hprint := hsuffix.prints c (List.mem_append_right bs List.mem_cons_self)
      have hpair := hsuffix.breakSpace
      rw [← List.dropLast_append_getLast hne, List.append_assoc, List.singleton_append] at hpair
      have hnot := (List.isChain_append_cons_cons.mp hpair).2.1
      rw [isBlank_eq_isSpace hprint]
      exact Bool.eq_false_iff.mpr fun hc' => hnot ⟨hbs _ (List.getLast_mem hne), hc'⟩
    · -- a gap of spaces
      obtain ⟨n, t', ht, ht'⟩ := exists_spaces (x :: rest)
      obtain ⟨n, rfl⟩ : ∃ m, n = m + 1 := by
        cases n with
        | succ n => exact ⟨n, rfl⟩
        | zero =>
          have hspace := ht' x (by
            rw [← List.nil_append t', ← show spaces 0 = [] from rfl, ← ht]
            rfl)
          rw [Bool.eq_false_iff.mpr hbreak, hspace] at hx
          cases hx
      rw [ht] at hsuffix
      refine ⟨spaces (n + 1), t', ht, List.cons_ne_nil _ _, hsuffix.right, fun c hc => ?_,
        .inl ⟨_, rfl⟩⟩
      obtain ⟨t'', rfl⟩ := List.head?_eq_some_iff.mp hc
      have hprint := hsuffix.prints c (List.mem_append_right _ List.mem_cons_self)
      refine ⟨by rw [isBlank_eq_isSpace hprint, ht' c rfl], Bool.eq_false_iff.mpr fun hc' => ?_⟩
      have hpair := hsuffix.spaceBreak
      rw [spaces_add, List.append_assoc] at hpair
      exact (List.isChain_append_cons_cons.mp hpair).2.1 ⟨rfl, hc'⟩

theorem isNone_peek_single {indent : Nat} {t tail : List Char} {c : Cursor}
    (h : c.rest = singleChars indent false t ++ '\'' :: tail) : c.peek.isNone = false := by
  rw [Cursor.peek, h]
  cases singleChars indent false t <;> rfl

theorem quotedFrom_single {indent : Nat} (hindent : 0 < indent) {t tail : List Char}
    (ht : IsSingle t) (htail : tail.head? ≠ some '\'') (fuel : Nat) (text : List Char) {c : Cursor}
    (h : c.rest = singleChars indent false t ++ '\'' :: tail) (hcolumn : 0 < c.column)
    (hfuel : t.length < fuel) :
    ∃ c', quotedFrom .single fuel text c = some (text ++ t, c') ∧ c'.rest = tail := by
  induction hlen : t.length using Nat.strong_induction_on generalizing t fuel text c with
  | _ len ih =>
  obtain ⟨fuel, rfl⟩ : ∃ n, fuel = n + 1 := ⟨fuel - 1, by omega⟩
  have hpeek := isNone_peek_single h
  obtain ⟨run, rest, rfl, hrun, hcases⟩ := ht.cases
  rw [singleChars_run indent fun c hc => (hrun c hc).2, List.append_assoc] at h
  have hnext := Cursor.rest_skip h
  rcases hcases with rfl | ⟨gap, t', rfl, hne, ht', hhead, hgap⟩
  · -- the last run
    have hnext' : (c.skip (run.flatMap singleChar).length).rest = '\'' :: tail := hnext
    refine ⟨_, quotedFrom_end hcolumn hpeek (quotedRun_single hrun h (.inr ⟨_, rfl, htail⟩)) hnext'
      |>.trans ?_, Cursor.rest_skip_one hnext'⟩
    rw [List.append_nil]
  · have hpos : 0 < gap.length := List.length_pos_iff.mpr hne
    simp only [List.length_append] at hlen hfuel
    have hmore : ∀ {g : Gap}, (c.skip (run.flatMap singleChar).length).peek ≠ some '\'' →
        quotedRun .single (c.rest.length + 1) c =
          some (run, c.skip (run.flatMap singleChar).length, false) →
        gapFrom 0 ((c.skip (run.flatMap singleChar).length).rest.length + 1)
          (Gap.start (c.skip (run.flatMap singleChar).length)) = some g → g.folded = gap →
        g.next.rest = singleChars indent false t' ++ '\'' :: tail → 0 < g.next.column →
        ∃ c', quotedFrom .single (fuel + 1) text c = some (text ++ (run ++ (gap ++ t')), c') ∧
          c'.rest = tail := by
      intro g hmark hread hgap hfolded hrest hcol
      obtain ⟨c', hc', hrest'⟩ := ih t'.length (by omega) ht' fuel
        (text ++ run ++ gap) hrest hcol (by omega) rfl
      refine ⟨c', ?_, hrest'⟩
      rw [quotedFrom_gap hcolumn hpeek hread hmark hgap, hfolded, ← List.append_assoc,
        ← List.append_assoc]
      exact hc'
    obtain ⟨n, rfl⟩ | ⟨hfeed, hbreaks⟩ := hgap
    · -- a gap of spaces
      obtain ⟨n, rfl⟩ : ∃ m, n = m + 1 := ⟨n - 1, by simp at hpos; omega⟩
      rw [singleChars_spaces, List.append_assoc] at h hnext
      refine hmore ?_ (quotedRun_single hrun h (.inl ⟨_, _, rfl, rfl⟩))
        (gapFrom_start 0 _ hnext (by rw [hnext]; simp; omega) (head_singleChars hhead)) rfl
        (Cursor.rest_skip_spaces hnext) (by simp only [Cursor.column_skip]; omega)
      rw [Cursor.peek, hnext]
      exact fun heq => absurd (Option.some.inj heq) (by decide)
    · -- a gap of line breaks, with an indentation behind it
      rw [singleChars_breaks indent hne (fun c hc => (hbreaks c hc).2)
        (fun c hc => (hhead c hc).2), List.append_assoc, List.append_assoc] at h hnext
      obtain ⟨b, bs, rfl⟩ := List.exists_cons_of_ne_nil hne
      obtain ⟨c', hc', hrest', hcol'⟩ := gapFrom_breaks
        (g := Gap.start (c.skip (run.flatMap singleChar).length)) 0 indent
        ((c.skip (run.flatMap singleChar).length).rest.length + 1) hne hbreaks hnext
        (by rw [hnext]; simp; omega) (head_singleChars hhead)
      have hb := (hbreaks b List.mem_cons_self).2
      refine hmore ?_ (quotedRun_single hrun h (.inl ⟨_, _, rfl, by rw [hb, Bool.or_true]⟩)) hc'
        (folded_breaks hne hfeed c') hrest' (hcol' ▸ hindent)
      rw [Cursor.peek, hnext]
      rintro heq
      obtain rfl : b = '\'' := Option.some.inj heq
      cases hb

/-- **A text between single quotes** is read back. -/
theorem quotedScalar_single {indent : Nat} (hindent : 0 < indent) {s tail : List Char}
    (hs : IsSingle s) (htail : tail.head? ≠ some '\'') {c : Cursor}
    (h : c.rest = singleChars indent false s ++ '\'' :: tail) (hcolumn : 0 < c.column) :
    ∃ c', quotedScalar .single c = some (s, c') ∧ c'.rest = tail := by
  have hlength : s.length ≤ (singleChars indent false s).length :=
    length_le_singleChars indent false s
  exact quotedFrom_single hindent hs htail _ [] h hcolumn (by rw [h, List.length_append]; omega)

/-! ## Double quotes -/

theorem exists_doubleChar {x : Char} (hx : isSpace x = false) : ∃ y ys, doubleChar x = y :: ys ∧
    isBlank y = false ∧ isBreak y = false ∧ y ≠ '"' := by
  by_cases hraw : (!isPrintable x || isBreak x || x == '"' || x == '\\') = true
  · exact ⟨'\\', escapeOf x, if_pos hraw, rfl, rfl, by decide⟩
  · refine ⟨x, [], if_neg hraw, ?_⟩
    simp only [Bool.not_eq_true, Bool.or_eq_false_iff, Bool.not_eq_false', beq_eq_false_iff_ne]
      at hraw
    exact ⟨by rw [isBlank_eq_isSpace hraw.1.1.1, hx], hraw.1.1.2, hraw.1.2⟩

theorem doubleChar_ne_nil (x : Char) : doubleChar x ≠ [] := by
  unfold doubleChar
  split_ifs <;> exact List.cons_ne_nil _ _

theorem flatMap_doubleChar_spaces (n : Nat) : (spaces n).flatMap doubleChar = spaces n := by
  induction n with
  | zero => rfl
  | succ n ih => rw [spaces_succ, List.flatMap_cons, ih]; rfl

theorem isNone_peek_double {t tail : List Char} {c : Cursor}
    (h : c.rest = t.flatMap doubleChar ++ '"' :: tail) : c.peek.isNone = false := by
  rw [Cursor.peek, h]
  cases t.flatMap doubleChar <;> rfl

theorem quotedRun_double {run rest : List Char} {c : Cursor}
    (hrun : ∀ x ∈ run, isSpace x = false) (h : c.rest = run.flatMap doubleChar ++ rest)
    (hrest : ∃ y ys, rest = y :: ys ∧ (y = ' ' ∨ y = '"')) :
    quotedRun .double (c.rest.length + 1) c =
      some (run, c.skip (run.flatMap doubleChar).length, false) := by
  have hlength := length_le_flatMap fun x (_ : x ∈ run) => doubleChar_ne_nil x
  refine quotedRun_flatMap (fun x hx => quotedRun_doubleChar (hrun x hx)) (fun fuel c' hc' => ?_) _
    h (by rw [h, List.length_append]; omega)
  obtain ⟨y, ys, rfl, rfl | rfl⟩ := hrest
  · simp [quotedRun, hc', isBlank]
  · simp [quotedRun, hc', isBlank, isBreak, Quote.mark]

theorem quotedFrom_double (fuel : Nat) (text : List Char) {t tail : List Char} {c : Cursor}
    (h : c.rest = t.flatMap doubleChar ++ '"' :: tail) (hcolumn : 0 < c.column)
    (hfuel : t.length < fuel) :
    ∃ c', quotedFrom .double fuel text c = some (text ++ t, c') ∧ c'.rest = tail := by
  induction hlen : t.length using Nat.strong_induction_on generalizing t fuel text c with
  | _ len ih =>
  obtain ⟨fuel, rfl⟩ : ∃ n, fuel = n + 1 := ⟨fuel - 1, by omega⟩
  have hpeek := isNone_peek_double h
  obtain ⟨run, n, t', rfl, hrun, ht', hzero⟩ := exists_run t
  rw [List.flatMap_append, List.flatMap_append, flatMap_doubleChar_spaces, List.append_assoc,
    List.append_assoc] at h
  cases n with
  | zero =>
    obtain rfl := hzero rfl
    have hend : c.rest = run.flatMap doubleChar ++ '"' :: tail := h
    have hnext := Cursor.rest_skip hend
    refine ⟨_, quotedFrom_end hcolumn hpeek (quotedRun_double hrun hend ⟨_, _, rfl, .inr rfl⟩)
      hnext |>.trans ?_, Cursor.rest_skip_one hnext⟩
    simp [spaces]
  | succ n =>
    have hnext := Cursor.rest_skip h
    have hhead : ∀ x ∈ (t'.flatMap doubleChar ++ '"' :: tail).head?,
        isBlank x = false ∧ isBreak x = false := by
      intro x hx
      cases t' with
      | nil =>
        obtain rfl : '"' = x := by simpa using hx
        exact ⟨rfl, rfl⟩
      | cons y t' =>
        obtain ⟨z, zs, hz, hblank, hbreak, -⟩ := exists_doubleChar (ht' y rfl)
        obtain rfl : z = x := by simpa [List.flatMap_cons, hz] using hx
        exact ⟨hblank, hbreak⟩
    have hgap := gapFrom_start 0
      ((c.skip (run.flatMap doubleChar).length).rest.length + 1) hnext
      (by rw [hnext]; simp; omega) hhead
    have hmark : (c.skip (run.flatMap doubleChar).length).peek ≠ some Quote.double.mark := by
      rw [Cursor.peek, hnext]
      exact fun heq => absurd (Option.some.inj heq) (by decide)
    simp only [List.length_append, length_spaces] at hlen hfuel
    obtain ⟨c', hc', hrest'⟩ := ih t'.length (by omega) fuel
      (text ++ run ++ spaces (n + 1)) (t := t') (Cursor.rest_skip_spaces hnext)
      (by simp only [Cursor.column_skip]; omega) (by omega) rfl
    refine ⟨c', ?_, hrest'⟩
    rw [quotedFrom_gap hcolumn hpeek (quotedRun_double hrun h ⟨_, _, rfl, .inl rfl⟩) hmark hgap]
    rw [← List.append_assoc, ← List.append_assoc]
    exact hc'

/-- **A text between double quotes** is read back. -/
theorem quotedScalar_double {s tail : List Char} {c : Cursor}
    (h : c.rest = s.flatMap doubleChar ++ '"' :: tail) (hcolumn : 0 < c.column) :
    ∃ c', quotedScalar .double c = some (s, c') ∧ c'.rest = tail := by
  have hlength := length_le_flatMap fun x (_ : x ∈ s) => doubleChar_ne_nil x
  exact quotedFrom_double _ [] h hcolumn (by rw [h, List.length_append]; omega)

end Methodology.Yaml
