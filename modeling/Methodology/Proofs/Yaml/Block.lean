import Methodology.Proofs.Yaml.Style
import Methodology.Yaml.Printer
import Methodology.Yaml.Text.Block

/-!
# Literal blocks are read back

A literal text is a row of lines with line breaks behind each of them. The reader takes the line
breaks in front of a line together with its indentation, and then the line.

* `blockBreaks_indented`, `blockBreaks_open`: line breaks and the indentation behind them.
* **`blockLines_literal`**: the lines of a literal text.
* `blockHeader_literal`: the header of a literal text.
* **`blockScalar_literal`**: a literal text is read back.
-/

namespace Methodology.Yaml

/-! ## Lines and their breaks -/

theorem literalChars_line (indent : Nat) {line : List Char} (h : ∀ c ∈ line, isBreak c = false)
    (rest : List Char) : literalChars indent false (line ++ rest) =
      line ++ literalChars indent false rest := by
  induction line with
  | nil => rfl
  | cons c line ih =>
    have hc := h c List.mem_cons_self
    rw [List.cons_append, literalChars, ih fun d hd => h d (List.mem_cons_of_mem c hd)]
    simp [hc]

theorem literalChars_breaks (indent : Nat) {bs : List Char} (h : ∀ c ∈ bs, isBreak c)
    (rest : List Char) : literalChars indent true (bs ++ rest) =
      bs ++ literalChars indent true rest := by
  induction bs with
  | nil => rfl
  | cons b bs ih =>
    have hb := h b List.mem_cons_self
    rw [List.cons_append, literalChars, if_pos hb, ih fun d hd => h d (List.mem_cons_of_mem b hd)]
    rfl

theorem literalChars_break (indent : Nat) {b : Char} (h : isBreak b) (rest : List Char) :
    literalChars indent false (b :: rest) = b :: literalChars indent true rest := by
  rw [literalChars, if_pos h]

theorem length_le_literalChars (indent : Nat) (after : Bool) (s : List Char) :
    s.length ≤ (literalChars indent after s).length := by
  induction s generalizing after with
  | nil => exact Nat.zero_le _
  | cons c s ih =>
    rw [literalChars]
    split_ifs
    · have := ih true
      simp only [List.length_cons]
      omega
    all_goals
      have := ih false
      simp only [List.length_cons, List.length_append]
      omega

theorem literalChars_start (indent : Nat) {t : List Char} (hne : t ≠ [])
    (h : ∀ c ∈ t.head?, isBreak c = false) :
    literalChars indent true t = spaces indent ++ literalChars indent false t := by
  obtain ⟨c, t, rfl⟩ := List.exists_cons_of_ne_nil hne
  have hc := h c rfl
  simp [literalChars, hc]

theorem of_isBlank_eq_false {x : Char} (h : isBlank x = false) : isSpace x = false ∧ x ≠ '\t' := by
  refine ⟨(Bool.or_eq_false_iff.mp h).1, ?_⟩
  rintro rfl
  cases h

theorem takeWhile_spaces_append (n : Nat) (t : List Char) :
    (spaces n ++ t).takeWhile (· == ' ') = spaces n ++ t.takeWhile (· == ' ') :=
  List.takeWhile_append_of_pos fun _ hc => beq_of_eq (eq_space_of_mem_spaces hc)

theorem indentation_eq {indent n : Nat} {t : List Char} {c : Cursor} (hindent : 0 < indent)
    (hcolumn : c.column = 0) (h : c.rest = spaces n ++ t) (hn : n ≤ indent)
    (ht : n = indent ∨ ∀ x ∈ t.head?, isSpace x = false) : indentation indent c = c.skip n := by
  rw [indentation, if_neg (Nat.pos_iff_ne_zero.mp hindent), h, takeWhile_spaces_append, hcolumn,
    List.length_append, length_spaces]
  congr 1
  obtain rfl | ht := ht
  · omega
  · have hnone : t.takeWhile (· == ' ') = [] := by
      cases t with
      | nil => rfl
      | cons x t => exact List.takeWhile_cons_of_neg (by simpa [isSpace] using ht x rfl)
    rw [hnone, List.length_nil]
    omega

/-- **The line breaks in front of a line**, and the indentation behind them. -/
theorem blockBreaks_indented (fuel widest : Nat) {indent n : Nat} (hindent : 0 < indent)
    (hn : n ≤ indent)
    {bs t : List Char} (hbs : ∀ c ∈ bs, isPrintable c ∧ isBreak c)
    (ht : n = indent ∨ ∀ x ∈ t.head?, isSpace x = false)
    (hhead : ∀ x ∈ t.head?, x ≠ '\t' ∧ isBreak x = false) {c : Cursor}
    (hcolumn : c.column = 0) (h : c.rest = bs ++ (spaces n ++ t)) (hfuel : bs.length < fuel) :
    ∃ c' widest', blockBreaks indent fuel widest c = some (bs, c', widest') ∧ c'.rest = t ∧
      c'.column = n := by
  induction bs generalizing fuel widest c with
  | nil =>
    obtain ⟨fuel, rfl⟩ : ∃ m, fuel = m + 1 := ⟨fuel - 1, by simp at hfuel; omega⟩
    have hnext : (c.skip n).rest = t := Cursor.rest_skip_spaces h
    have hindentation := indentation_eq hindent hcolumn h hn ht
    refine ⟨c.skip n, max widest (c.skip n).column, ?_, hnext, by simp [hcolumn]⟩
    rw [blockBreaks, hindentation]
    cases t with
    | nil => simp only [Cursor.peek, hnext, List.head?_nil]
    | cons x t =>
      obtain ⟨htab, hbreak⟩ := hhead x rfl
      simp only [Cursor.peek, hnext, List.head?_cons, htab, hbreak, false_and, if_false,
        Bool.false_eq_true]
  | cons b bs ih =>
    obtain ⟨fuel, rfl⟩ : ∃ m, fuel = m + 1 := ⟨fuel - 1, by simp at hfuel; omega⟩
    obtain ⟨hprint, hbreak⟩ := hbs b List.mem_cons_self
    have htab : b ≠ '\t' := ne_of_isPrintable hprint rfl
    have hindentation : indentation indent c = c := by
      have hspace : ∀ x ∈ (b :: (bs ++ (spaces n ++ t))).head?, isSpace x = false := by
        intro x hx
        obtain rfl : b = x := by simpa using hx
        exact isSpace_of_isBreak hbreak
      exact indentation_eq (n := 0) hindent hcolumn h (Nat.zero_le _) (.inr hspace)
    obtain ⟨c₁, hline, hrest, hcol⟩ : ∃ c₁ : Cursor, c.skipLine = c₁ ∧
        c₁.rest = bs ++ (spaces n ++ t) ∧ c₁.column = 0 :=
      ⟨_, Cursor.skipLine_of_isPrintable h hprint hbreak, rfl, rfl⟩
    obtain ⟨c', widest', heq, hrest', hcol'⟩ := ih fuel
      (max widest c.column) (fun x hx => hbs x (List.mem_cons_of_mem b hx)) hcol hrest
      (by simpa using hfuel)
    refine ⟨c', widest', ?_, hrest', hcol'⟩
    have hpeek : c.peek = some b := by rw [Cursor.peek, h]; rfl
    rw [blockBreaks, hindentation]
    simp only [hpeek, htab, hbreak, false_and, if_false, if_true, hline, heq, Option.map_some,
      breakChar_eq_self hprint hbreak]

/-- **The indentation of the first line**, where it is not stated. -/
theorem blockBreaks_open {n : Nat} {x : Char} {t : List Char}
    (hx : x ≠ '\t' ∧ isSpace x = false ∧ isBreak x = false) (fuel : Nat) {c : Cursor}
    (hcolumn : c.column = 0) (h : c.rest = spaces n ++ x :: t) :
    blockBreaks 0 (fuel + 1) 0 c = some ([], c.skip n, n) := by
  obtain ⟨htab, hspace, hbreak⟩ := hx
  have hindentation : indentation 0 c = c.skip n := by
    have hnone : (x :: t).takeWhile (· == ' ') = [] :=
      List.takeWhile_cons_of_neg (by simpa [isSpace] using hspace)
    rw [indentation, if_pos rfl, h, takeWhile_spaces_append, hnone, List.append_nil, length_spaces]
  have hnext : (c.skip n).rest = x :: t := Cursor.rest_skip_spaces h
  rw [blockBreaks, hindentation]
  simp [Cursor.peek, hnext, htab, hbreak, hcolumn]

/-! ## The lines of a text -/

theorem blockLines_stop (literal : Bool) (fuel : Nat) (b : BlockText) {indent : Nat} {c : Cursor}
    (h : c.column ≠ indent) : blockLines literal indent (fuel + 1) b c = some (b, c) := by
  rw [blockLines]
  cases c.peek with
  | none => rfl
  | some x => exact if_pos h

theorem blockLines_line (fuel : Nat) (b : BlockText) {indent : Nat} {c c₁ c₂ : Cursor}
    {line bs rest : List Char} {x : Char} (hcolumn : c.column = indent)
    (hline : ∀ y ∈ line, isBreak y = false) (hne : line ≠ []) (hx : isPrintable x ∧ isBreak x)
    (h : c.rest = line ++ x :: rest) (hskip : (c.skip line.length).skipLine = c₁)
    {widest : Nat} (hbreaks : blockBreaks indent ((c.skip line.length).rest.length + 1) 0 c₁ =
      some (bs, c₂, widest)) :
    ∃ blank, blockLines true indent (fuel + 1) b c = blockLines true indent fuel
      ⟨b.text ++ b.lastBreak ++ b.emptyLines ++ line, [x], bs, blank⟩ c₂ := by
  obtain ⟨y, line, rfl⟩ := List.exists_cons_of_ne_nil hne
  have hpeek : c.peek = some y := by rw [Cursor.peek, h]; rfl
  have hnext : (c.skip (y :: line).length).peek = some x := by
    rw [Cursor.peek, Cursor.rest_skip h]
    rfl
  have htake : c.rest.takeWhile (fun z => !isBreak z) = y :: line := by
    rw [h, List.takeWhile_append_of_pos (fun z hz => by rw [hline z hz]; rfl),
      List.takeWhile_cons_of_neg (by rw [hx.2]; decide), List.append_nil]
  refine ⟨isBlank y, ?_⟩
  rw [blockLines, hpeek]
  simp only [hcolumn, ne_eq, not_true_eq_false, if_false, htake, hnext, Option.map_some,
    Option.toList_some, breakChar_eq_self hx.1 hx.2, hskip, hbreaks, Option.bind_eq_bind,
    Option.bind_some, BlockText.joined, Bool.not_true, Bool.false_and, Bool.false_eq_true]

/-- A text that starts in a line and ends with a line break is a line, the breaks behind it and the
rest, which starts in a line again. -/
theorem exists_line {t : List Char} (hhead : ∃ x ∈ t.head?, isBreak x = false)
    (hlast : ∃ x ∈ t.getLast?, isBreak x) :
    ∃ line x bs t', t = line ++ x :: (bs ++ t') ∧ line ≠ [] ∧ (∀ y ∈ line, isBreak y = false) ∧
      (∀ y ∈ x :: bs, isBreak y) ∧ ∀ y ∈ t'.head?, isBreak y = false := by
  obtain ⟨line, more, rfl, hline, hmore⟩ := exists_span (fun x => !isBreak x) t
  replace hline : ∀ x ∈ line, isBreak x = false := fun x hx => by simpa using hline x hx
  have hne : line ≠ [] := by
    rintro rfl
    obtain ⟨x, hx, hbreak⟩ := hhead
    have := hmore x hx
    rw [hbreak] at this
    cases this
  obtain ⟨bs, t', rfl, hbs, ht'⟩ := exists_span isBreak more
  cases bs with
  | cons x bs => exact ⟨line, x, bs, t', rfl, hne, hline, hbs, ht'⟩
  | nil =>
    -- no line break at all stands behind the line, against what ends the text
    obtain ⟨y, hy, hbreak⟩ := hlast
    cases t' with
    | nil =>
      have hmem : y ∈ line := List.mem_of_mem_getLast? (by simpa using hy)
      rw [hline y hmem] at hbreak
      cases hbreak
    | cons z t' =>
      have hz := hmore z rfl
      rw [ht' z rfl] at hz
      cases hz

/-- **The lines of a literal text.** What is read ends in a line, with its line breaks kept
apart. -/
theorem blockLines_literal {indent i : Nat} (hi : i < indent) {rest t : List Char}
    (hrest : ∀ x ∈ rest.head?, isBlank x = false ∧ isBreak x = false) (hprints : Prints t)
    (hhead : ∃ x ∈ t.head?, isBreak x = false) (hlast : ∃ x ∈ t.getLast?, isBreak x)
    (fuel : Nat) (b : BlockText) {c : Cursor} (hcolumn : c.column = indent)
    (h : c.rest = literalChars indent false t ++ (spaces i ++ rest)) (hfuel : t.length < fuel) :
    ∃ b' c', blockLines true indent fuel b c = some (b', c') ∧ c'.rest = rest ∧ c'.column = i ∧
      b'.text ++ (b'.lastBreak ++ b'.emptyLines) = b.text ++ b.lastBreak ++ b.emptyLines ++ t ∧
      b'.lastBreak.length = 1 ∧ ∀ x ∈ b'.lastBreak ++ b'.emptyLines, isBreak x := by
  induction hlen : t.length using Nat.strong_induction_on generalizing t fuel b c with
  | _ len ih =>
  obtain ⟨fuel, rfl⟩ : ∃ m, fuel = m + 1 := ⟨fuel - 1, by omega⟩
  obtain ⟨line, x, bs, t', rfl, hne, hline, hbs, ht'⟩ := exists_line hhead hlast
  have hx : isPrintable x ∧ isBreak x :=
    ⟨hprints x (List.mem_append_right _ List.mem_cons_self), hbs x List.mem_cons_self⟩
  have hbs' : ∀ y ∈ bs, isPrintable y ∧ isBreak y := fun y hy =>
    ⟨hprints y (List.mem_append_right _ (List.mem_cons_of_mem x (List.mem_append_left _ hy))),
      hbs y (List.mem_cons_of_mem x hy)⟩
  rw [literalChars_line indent hline, literalChars_break indent hx.2,
    literalChars_breaks indent fun y hy => (hbs' y hy).2, List.append_assoc, List.cons_append,
    List.append_assoc] at h
  have hnext := Cursor.rest_skip h
  obtain ⟨c₁, hskip, hrest₁, hcol₁⟩ : ∃ c₁ : Cursor, (c.skip line.length).skipLine = c₁ ∧
      c₁.rest = bs ++ (literalChars indent true t' ++ (spaces i ++ rest)) ∧ c₁.column = 0 :=
    ⟨_, Cursor.skipLine_of_isPrintable hnext hx.1 hx.2, rfl, rfl⟩
  simp only [List.length_append, List.length_cons] at hlen hfuel
  by_cases hend : t' = []
  · -- the last line
    subst hend
    have hspace : ∀ y ∈ rest.head?, isSpace y = false := fun y hy =>
      (of_isBlank_eq_false (hrest y hy).1).1
    have htab : ∀ y ∈ rest.head?, y ≠ '\t' ∧ isBreak y = false := fun y hy =>
      ⟨(of_isBlank_eq_false (hrest y hy).1).2, (hrest y hy).2⟩
    obtain ⟨c₂, widest, hbreaks, hrest₂, hcol₂⟩ := blockBreaks_indented
      ((c.skip line.length).rest.length + 1) 0 (show 0 < indent by omega) (by omega) hbs'
      (t := rest) (n := i) (.inr hspace) htab hcol₁ hrest₁ (by rw [hnext]; simp; omega)
    obtain ⟨blank, heq⟩ := blockLines_line fuel b hcolumn hline hne hx h hskip hbreaks
    obtain ⟨fuel, rfl⟩ : ∃ m, fuel = m + 1 := ⟨fuel - 1, by omega⟩
    refine ⟨_, c₂, heq.trans (blockLines_stop _ _ _ (by omega)), hrest₂, hcol₂, ?_, rfl,
      fun y hy => hbs y (by simpa using hy)⟩
    simp only [List.append_assoc, List.append_nil, List.cons_append, List.nil_append]
  · -- a line with more behind it
    have hhead' : ∀ y ∈ t'.head?, isBreak y = false := ht'
    have hprints' : Prints t' := fun y hy => hprints y
      (List.mem_append_right _ (List.mem_cons_of_mem x (List.mem_append_right _ hy)))
    obtain ⟨y, t'', rfl⟩ := List.exists_cons_of_ne_nil hend
    have hy := hhead' y rfl
    rw [literalChars_start indent hend hhead', List.append_assoc] at hrest₁
    have htab : ∀ z ∈ (literalChars indent false (y :: t'') ++ (spaces i ++ rest)).head?,
        z ≠ '\t' ∧ isBreak z = false := by
      intro z hz
      obtain rfl : y = z := by simpa [literalChars, hy] using hz
      exact ⟨ne_of_isPrintable (hprints' y List.mem_cons_self) rfl, hy⟩
    obtain ⟨c₂, widest, hbreaks, hrest₂, hcol₂⟩ := blockBreaks_indented
      ((c.skip line.length).rest.length + 1) 0 (show 0 < indent by omega) (Nat.le_refl _) hbs'
      (.inl rfl) htab hcol₁ hrest₁ (by rw [hnext]; simp; omega)
    obtain ⟨blank, heq⟩ := blockLines_line fuel b hcolumn hline hne hx h hskip hbreaks
    obtain ⟨b', c', heq', hrest', hcol', htext, hb⟩ := ih (y :: t'').length (by omega) hprints'
      ⟨y, rfl, hy⟩ (by simpa [List.getLast?_append, List.getLast?_cons] using hlast)
      fuel ⟨b.text ++ b.lastBreak ++ b.emptyLines ++ line, [x], bs, blank⟩ hcol₂
      hrest₂ (by omega) rfl
    refine ⟨b', c', heq.trans heq', hrest', hcol', ?_, hb⟩
    rw [htext]
    simp only [List.append_assoc, List.cons_append, List.nil_append]

/-! ## The header -/

theorem literalIndent_cases (s : List Char) :
    (literalIndent s = [] ∧ ∀ x ∈ s.head?, isSpace x = false ∧ isBreak x = false) ∨
      literalIndent s = ['2'] := by
  unfold literalIndent
  split_ifs with h
  · exact .inr rfl
  · refine .inl ⟨rfl, fun x hx => ?_⟩
    rw [Option.mem_def.mp hx, Option.any_some] at h
    exact Bool.or_eq_false_iff.mp (Bool.eq_false_iff.mpr h)

theorem literalChomp_cases {s : List Char} (hs : s ≠ []) :
    (literalChomp s = ['-'] ∧ ∃ x ∈ s.getLast?, isBreak x = false) ∨
      (literalChomp s = [] ∧ ∃ a x y, s = a ++ [x] ++ [y] ∧ isBreak x = false ∧ isBreak y) ∨
      (literalChomp s = ['+'] ∧ ∃ y ∈ s.getLast?, isBreak y) := by
  have hlast : s.getLast? = s.reverse.head? := List.head?_reverse.symm
  rw [hlast, literalChomp]
  rcases hrev : s.reverse with _ | ⟨c, _ | ⟨d, more⟩⟩
  · exact absurd (List.reverse_eq_nil_iff.mp hrev) hs
  · by_cases hc : isBreak c = true
    · exact .inr (.inr ⟨if_pos hc, c, rfl, hc⟩)
    · exact .inl ⟨if_neg hc, c, rfl, Bool.eq_false_iff.mpr hc⟩
  · have hs' : s = more.reverse ++ [d] ++ [c] := by
      rw [← s.reverse_reverse, hrev, List.reverse_cons, List.reverse_cons]
    by_cases hc : isBreak c = true
    · by_cases hd : isBreak d = true
      · exact .inr (.inr ⟨by simp [hc, hd], c, rfl, hc⟩)
      · exact .inr (.inl ⟨by simp [hc, hd], _, d, c, hs', Bool.eq_false_iff.mpr hd, hc⟩)
    · exact .inl ⟨by simp [hc], c, rfl, Bool.eq_false_iff.mpr hc⟩

/-- The fate of the last line breaks that a sign asks for. -/
def chompOf : List Char → Chomp
  | ['-'] => .strip
  | ['+'] => .keep
  | _ => .clip

theorem blockHeader_literal {s more : List Char} {c : Cursor} (hs : s ≠ [])
    (h : c.rest = literalIndent s ++ literalChomp s ++ '\n' :: more) :
    ∃ c', blockHeader c = some (⟨chompOf (literalChomp s),
      if literalIndent s = [] then 0 else 2⟩, c') ∧ c'.rest = '\n' :: more := by
  have hsigns : literalChomp s = ['-'] ∨ literalChomp s = [] ∨ literalChomp s = ['+'] := by
    rcases literalChomp_cases hs with ⟨h, -⟩ | ⟨h, -⟩ | ⟨h, -⟩ <;> simp [h]
  refine ⟨c.skip (literalIndent s ++ literalChomp s).length, ?_, Cursor.rest_skip h⟩
  obtain ⟨rest, index, line, column⟩ := c
  simp only at h
  subst h
  have hfeed : Text.digitValue? '\n' = none := rfl
  obtain ⟨hind, -⟩ | hind := literalIndent_cases s
  · rcases hsigns with hsign | hsign | hsign <;>
      simp [blockHeader, increment?, chompSign?, chompOf, Cursor.peek, Cursor.skip, hind, hsign,
        hfeed, Text.byteSize]
  · have htwo : Text.digitValue? '2' = some 2 := rfl
    rcases hsigns with hsign | hsign | hsign <;>
      simp [blockHeader, increment?, chompSign?, chompOf, Cursor.peek, Cursor.skip, hind, hsign,
        htwo, Text.byteSize, Nat.add_assoc]

theorem endLine?_feed {c : Cursor} {more : List Char} (h : c.rest = '\n' :: more) :
    ∃ c', c.endLine? = some c' ∧ c'.rest = more ∧ c'.column = 0 := by
  have hblank : c.skipWhile isBlank = c := by
    refine Cursor.skipWhile_eq_self fun x hx => ?_
    obtain rfl : '\n' = x := by simpa [h] using hx
    rfl
  have hpeek : c.peek = some '\n' := by rw [Cursor.peek, h]; rfl
  refine ⟨⟨more, c.index + '\n'.utf8Size, c.line + 1, 0⟩, ?_, rfl, rfl⟩
  simp [Cursor.endLine?, hblank, hpeek, endsLine, isBreak, Cursor.skipLine_feed h]

/-! ## The text -/

theorem literalChars_concat (indent : Nat) {b : Char} (hb : isBreak b) (after : Bool)
    (s : List Char) :
    literalChars indent after (s ++ [b]) = literalChars indent after s ++ [b] := by
  induction s generalizing after with
  | nil => simp [literalChars, hb]
  | cons c s ih =>
    rw [List.cons_append, literalChars, literalChars, ih, ih]
    split_ifs <;> simp

theorem getLast?_literalChars (indent : Nat) {s : List Char} (hs : s ≠ []) (after : Bool) :
    (literalChars indent after s).getLast? = s.getLast? := by
  induction s generalizing after with
  | nil => exact absurd rfl hs
  | cons c s ih =>
    rw [literalChars]
    cases s with
    | nil => split_ifs <;> simp [literalChars]
    | cons d s =>
      have hmore := ih (List.cons_ne_nil d s)
      have hsome : ∃ x, (d :: s).getLast? = some x := ⟨_, List.getLast?_eq_some_getLast (by simp)⟩
      obtain ⟨x, hx⟩ := hsome
      split_ifs <;> simp [List.getLast?_cons, List.getLast?_append, hmore, hx]

theorem ended_literal (indent : Nat) {s : List Char} (hs : s ≠ []) (header : List Char) :
    ended (header ++ '\n' :: literalChars indent true s) =
      header ++ '\n' :: literalChars indent true (ended s) := by
  have hlast : (header ++ '\n' :: literalChars indent true s).getLast? = s.getLast? := by
    obtain ⟨x, hx⟩ : ∃ x, s.getLast? = some x := ⟨_, List.getLast?_eq_some_getLast hs⟩
    rw [List.getLast?_append, List.getLast?_cons, getLast?_literalChars indent hs, hx]
    rfl
  rw [ended, ended, hlast]
  split_ifs
  · rfl
  · rw [literalChars_concat indent rfl, List.append_assoc, List.cons_append]

theorem ended_append (a : List Char) {b : List Char} (hb : b ≠ []) :
    ended (a ++ b) = a ++ ended b := by
  obtain ⟨x, hx⟩ : ∃ x, b.getLast? = some x := ⟨_, List.getLast?_eq_some_getLast hb⟩
  have hlast : (a ++ b).getLast? = b.getLast? := by
    rw [List.getLast?_append, hx]
    rfl
  rw [ended, ended, hlast]
  split_ifs
  · rfl
  · exact List.append_assoc ..

theorem ended_concat (a : List Char) {x : Char} (hx : isBreak x = false) :
    ended (a ++ [x]) = a ++ x :: ['\n'] := by
  rw [ended, List.getLast?_concat, Option.any_some, hx, if_neg Bool.false_ne_true,
    List.append_assoc]
  rfl

theorem exists_getLast?_ended (s : List Char) : ∃ x ∈ (ended s).getLast?, isBreak x := by
  rw [ended]
  split_ifs with h
  · cases hx : s.getLast? with
    | none => rw [hx] at h; cases h
    | some x => exact ⟨x, rfl, by simpa [hx] using h⟩
  · exact ⟨'\n', by simp, rfl⟩

theorem eq_nil_of_last_break {a p els : List Char} {z q : Char}
    (h : a ++ ([z] ++ els) = p ++ [q]) (hbreaks : ∀ x ∈ [z] ++ els, isBreak x)
    (hlast : ∃ x ∈ p.getLast?, isBreak x = false) : els = [] := by
  rcases List.eq_nil_or_concat els with rfl | ⟨els, e, rfl⟩
  · rfl
  · -- otherwise the last but one character would be a line break
    rw [List.concat_eq_append, ← List.append_assoc, ← List.append_assoc, List.append_assoc a] at h
    have hp : a ++ ([z] ++ els) = p := (List.append_inj' h rfl).1
    obtain ⟨x, hx, hbreak⟩ := hlast
    have hmem : x ∈ [z] ++ els := by
      rw [← hp, List.getLast?_append] at hx
      obtain ⟨y, hy⟩ : ∃ y, ([z] ++ els).getLast? = some y :=
        ⟨_, List.getLast?_eq_some_getLast (by simp)⟩
      rw [hy] at hx
      obtain rfl : y = x := by simpa using hx
      exact List.mem_of_mem_getLast? hy
    have hx' := hbreaks x (by
      rw [List.concat_eq_append, ← List.append_assoc]
      exact List.mem_append_left [e] hmem)
    rw [hbreak] at hx'
    cases hx'

/-- **The sign of the header keeps the text as it is.** -/
theorem chomped_literal {s : List Char} (hs : s ≠ []) {b : BlockText}
    (htext : b.text ++ (b.lastBreak ++ b.emptyLines) = ended s)
    (hone : b.lastBreak.length = 1)
    (hbreaks : ∀ x ∈ b.lastBreak ++ b.emptyLines, isBreak x) :
    b.chomped (chompOf (literalChomp s)) = s := by
  obtain ⟨z, hz⟩ := List.length_eq_one_iff.mp hone
  rw [hz] at htext hbreaks
  rcases literalChomp_cases hs with ⟨hsign, x, hx, hbreak⟩ | ⟨hsign, a, x, y, rfl, hx, hy⟩ |
    ⟨hsign, y, hy, hbreak⟩
  · have hended : ended s = s ++ ['\n'] := by
      rw [ended, Option.mem_def.mp hx, Option.any_some, hbreak]
      rfl
    rw [hended] at htext
    have hnil := eq_nil_of_last_break htext hbreaks ⟨x, hx, hbreak⟩
    rw [hnil, List.append_nil] at htext
    rw [hsign]
    exact (List.append_inj' htext rfl).1
  · have hended : ended (a ++ [x] ++ [y]) = a ++ [x] ++ [y] := by
      rw [ended, List.getLast?_concat, Option.any_some, if_pos hy]
    rw [hended] at htext
    have hnil := eq_nil_of_last_break htext hbreaks ⟨x, List.getLast?_concat, hx⟩
    rw [hnil, List.append_nil] at htext
    rw [hsign, ← htext, ← hz]
    rfl
  · have hended : ended s = s := by
      rw [ended, Option.mem_def.mp hy, Option.any_some, if_pos hbreak]
    rw [hended] at htext
    rw [hsign, ← htext, ← hz, ← List.append_assoc]
    rfl

theorem blockScalar_eq {literal : Bool} {around : Int} {c c₁ c₂ c₃ c₄ : Cursor}
    {header : BlockHeader} {breaks : List Char} {widest indent : Nat} {b : BlockText}
    (hheader : blockHeader c = some (header, c₁)) (hline : c₁.endLine? = some c₂)
    (hbreaks : blockBreaks (header.stated around) (c₂.rest.length + 1) 0 c₂ =
      some (breaks, c₃, widest))
    (hindent : (if header.stated around = 0 then max widest (max (around + 1) 1).toNat
      else header.stated around) = indent)
    (hlines : blockLines literal indent (c₃.rest.length + 1) ⟨[], [], breaks, false⟩ c₃ =
      some (b, c₄)) : blockScalar literal around c = some (b.chomped header.chomp, c₄) := by
  simp only [blockScalar, hheader, hline, hbreaks, hindent, hlines, Option.bind_eq_bind,
    Option.bind_some]

theorem ended_of_forall {s : List Char} (hs : s ≠ []) (h : ∀ x ∈ s, isBreak x) : ended s = s := by
  rw [ended, List.getLast?_eq_some_getLast hs, Option.any_some, if_pos (h _ (List.getLast_mem hs))]

theorem literalHeader_of_forall {s : List Char} (hs : s ≠ []) (h : ∀ x ∈ s, isBreak x) :
    literalIndent s = ['2'] ∧ literalChomp s = ['+'] := by
  obtain ⟨x, s, rfl⟩ := List.exists_cons_of_ne_nil hs
  have hx : isBreak x = true := h x List.mem_cons_self
  refine ⟨by simp [literalIndent, hx], ?_⟩
  rcases literalChomp_cases hs with ⟨-, y, hy, hbreak⟩ | ⟨-, a, y, z, heq, hbreak, -⟩ | ⟨hsign, -⟩
  · rw [h y (List.mem_of_mem_getLast? hy)] at hbreak
    cases hbreak
  · rw [h y (by rw [heq]; simp)] at hbreak
    cases hbreak
  · exact hsign

/-- **The first line** of a literal text: the header states the indentation where the text starts
with a blank or a line break, and elsewhere the line shows it. -/
theorem blockBreaks_first {header : BlockHeader} {around : Int} {indent : Nat}
    (hindent : indent = (max around 0).toNat + 2) {bs t more : List Char} {x : Char}
    (hbs : ∀ c ∈ bs, isPrintable c ∧ isBreak c) (hx : isPrintable x ∧ isBreak x = false)
    (hinc : header.increment = if literalIndent (bs ++ x :: t) = [] then 0 else 2) {c : Cursor}
    (hcolumn : c.column = 0) (h : c.rest = bs ++ (spaces indent ++ x :: more)) :
    ∃ c' widest, blockBreaks (header.stated around) (c.rest.length + 1) 0 c =
        some (bs, c', widest) ∧ c'.column = indent ∧ c'.rest = x :: more ∧
      (if header.stated around = 0 then max widest (max (around + 1) 1).toNat
        else header.stated around) = indent := by
  have htab : x ≠ '\t' := ne_of_isPrintable hx.1 rfl
  obtain ⟨hind, hhead⟩ | hind := literalIndent_cases (bs ++ x :: t)
  · obtain rfl : bs = [] := by
      cases bs with
      | nil => rfl
      | cons b bs =>
        have hb := (hhead b rfl).2
        rw [(hbs b List.mem_cons_self).2] at hb
        cases hb
    have hstated : header.stated around = 0 := by
      rw [BlockHeader.stated, hinc, if_pos hind, if_pos rfl]
    have hopen := blockBreaks_open ⟨htab, (hhead x rfl).1, hx.2⟩ c.rest.length hcolumn h
    rw [hstated]
    refine ⟨_, _, hopen, by simp [hcolumn], Cursor.rest_skip_spaces h, ?_⟩
    rw [if_pos rfl]
    omega
  · have htab' : ∀ y ∈ (x :: more).head?, y ≠ '\t' ∧ isBreak y = false := by
      intro y hy
      obtain rfl : x = y := by simpa using hy
      exact ⟨htab, hx.2⟩
    obtain ⟨c', widest, hbreaks, hrest', hcol'⟩ := blockBreaks_indented
      (c.rest.length + 1) 0 (show 0 < indent by omega) (Nat.le_refl _) hbs (.inl rfl) htab'
      hcolumn h (by rw [h, List.length_append]; omega)
    have hstated : header.stated around = indent := by
      rw [BlockHeader.stated, hinc, hind, if_neg (List.cons_ne_nil _ _), if_neg (by decide),
        hindent]
    rw [hstated]
    refine ⟨c', widest, hbreaks, hcol', hrest', if_neg (by omega)⟩

theorem prints_ended {s : List Char} (h : Prints s) : Prints (ended s) := by
  intro x hx
  rw [ended] at hx
  split_ifs at hx
  · exact h x hx
  · rcases List.mem_append.mp hx with hx | hx
    · exact h x hx
    · obtain rfl : x = '\n' := by simpa using hx
      rfl

theorem exists_ended_cons (x : Char) (t : List Char) : ∃ t', ended (x :: t) = x :: t' := by
  rw [ended]
  split_ifs
  · exact ⟨t, rfl⟩
  · exact ⟨t ++ ['\n'], rfl⟩

/-- **A literal text is read back**, with the reader at the start of the next line. -/
theorem blockScalar_literal {s : List Char} (hs : s ≠ []) (hprints : Prints s) {around : Int}
    {indent i : Nat} (hindent : indent = (max around 0).toNat + 2) (hi : i < indent)
    {rest : List Char} (hrest : ∀ x ∈ rest.head?, isBlank x = false ∧ isBreak x = false)
    {c : Cursor} (h : c.rest = literalIndent s ++ literalChomp s ++
      '\n' :: (literalChars indent true (ended s) ++ (spaces i ++ rest))) :
    ∃ c', blockScalar true around c = some (s, c') ∧ c'.rest = rest ∧ c'.column = i := by
  obtain ⟨c₁, hheader, hrest₁⟩ := blockHeader_literal hs h
  obtain ⟨c₂, hline, hrest₂, hcol₂⟩ := endLine?_feed hrest₁
  obtain ⟨bs, t, rfl, hbs, ht⟩ := exists_span isBreak s
  have hleft : ∀ x ∈ bs, isPrintable x ∧ isBreak x := fun x hx =>
    ⟨hprints x (List.mem_append_left t hx), hbs x hx⟩
  cases t with
  | nil =>
    -- nothing but line breaks
    have hspace : ∀ x ∈ rest.head?, isSpace x = false := fun x hx =>
      (of_isBlank_eq_false (hrest x hx).1).1
    have htab : ∀ x ∈ rest.head?, x ≠ '\t' ∧ isBreak x = false := fun x hx =>
      ⟨(of_isBlank_eq_false (hrest x hx).1).2, (hrest x hx).2⟩
    rw [List.append_nil] at hs hheader hrest₂ ⊢
    obtain ⟨hind, hsign⟩ := literalHeader_of_forall hs hbs
    have hnil : literalChars indent true bs = bs := by
      have := literalChars_breaks indent hbs []
      rwa [List.append_nil, literalChars, List.append_nil] at this
    rw [ended_of_forall hs hbs, hnil] at hrest₂
    obtain ⟨c₃, widest, hbreaks, hrest₃, hcol₃⟩ := blockBreaks_indented
      (c₂.rest.length + 1) 0 (show 0 < indent by omega) (Nat.le_of_lt hi) hleft (.inr hspace)
      htab hcol₂ hrest₂ (by rw [hrest₂, List.length_append]; omega)
    refine ⟨c₃, ?_, hrest₃, hcol₃⟩
    rw [hind, hsign, if_neg (List.cons_ne_nil _ _)] at hheader
    have hstop := blockLines_stop true c₃.rest.length ⟨[], [], bs, false⟩
      (show c₃.column ≠ indent by omega)
    have hstated : (⟨chompOf ['+'], 2⟩ : BlockHeader).stated around = indent := hindent.symm
    exact blockScalar_eq hheader hline (by rw [hstated]; exact hbreaks)
      (by rw [hstated, if_neg (by omega)]) hstop
  | cons x t =>
    -- line breaks and a first line behind them
    have hx := ht x rfl
    have hprint : isPrintable x := hprints x (List.mem_append_right bs List.mem_cons_self)
    have hended : ended (bs ++ x :: t) = bs ++ ended (x :: t) :=
      ended_append bs (List.cons_ne_nil x t)
    have hprints' : Prints (ended (x :: t)) :=
      prints_ended fun y hy => hprints y (List.mem_append_right bs hy)
    obtain ⟨t', ht'⟩ := exists_ended_cons x t
    have hfirst : literalChars indent true (x :: t') =
        spaces indent ++ literalChars indent false (x :: t') :=
      literalChars_start indent (List.cons_ne_nil x t') fun y hy => by
        obtain rfl : x = y := by simpa using hy
        exact hx
    have hline' : literalChars indent false (x :: t') = x :: literalChars indent false t' := by
      simp [literalChars, hx]
    rw [hended, ht', literalChars_breaks indent hbs, hfirst, hline', List.append_assoc,
      List.append_assoc, List.cons_append] at hrest₂
    obtain ⟨header, hheader', hchomp, hinc⟩ : ∃ header : BlockHeader,
        blockHeader c = some (header, c₁) ∧
          header.chomp = chompOf (literalChomp (bs ++ x :: t)) ∧
          header.increment = if literalIndent (bs ++ x :: t) = [] then 0 else 2 :=
      ⟨_, hheader, rfl, rfl⟩
    obtain ⟨c₃, widest, hbreaks, hcol₃, hrest₃, heq⟩ := blockBreaks_first hindent hleft
      ⟨hprint, hx⟩ hinc hcol₂ hrest₂
    rw [← List.cons_append, ← hline'] at hrest₃
    rw [ht'] at hprints'
    have hlength := length_le_literalChars indent false (x :: t')
    obtain ⟨b', c₄, hlines, hrest₄, hcol₄, htext, hone, hall⟩ := blockLines_literal hi hrest
      hprints' ⟨x, rfl, hx⟩ (ht' ▸ exists_getLast?_ended _) (c₃.rest.length + 1)
      ⟨[], [], bs, false⟩ hcol₃ hrest₃ (by rw [hrest₃, List.length_append]; omega)
    refine ⟨c₄, ?_, hrest₄, hcol₄⟩
    rw [blockScalar_eq hheader' hline hbreaks heq hlines, hchomp, chomped_literal hs ?_ hone hall]
    rw [htext, hended, ht']
    rfl

end Methodology.Yaml
