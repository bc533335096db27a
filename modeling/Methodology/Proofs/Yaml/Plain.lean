import Methodology.Proofs.Yaml.Style
import Methodology.Yaml.Text.Plain

/-!
# Plain texts are read back

A plain text is a row of words with spaces between them, and the scanner takes it word by word.

* `IsWords`, `IsWords.cases`: a row of words, and its first word.
* `plainRun_append`: a word is scanned up to what ends it.
* **`plainFrom_words`**: a row of words is scanned up to what stands behind it.
* **`plainScalar_line`**, **`plainScalar_key`**: a plain text at the end of a line, and in front of
  a colon.
-/

namespace Methodology.Yaml

/-- A row of words with spaces between them and no marks among them. -/
structure IsWords (t : List Char) : Prop where
  ne_nil : t ≠ []
  prints : Prints t
  unbroken : ∀ c ∈ t, isBreak c = false
  head : ∀ c ∈ t.head?, isSpace c = false
  last : ∀ c ∈ t.getLast?, isSpace c = false
  marks : marksWithin ' ' t = false

theorem marksAtStart_of_isPlain {c : Char} {rest : List Char} (h : IsPlain (c :: rest)) :
    startsLikeMarker (c :: rest) = false ∧ marksAtStart c rest.head? = false ∧
      marksWithin c rest = false := by
  have hmarks := h.marks
  simp only [survey, Bool.or_eq_false_iff] at hmarks
  exact hmarks

theorem IsPlain.isWords {s : List Char} (h : IsPlain s) : IsWords s := by
  refine ⟨h.ne_nil, h.prints, h.unbroken, h.head, h.last, ?_⟩
  cases s with
  | nil => exact absurd rfl h.ne_nil
  | cons c rest =>
    obtain ⟨-, hstart, hwithin⟩ := marksAtStart_of_isPlain h
    simp only [marksAtStart, Bool.or_eq_false_iff] at hstart
    have hhash : (c == '#') = false := by
      refine beq_false_of_ne ?_
      rintro rfl
      exact absurd hstart.1 (by decide)
    have hcolon : (c == ':' && endsWord rest.head?) = false := by
      have := hstart.2
      cases hc : c == ':'
      · rfl
      · simpa [hc] using this
    simp [marksWithin, hhash, hcolon, hwithin]

theorem marksWithin_append {before x : Char} {a t : List Char}
    (h : marksWithin before (a ++ x :: t) = false) : marksWithin x t = false := by
  induction a generalizing before with
  | nil => exact (Bool.or_eq_false_iff.mp h).2
  | cons c a ih => exact ih (Bool.or_eq_false_iff.mp h).2

theorem IsWords.head_ne_hash {t : List Char} (h : IsWords t) : t.head? ≠ some '#' := by
  intro heq
  cases t with
  | nil => cases heq
  | cons c t =>
    have hmarks := h.marks
    rw [Option.some.inj heq, marksWithin] at hmarks
    simp [endsWord, isBlank] at hmarks

/-- **The first word** of a row, and what is left of the row behind the spaces. -/
theorem IsWords.cases {t : List Char} (h : IsWords t) : ∃ run rest : List Char,
    t = run ++ rest ∧ run ≠ [] ∧ (∀ c ∈ run, isBlank c = false ∧ isBreak c = false) ∧
      (rest = [] ∨ ∃ n t', rest = spaces (n + 1) ++ t' ∧ IsWords t') := by
  obtain ⟨run, n, t', ht, hrun, ht', hzero⟩ := exists_run t
  have hmem : ∀ c ∈ run, c ∈ t := fun c hc => ht ▸ List.mem_append_left _ hc
  have hmem' : ∀ c ∈ t', c ∈ t := fun c hc =>
    ht ▸ List.mem_append_right _ (List.mem_append_right _ hc)
  have hne : run ≠ [] := by
    rintro rfl
    cases n with
    | zero => exact h.ne_nil (by rw [ht, hzero rfl]; rfl)
    | succ n =>
      have hc := h.head ' ' (by rw [ht]; rfl)
      cases hc
  refine ⟨run, spaces n ++ t', ht, hne, fun c hc => ?_, ?_⟩
  · exact ⟨by rw [isBlank_eq_isSpace (h.prints c (hmem c hc)), hrun c hc],
      h.unbroken c (hmem c hc)⟩
  cases n with
  | zero => exact .inl (by rw [hzero rfl]; rfl)
  | succ n =>
    have hall : t = (run ++ spaces n) ++ ' ' :: t' := by
      rw [ht, spaces_add, List.append_assoc, List.append_assoc]
      rfl
    have hne' : t' ≠ [] := by
      rintro rfl
      have hlast := h.last ' ' (by rw [hall]; simp)
      cases hlast
    refine .inr ⟨n, t', rfl, hne', fun c hc => h.prints c (hmem' c hc),
      fun c hc => h.unbroken c (hmem' c hc), ht', fun c hc => h.last c ?_, ?_⟩
    · rw [hall, List.getLast?_append, List.getLast?_cons, Option.mem_def.mp hc]
      rfl
    · exact marksWithin_append (hall ▸ h.marks)

theorem plainRun_append {before : Char} {run rest tail : List Char}
    (hrun : ∀ c ∈ run, isBlank c = false ∧ isBreak c = false)
    (hmarks : marksWithin before (run ++ rest) = false)
    (hstop : plainRun false (rest ++ tail) = some ([], rest ++ tail)) :
    plainRun false (run ++ (rest ++ tail)) = some (run, rest ++ tail) := by
  induction run generalizing before with
  | nil => exact hstop
  | cons c run ih =>
    obtain ⟨hblank, hbreak⟩ := hrun c List.mem_cons_self
    rw [List.cons_append, marksWithin, Bool.or_eq_false_iff, Bool.or_eq_false_iff] at hmarks
    obtain ⟨⟨hcolon, -⟩, hmore⟩ := hmarks
    have hword : (c == ':' && endsWord (run ++ (rest ++ tail)).head?) = false := by
      by_cases hc : (c == ':') = true
      · rw [hc, Bool.true_and] at hcolon ⊢
        -- the row goes on behind the colon, so the same character is next in the text
        cases hnext : run ++ rest with
        | nil => rw [hnext] at hcolon; cases hcolon
        | cons d more => rw [← List.append_assoc, hnext]; rw [hnext] at hcolon; exact hcolon
      · rw [Bool.eq_false_iff.mpr hc, Bool.false_and]
    rw [List.cons_append, plainRun]
    simp only [hblank, hbreak, hword, Bool.or_self, Bool.false_and, Bool.false_eq_true, if_false]
    rw [ih (fun d hd => hrun d (List.mem_cons_of_mem c hd)) hmore]
    rfl

/-! ## The scanner -/

/-- What the scanner does behind a word. -/
def plainAfter (indent : Int) (fuel : Nat) (stop : Scanned) : Option Scanned :=
  match stop.next.peek with
  | none => some stop
  | some x =>
    if !(isBlank x || isBreak x) then some stop
    else do
      let g ← gapFrom indent (stop.next.rest.length + 1) (Gap.start stop.next)
      if !false && (g.next.column : Int) < indent then
        some ⟨stop.text, g.next, !g.breaks.isEmpty⟩
      else plainFrom false indent fuel stop.text g

theorem plainAfter_of_mark {indent : Int} {fuel : Nat} {stop : Scanned} {x : Char}
    (h : stop.next.peek = some x) (hx : (isBlank x || isBreak x) = false) :
    plainAfter indent fuel stop = some stop := by
  simp only [plainAfter, h, hx, Bool.not_false, if_true]

theorem plainAfter_of_gap {indent : Int} {fuel : Nat} {stop : Scanned} {x : Char} {g : Gap}
    (h : stop.next.peek = some x) (hx : (isBlank x || isBreak x) = true)
    (hgap : gapFrom indent (stop.next.rest.length + 1) (Gap.start stop.next) = some g) :
    plainAfter indent fuel stop =
      if (g.next.column : Int) < indent then some ⟨stop.text, g.next, !g.breaks.isEmpty⟩
      else plainFrom false indent fuel stop.text g := by
  simp [plainAfter, h, hx, hgap]

theorem plainFrom_word {indent : Int} {fuel : Nat} {text run rest : List Char} {g : Gap}
    (hmarker : g.next.atAnyMarker = false) (hhash : g.next.peek ≠ some '#') (hne : run ≠ [])
    (hrun : plainRun false g.next.rest = some (run, rest)) :
    plainFrom false indent (fuel + 1) text g =
      plainAfter indent fuel ⟨text ++ g.folded ++ run, g.next.skip run.length, false⟩ := by
  have hempty : run.isEmpty = false := List.isEmpty_eq_false_iff.mpr hne
  have hnot : (g.next.atAnyMarker || g.next.peek == some '#') = false := by
    rw [hmarker, beq_false_of_ne hhash]
    rfl
  rw [plainFrom, hnot, hrun]
  simp only [Option.bind_eq_bind, Option.bind_some, hempty, Bool.false_eq_true, if_false]
  rfl

/-- **A row of words** is scanned up to what stands behind it. -/
theorem plainFrom_words (indent : Int) {tail : List Char}
    (hstop : plainRun false tail = some ([], tail)) {t : List Char} (ht : IsWords t) (fuel : Nat)
    (text : List Char) {g : Gap} (hrest : g.next.rest = t ++ tail)
    (hmarker : g.next.atAnyMarker = false) (hindent : indent ≤ g.next.column)
    (hfuel : t.length < fuel) :
    ∃ fuel', fuel ≤ fuel' + t.length ∧ plainFrom false indent fuel text g =
      plainAfter indent fuel' ⟨text ++ g.folded ++ t, g.next.skip t.length, false⟩ := by
  induction hlen : t.length using Nat.strong_induction_on generalizing t fuel text g with
  | _ len ih =>
  obtain ⟨run, rest, rfl, hne, hrun, hmore⟩ := ht.cases
  obtain ⟨fuel, rfl⟩ : ∃ n, fuel = n + 1 := ⟨fuel - 1, by omega⟩
  have hpos : 0 < run.length := List.length_pos_iff.mpr hne
  have hhash : g.next.peek ≠ some '#' := by
    obtain ⟨c, run, rfl⟩ := List.exists_cons_of_ne_nil hne
    rw [Cursor.peek, hrest]
    exact ht.head_ne_hash
  rw [List.append_assoc] at hrest
  rcases hmore with rfl | ⟨n, t', rfl, ht'⟩
  · -- the last word
    have hword : plainRun false g.next.rest = some (run, [] ++ tail) := by
      rw [hrest]
      exact plainRun_append hrun ht.marks hstop
    refine ⟨fuel, by simp at hlen; omega, ?_⟩
    rw [plainFrom_word hmarker hhash hne hword, List.append_nil]
    simp only [List.append_nil] at hlen
    rw [hlen]
  · -- a word with spaces behind it
    have hword : plainRun false g.next.rest = some (run, spaces (n + 1) ++ t' ++ tail) := by
      rw [hrest]
      exact plainRun_append hrun ht.marks rfl
    have hnext : (g.next.skip run.length).rest = spaces (n + 1) ++ (t' ++ tail) := by
      rw [← List.append_assoc]
      exact Cursor.rest_skip hrest
    have hpeek : (g.next.skip run.length).peek = some ' ' := by rw [Cursor.peek, hnext]; rfl
    have hhead : ∀ x ∈ (t' ++ tail).head?, isBlank x = false ∧ isBreak x = false := by
      intro x hx
      obtain ⟨c, rest, rfl⟩ := List.exists_cons_of_ne_nil ht'.ne_nil
      obtain rfl : c = x := by simpa using hx
      have hmem : c ∈ c :: rest := List.mem_cons_self
      exact ⟨by rw [isBlank_eq_isSpace (ht'.prints c hmem), ht'.head c rfl], ht'.unbroken c hmem⟩
    have hgap := gapFrom_start indent ((g.next.skip run.length).rest.length + 1) hnext
      (by rw [hnext, List.length_append, length_spaces]; omega) hhead
    simp only [List.length_append, length_spaces] at hlen hfuel
    have hcolumn : ((g.next.skip run.length).skip (n + 1)).column =
        g.next.column + run.length + (n + 1) := by
      simp only [Cursor.column_skip]
    obtain ⟨fuel', hle, heq⟩ := ih t'.length (by omega) ht' fuel (text ++ g.folded ++ run)
      (g := ⟨spaces (n + 1), [], (g.next.skip run.length).skip (n + 1)⟩)
      (Cursor.rest_skip_spaces hnext)
      (Cursor.atAnyMarker_of_column
        (show 0 < ((g.next.skip run.length).skip (n + 1)).column by omega))
      (show indent ≤ ((g.next.skip run.length).skip (n + 1)).column by omega)
      (show t'.length < fuel by omega) rfl
    refine ⟨fuel', by omega, ?_⟩
    have hinside : ¬((g.next.skip run.length).skip (n + 1)).column < indent := by omega
    rw [plainFrom_word hmarker hhash hne hword, plainAfter_of_gap hpeek rfl hgap,
      if_neg hinside]
    have hfolded : (⟨spaces (n + 1), [], (g.next.skip run.length).skip (n + 1)⟩ : Gap).folded =
        spaces (n + 1) := rfl
    rw [heq, hfolded]
    simp only [Cursor.skip_skip, List.append_assoc, ← hlen, Nat.add_assoc]

theorem atAnyMarker_of_isPlain {s : List Char} (hs : IsPlain s) {c : Cursor} {x : Char}
    {tail : List Char} (h : c.rest = s ++ x :: tail) (hx : x ≠ '-' ∧ x ≠ '.') :
    c.atAnyMarker = false := by
  have hmark : ∀ mark, mark ≠ x → s.take 3 ≠ [mark, mark, mark] → c.atMarker mark = false := by
    intro mark hne hs'
    rw [Cursor.atMarker, Cursor.peek, Cursor.peekAt, Cursor.peekAt, h]
    have hnil := hs.ne_nil
    rcases s with _ | ⟨a, _ | ⟨b, _ | ⟨d, s⟩⟩⟩
    · exact absurd rfl hnil
    · simp [hne.symm]
    · simp [hne.symm]
    · simp only [List.take_succ_cons, List.take_zero, ne_eq, List.cons.injEq, and_true,
        not_and] at hs'
      simp only [List.cons_append, List.head?_cons, List.getElem?_cons_succ,
        List.getElem?_cons_zero]
      by_cases ha : a = mark
      · by_cases hb : b = mark
        · simp [hs' ha hb]
        · simp [hb]
      · simp [ha]
  obtain ⟨y, rest, rfl⟩ := List.exists_cons_of_ne_nil hs.ne_nil
  have hstart := (marksAtStart_of_isPlain hs).1
  rw [startsLikeMarker, Bool.or_eq_false_iff, beq_eq_false_iff_ne, beq_eq_false_iff_ne] at hstart
  rw [Cursor.atAnyMarker, hmark '-' hx.1.symm hstart.1, hmark '.' hx.2.symm hstart.2]
  rfl

theorem plainFrom_empty {indent : Int} {fuel : Nat} {text : List Char} {g : Gap}
    (h : g.next.rest = []) :
    plainFrom false indent (fuel + 1) text g = some ⟨text, g.next, !g.breaks.isEmpty⟩ := by
  simp [plainFrom, Cursor.atAnyMarker, Cursor.atMarker, Cursor.peek, h, plainRun]

/-- **A plain text at the end of a line** is read, and the scanner goes on to the next line. -/
theorem plainScalar_line (indent : Int) {s : List Char} (hs : IsPlain s) {c : Cursor} {i : Nat}
    {rest : List Char} (h : c.rest = s ++ '\n' :: (spaces i ++ rest))
    (hrest : ∀ x ∈ rest.head?, isBlank x = false ∧ isBreak x = false)
    (hcolumn : indent ≤ c.column) (hi : (i : Int) < indent ∨ rest = []) :
    ∃ c', plainScalar false indent c = some ⟨s, c', true⟩ ∧ c'.rest = rest ∧ c'.column = i := by
  have hstop : plainRun false ('\n' :: (spaces i ++ rest)) =
      some ([], '\n' :: (spaces i ++ rest)) := rfl
  obtain ⟨fuel, hfuel, hwords⟩ := plainFrom_words indent hstop hs.isWords (c.rest.length + 1) []
    (g := Gap.start c) h (atAnyMarker_of_isPlain hs h (by decide)) hcolumn
    (by rw [h, List.length_append]; omega)
  have hlength : c.rest.length = s.length + (i + rest.length + 1) := by rw [h]; simp
  obtain ⟨fuel, rfl⟩ : ∃ n, fuel = n + 1 := ⟨fuel - 1, by omega⟩
  have hnext : (c.skip s.length).rest = ['\n'] ++ (spaces i ++ rest) := Cursor.rest_skip h
  have hpeek : (c.skip s.length).peek = some '\n' := by rw [Cursor.peek, hnext]; rfl
  obtain ⟨c', hgap, hrest', hcol'⟩ := gapFrom_breaks (g := Gap.start (c.skip s.length)) indent i
    ((c.skip s.length).rest.length + 1) (List.cons_ne_nil _ _)
    (List.forall_mem_singleton.mpr ⟨rfl, rfl⟩) hnext
    (by rw [hnext, List.length_append, List.length_append, length_spaces]; omega) hrest
  refine ⟨c', ?_, hrest', hcol'⟩
  have hstart : (Gap.start c).folded = [] := rfl
  rw [plainScalar, hwords, hstart, plainAfter_of_gap hpeek rfl hgap]
  change (if (c'.column : Int) < indent then some (⟨s, c', true⟩ : Scanned) else _) = _
  rw [hcol']
  rcases hi with hi | rfl
  · rw [if_pos hi]
  · split_ifs
    · rfl
    · exact plainFrom_empty (g := ⟨[], ['\n'], c'⟩) hrest'

/-- **A word in front of a colon** is read up to the colon, wherever it stands. -/
theorem plainScalar_key {s : List Char} (hs : IsPlain s) (hword : ∀ y ∈ s, isSpace y = false)
    {c : Cursor} {x : Char} {rest : List Char} (indent : Int)
    (h : c.rest = s ++ ':' :: x :: rest) (hx : isBlank x || isBreak x) :
    plainScalar false indent c = some ⟨s, c.skip s.length, false⟩ := by
  have hstop : plainRun false ([] ++ ':' :: x :: rest) = some ([], [] ++ ':' :: x :: rest) := by
    have hends : endsWord (some x) = true := hx
    simp [plainRun, hends, show isBlank ':' = false from rfl, show isBreak ':' = false from rfl]
  have hmarks : marksWithin ' ' (s ++ []) = false := by rw [List.append_nil]; exact hs.isWords.marks
  have hrun : plainRun false c.rest = some (s, ':' :: x :: rest) := by
    rw [h]
    refine plainRun_append (fun y hy => ⟨?_, hs.unbroken y hy⟩) hmarks hstop
    rw [isBlank_eq_isSpace (hs.prints y hy), hword y hy]
  have hhash : c.peek ≠ some '#' := by
    obtain ⟨y, s, rfl⟩ := List.exists_cons_of_ne_nil hs.ne_nil
    rw [Cursor.peek, h]
    exact hs.isWords.head_ne_hash
  have hnext : (c.skip s.length).rest = ':' :: x :: rest := Cursor.rest_skip h
  have hpeek : (c.skip s.length).peek = some ':' := by rw [Cursor.peek, hnext]; rfl
  have hstart : (Gap.start c).folded = [] := rfl
  rw [plainScalar, plainFrom_word (g := Gap.start c) (atAnyMarker_of_isPlain hs h (by decide)) hhash
    hs.ne_nil hrun, hstart]
  exact plainAfter_of_mark hpeek rfl

end Methodology.Yaml
