import Methodology.Proofs.Yaml.Block
import Methodology.Proofs.Yaml.Plain
import Methodology.Proofs.Yaml.Quoted
import Methodology.Yaml.Lexer

/-!
# The steps of the lexer

* `Lexer.Leads`: a run of the lexer that stays in front of the end of the stream.
* `Lexer.Reaches`, `Lexer.Stands`: the state in which the next token is looked for, and the one in
  which its first character is looked at.
* `reaches_line`: the end of a line is passed together with the indentation of the next one.
* `stepAt_plain`: a plain text is what nothing else starts.
* **`stepAt_key`**, **`step_colon`**: a key and the colon behind it.
* **`takesScalar_text`**: a text becomes one token, whatever its style.
-/

namespace Methodology.Yaml

namespace Lexer

/-! ## Runs -/

/-- A run of the lexer. Every step takes something of the text, and none ends the stream. -/
inductive Leads : Lexer → Lexer → Prop
  | refl (l : Lexer) : Leads l l
  | step {l l₁ l₂ : Lexer} (h : l.step = some l₁)
    (hlt : l₁.cursor.rest.length < l.cursor.rest.length)
    (hend : l₁.tokens.head? ≠ some .streamEnd) (hmore : Leads l₁ l₂) : Leads l l₂

theorem Leads.trans {l₁ l₂ l₃ : Lexer} (h : Leads l₁ l₂) (h' : Leads l₂ l₃) : Leads l₁ l₃ := by
  induction h with
  | refl => exact h'
  | step h hlt hend _ ih => exact .step h hlt hend (ih h')

/-- **A run ends with the stream.** -/
theorem run_of_leads {l l₁ l₂ : Lexer} (h : Leads l l₁) (hstep : l₁.step = some l₂)
    (hend : l₂.tokens.head? = some .streamEnd) (fuel : Nat)
    (hfuel : l.cursor.rest.length < fuel) : run fuel l = some l₂ := by
  induction h generalizing fuel with
  | refl l =>
    obtain ⟨fuel, rfl⟩ : ∃ n, fuel = n + 1 := ⟨fuel - 1, by omega⟩
    simp [run, hstep, hend]
  | step h hlt hne _ ih =>
    obtain ⟨fuel, rfl⟩ : ∃ n, fuel = n + 1 := ⟨fuel - 1, by omega⟩
    have hrun := ih hstep fuel (by omega)
    simp only [run, h, Option.bind_eq_bind, Option.bind_some, hne, if_false, hrun]

/-! ## In front of a token -/

/-- What a line may start with. -/
def StartsLine (rest : List Char) : Prop :=
  ∀ x ∈ rest.head?, (isBlank x = false ∧ isBreak x = false) ∧ x ≠ '#' ∧ x ≠ byteOrderMark

/-- The state in which the next token is looked for. -/
structure Reaches (l m : Lexer) : Prop where
  eq : toNextToken (l.cursor.rest.length + 1) l = m
  le : m.cursor.rest.length ≤ l.cursor.rest.length

theorem toNextToken_spaces (fuel : Nat) {n : Nat} {l : Lexer} {rest : List Char}
    (h : l.cursor.rest = spaces n ++ rest) (hrest : StartsLine rest) :
    toNextToken (fuel + 1) l = { l with cursor := l.cursor.skip n } := by
  have hnext := Cursor.rest_skip_spaces h
  have hmark : ¬(l.cursor.column = 0 ∧ l.cursor.peek = some byteOrderMark) := by
    rintro ⟨-, hpeek⟩
    rw [Cursor.peek, h] at hpeek
    cases n with
    | zero => exact (hrest _ hpeek).2.2 rfl
    | succ n => cases hpeek
  have hblank : l.cursor.skipWhile (fun x => x == ' ' ||
      ((l.inFlow || !l.keyAllowed) && x == '\t')) = l.cursor.skip n := by
    have hskip := Cursor.skipWhile_eq (p := fun x => x == ' ' ||
      ((l.inFlow || !l.keyAllowed) && x == '\t')) h
      (fun x hx => by rw [eq_space_of_mem_spaces hx]; rfl) (fun x hx => by
        obtain ⟨hspace, htab⟩ := Bool.or_eq_false_iff.mp (hrest x hx).1.1
        simp [hspace, htab])
    rwa [length_spaces] at hskip
  have hpeek : (l.cursor.skip n).peek = rest.head? := by rw [Cursor.peek, hnext]
  have hhash : ¬(l.cursor.skip n).peek = some '#' := fun h' => (hrest _ (hpeek ▸ h')).2.1 rfl
  have hbreak : (l.cursor.skip n).peek.any isBreak = false := by
    rw [hpeek]
    cases hx : rest.head? with
    | none => rfl
    | some x => exact (hrest x hx).1.2
  rw [toNextToken]
  simp only [hmark, if_false, hblank, hhash, hbreak, Bool.false_eq_true]

/-- Where a token starts, it is looked for. -/
theorem reaches_here {l : Lexer} (h : StartsLine l.cursor.rest) : l.Reaches l :=
  ⟨toNextToken_spaces _ (n := 0) rfl h, Nat.le_refl _⟩

theorem reaches_spaces {n : Nat} {l : Lexer} {rest : List Char}
    (h : l.cursor.rest = spaces n ++ rest) (hrest : StartsLine rest) :
    l.Reaches { l with cursor := l.cursor.skip n } := by
  refine ⟨toNextToken_spaces _ h hrest, ?_⟩
  simp [Cursor.rest_skip_spaces h, h]

/-- **The end of a line** is passed together with the indentation of the next line, where a key may
start again. -/
theorem reaches_line {i : Nat} {l : Lexer} {rest : List Char}
    (h : l.cursor.rest = '\n' :: (spaces i ++ rest)) (hrest : StartsLine rest)
    (hflow : l.flow = []) :
    ∃ c, l.Reaches { l with cursor := c, keyAllowed := true } ∧ c.rest = rest ∧ c.column = i := by
  have hpeek : l.cursor.peek = some '\n' := by rw [Cursor.peek, h]; rfl
  have hblank : l.cursor.skipWhile (fun x => x == ' ' ||
      ((l.inFlow || !l.keyAllowed) && x == '\t')) = l.cursor := by
    refine Cursor.skipWhile_eq_self fun x hx => ?_
    obtain rfl : '\n' = x := by simpa [h] using hx
    simp
  have hallowed : (l.keyAllowed || !l.inFlow) = true := by simp [inFlow, hflow]
  obtain ⟨c, hline, hrest', hcol⟩ : ∃ c : Cursor, l.cursor.skipLine = c ∧
      c.rest = spaces i ++ rest ∧ c.column = 0 := ⟨_, Cursor.skipLine_feed h, rfl, rfl⟩
  have hnext := toNextToken_spaces (l.cursor.rest.length - 1)
    (l := { l with cursor := c, keyAllowed := true }) hrest' hrest
  refine ⟨c.skip i, ⟨?_, ?_⟩, Cursor.rest_skip_spaces hrest', by simp [hcol]⟩
  · have hlength : l.cursor.rest.length = l.cursor.rest.length - 1 + 1 := by rw [h]; simp
    have hmark : ¬(l.cursor.column = 0 ∧ l.cursor.peek = some byteOrderMark) := by
      rw [hpeek]
      rintro ⟨-, heq⟩
      exact absurd (Option.some.inj heq) (by decide)
    have hhash : ¬l.cursor.peek = some '#' := by rw [hpeek]; decide
    have hbreak : l.cursor.peek.any isBreak = true := by rw [hpeek]; rfl
    rw [hlength, toNextToken]
    simp only [hmark, if_false, hblank, hhash, hbreak, if_true, hline, hallowed]
    exact hnext
  · simp only [Cursor.rest_skip_spaces hrest', h, List.length_cons, List.length_append]
    omega

/-- The state in which the next token is taken. -/
structure Stands (l u : Lexer) : Prop where
  some : ∀ x, u.cursor.peek = some x → l.step = u.stepAt x
  none : u.cursor.peek = none → l.step = u.streamEnd
  le : u.cursor.rest.length ≤ l.cursor.rest.length

theorem unroll_cursor (l : Lexer) (column : Int) : (l.unroll column).cursor = l.cursor := by
  unfold unroll
  split_ifs
  · rfl
  · generalize l.outer = outer
    induction outer generalizing l with
    | nil => rfl
    | cons around more ih =>
      rw [unrollTo]
      split_ifs
      · exact ih _ (by assumption)
      · rfl

theorem Reaches.stands {l : Lexer} {c : Cursor} {ts : List Token} {indent : Int}
    {outer : List Int} {allowed : Bool} {k k' : Option KeyStart}
    (h : l.Reaches ⟨c, ts, indent, outer, allowed, k, []⟩) (hk : refreshKey c k = some k') :
    l.Stands ((⟨c, ts, indent, outer, allowed, k', []⟩ : Lexer).unroll c.column) := by
  refine ⟨fun x hx => ?_, fun hx => ?_, ?_⟩
  · rw [step, h.eq]
    simp only [refresh, hk, List.mapM_nil, Option.pure_def, Option.bind_eq_bind, Option.bind_some,
      hx]
  · rw [step, h.eq]
    simp only [refresh, hk, List.mapM_nil, Option.pure_def, Option.bind_eq_bind, Option.bind_some,
      hx]
  · rw [unroll_cursor]
    exact h.le

/-! ## The ends of block collections -/

theorem unroll_of_le {l : Lexer} {column : Int} (h : l.indent ≤ column) : l.unroll column = l := by
  unfold unroll
  split_ifs
  · rfl
  · cases l.outer with
    | nil => rfl
    | cons around more => exact if_neg (by omega)

theorem unroll_of_lt {c : Cursor} {ts : List Token} {indent around column : Int}
    {more : List Int} {allowed : Bool} {k : Option KeyStart} (h : column < indent)
    (haround : around ≤ column) :
    (⟨c, ts, indent, around :: more, allowed, k, []⟩ : Lexer).unroll column =
      ⟨c, .blockEnd :: ts, around, more, allowed, k, []⟩ := by
  unfold unroll
  rw [if_neg (by simp [inFlow]), unrollTo, if_pos h]
  cases more with
  | nil => rfl
  | cons a more => exact if_neg (Int.not_lt.mpr haround)

theorem Reaches.stands_of_le {l : Lexer} {c : Cursor} {ts : List Token} {indent : Int}
    {outer : List Int} {allowed : Bool} (h : l.Reaches ⟨c, ts, indent, outer, allowed, none, []⟩)
    (hindent : indent ≤ c.column) : l.Stands ⟨c, ts, indent, outer, allowed, none, []⟩ := by
  have hstands := h.stands rfl
  rwa [unroll_of_le hindent] at hstands

theorem Reaches.stands_of_lt {l : Lexer} {c : Cursor} {ts : List Token} {indent around : Int}
    {more : List Int} {allowed : Bool}
    (h : l.Reaches ⟨c, ts, indent, around :: more, allowed, none, []⟩)
    (hindent : c.column < indent) (haround : around ≤ c.column) :
    l.Stands ⟨c, .blockEnd :: ts, around, more, allowed, none, []⟩ := by
  have hstands := h.stands rfl
  rwa [unroll_of_lt hindent haround] at hstands

/-! ## Keys -/

theorem stepAt_plain {l : Lexer} {x : Char} {s tail : List Char} (hs : IsPlain (x :: s))
    (hflow : l.flow = []) (h : l.cursor.rest = x :: s ++ tail)
    (hmarker : l.cursor.atAnyMarker = false) : l.stepAt x = l.plain := by
  obtain ⟨-, hstart, -⟩ := marksAtStart_of_isPlain hs
  rw [marksAtStart, Bool.or_eq_false_iff] at hstart
  obtain ⟨hlead, hword⟩ := hstart
  have hhead : isSpace x = false := hs.head x rfl
  have hprint : isPrintable x = true := hs.prints x List.mem_cons_self
  have hblank : isBlank x = false := by rw [isBlank_eq_isSpace hprint, hhead]
  have hbreak : isBreak x = false := hs.unbroken x List.mem_cons_self
  simp only [isLeadingMark, List.contains_eq_mem, decide_eq_false_iff_not, List.mem_cons,
    List.not_mem_nil, or_false, not_or] at hlead
  obtain ⟨hhash, hcomma, hopen, hclose, hcurly, hcurly', hand, hstar, hbang, hpipe, hgreater,
    hsingle, hdouble, hpercent, hat, htick⟩ := hlead
  rw [Cursor.atAnyMarker, Bool.or_eq_false_iff] at hmarker
  -- a mark that could start something else is followed by more of its word
  have hnext : x = '-' ∨ x = '?' ∨ x = ':' → endsWord (l.cursor.peekAt 1) = false := by
    intro hx
    have hmark : (x == '?' || x == ':' || x == '-') = true := by
      rcases hx with rfl | rfl | rfl <;> rfl
    rw [hmark, Bool.true_and] at hword
    cases s with
    | nil => cases hword
    | cons d s => simpa [Cursor.peekAt, h] using hword
  have hin : l.inFlow = false := by simp [inFlow, hflow]
  have hplain : startsPlain false x (l.cursor.peekAt 1) = true := by
    by_cases hx : x = '-' ∨ x = '?' ∨ x = ':'
    · have hends := hnext hx
      have hany : (l.cursor.peekAt 1).any isBlank = false := by
        cases hp : l.cursor.peekAt 1 with
        | none => rfl
        | some d =>
          rw [hp] at hends
          exact (Bool.or_eq_false_iff.mp hends).1
      rcases hx with rfl | rfl | rfl <;> simp [startsPlain, hends, hany]
    · rw [not_or, not_or] at hx
      simp [startsPlain, isIndicator, hblank, hbreak, hx, hhash, hcomma, hopen, hclose, hcurly,
        hcurly', hand, hstar, hbang, hpipe, hgreater, hsingle, hdouble, hpercent, hat, htick]
  have hentry : ¬(x = '-' ∧ endsWord (l.cursor.peekAt 1) = true) := by
    rintro ⟨hx, hends⟩
    rw [hnext (.inl hx)] at hends
    cases hends
  have hkey : ¬(x = '?' ∧ (False ∨ endsWord (l.cursor.peekAt 1) = true)) := by
    rintro ⟨hx, hends⟩
    rw [hnext (.inr (.inl hx))] at hends
    simp at hends
  have hvalue : ¬(x = ':' ∧ (False ∨ endsWord (l.cursor.peekAt 1) = true)) := by
    rintro ⟨hx, hends⟩
    rw [hnext (.inr (.inr hx))] at hends
    simp at hends
  simp only [stepAt, hmarker.1, hmarker.2, hin, hpercent, hopen, hcurly, hclose, hcurly', hcomma,
    hentry, hkey, hvalue, hstar, hand, hbang, hpipe, hgreater, hsingle, hdouble, hplain,
    and_false, false_and, if_false, if_true, Bool.false_eq_true]

/-- A word that may be a key. -/
structure IsKey (k : List Char) : Prop where
  plain : IsPlain k
  word : ∀ c ∈ k, isSpace c = false
  text : resolve k = .text
  size : Text.byteSize k ≤ 1024

theorem saveKey_allowed (c : Cursor) (ts : List Token) (indent : Int) (outer : List Int) :
    saveKey ⟨c, ts, indent, outer, true, none, []⟩ = some ⟨c, ts, indent, outer, true,
      some ⟨ts.length, c.index, c.line, c.column, indent == c.column⟩, []⟩ := by
  simp [saveKey, dropKey, inFlow]

/-- **A key.** What stands there is remembered, since the colon makes a key of it. -/
theorem stepAt_key {k : List Char} (hk : IsKey k) {c : Cursor} {ts : List Token} {indent : Int}
    {outer : List Int} {x y : Char} {rest : List Char} (h : c.rest = k ++ ':' :: y :: rest)
    (hx : k.head? = some x) (hy : isBlank y || isBreak y) :
    stepAt ⟨c, ts, indent, outer, true, none, []⟩ x = some ⟨c.skip k.length,
      .scalar .plain k :: ts, indent, outer, false,
      some ⟨ts.length, c.index, c.line, c.column, indent == c.column⟩, []⟩ := by
  obtain ⟨k, rfl⟩ := List.head?_eq_some_iff.mp hx
  have hmarker := atAnyMarker_of_isPlain hk.plain h (by decide)
  rw [stepAt_plain (l := ⟨c, ts, indent, outer, true, none, []⟩) hk.plain rfl h hmarker, plain,
    saveKey_allowed]
  simp only [Option.bind_eq_bind, Option.bind_some, inFlow, List.isEmpty_nil, Bool.not_true,
    plainScalar_key hk.plain hk.word (indent + 1) h hy]
  rfl

/-- **The colon behind a key** puts the token of the key in front of it, and that of a mapping where
the key is the first one of a mapping further in. -/
theorem step_colon (ts : List Token) (outer : List Int) (required : Bool) {k : List Char}
    (hk : IsKey k) {c : Cursor} {indent : Int} {y : Char} {rest : List Char}
    (h : c.rest = k ++ ':' :: y :: rest) (hindent : indent ≤ c.column)
    (hy : isBlank y || isBreak y) :
    step ⟨c.skip k.length, .scalar .plain k :: ts, indent, outer, false,
      some ⟨ts.length, c.index, c.line, c.column, required⟩, []⟩ =
      some ⟨(c.skip k.length).skip 1,
        .value :: .scalar .plain k :: .key ::
          if indent = c.column then ts else .blockMappingStart :: ts,
        c.column, if indent = c.column then outer else indent :: outer, false, none, []⟩ := by
  have hnext : (c.skip k.length).rest = ':' :: y :: rest := Cursor.rest_skip h
  have hpeek : (c.skip k.length).peek = some ':' := by rw [Cursor.peek, hnext]; rfl
  have hcolumn : 0 < (c.skip k.length).column := by
    have := List.length_pos_iff.mpr hk.plain.ne_nil
    simp only [Cursor.column_skip]
    omega
  have hstay : ∀ fuel, toNextToken (fuel + 1) ⟨c.skip k.length, .scalar .plain k :: ts, indent,
      outer, false, some ⟨ts.length, c.index, c.line, c.column, required⟩, []⟩ =
        ⟨c.skip k.length, .scalar .plain k :: ts, indent, outer, false,
          some ⟨ts.length, c.index, c.line, c.column, required⟩, []⟩ := by
    intro fuel
    have hblank : (c.skip k.length).skipWhile (fun x => x == ' ' || x == '\t') =
        c.skip k.length := by
      refine Cursor.skipWhile_eq_self fun x hx => ?_
      obtain rfl : ':' = x := by simpa [hnext] using hx
      rfl
    simp [toNextToken, hpeek, hblank, byteOrderMark, isBreak]
  have hfresh : refreshKey (c.skip k.length)
      (some ⟨ts.length, c.index, c.line, c.column, required⟩) =
        some (some ⟨ts.length, c.index, c.line, c.column, required⟩) := by
    have hindex : (c.skip k.length).index = c.index + Text.byteSize k := Cursor.index_skip h
    have hsize := hk.size
    have hstale : isStale (c.skip k.length) ⟨ts.length, c.index, c.line, c.column, required⟩ =
        false := by
      rw [isStale, Bool.or_eq_false_iff, hindex]
      exact ⟨decide_eq_false (Nat.lt_irrefl _),
        decide_eq_false (Nat.not_lt.mpr (Nat.add_le_add_left hsize c.index))⟩
    rw [refreshKey, hstale]
    rfl
  have hmark : (c.skip k.length).atMarker '-' = false ∧ (c.skip k.length).atMarker '.' = false := by
    have := Cursor.atAnyMarker_of_column hcolumn
    simpa [Cursor.atAnyMarker] using this
  have hends : endsWord ((c.skip k.length).peekAt 1) = true := by
    rw [Cursor.peekAt, hnext]
    exact hy
  have hstands := Reaches.stands (l := ⟨c.skip k.length, .scalar .plain k :: ts, indent, outer,
    false, some ⟨ts.length, c.index, c.line, c.column, required⟩, []⟩) ⟨hstay _, Nat.le_refl _⟩
    hfresh
  rw [unroll_of_le (by simp only [Cursor.column_skip]; omega)] at hstands
  rw [hstands.some ':' hpeek]
  have hvalue : stepAt ⟨c.skip k.length, .scalar .plain k :: ts, indent, outer, false,
      some ⟨ts.length, c.index, c.line, c.column, required⟩, []⟩ ':' = value ⟨c.skip k.length,
        .scalar .plain k :: ts, indent, outer, false,
          some ⟨ts.length, c.index, c.line, c.column, required⟩, []⟩ := by
    simp [stepAt, hmark, hends, inFlow]
  rw [hvalue]
  by_cases heq : indent = c.column
  · simp [value, insert, roll, heq, emit, skip, inFlow]
  · have hlt : ¬(c.column : Int) ≤ indent := by omega
    have hcount : ts.length + 1 + 1 - ts.length = 2 := by omega
    simp [value, insert, roll, heq, hlt, emit, skip, inFlow, hcount]

/-! ## Scalars -/

/-- The scalar that starts at a place becomes one token, and the next token is looked for at the
start of the next line. A key start that is left behind asks for no key. -/
def TakesScalar (c : Cursor) (ts : List Token) (indent : Int) (outer : List Int) (allowed : Bool)
    (t : Token) (i : Nat) (rest : List Char) : Prop :=
  ∃ (x : Char) (l : Lexer) (c' : Cursor) (k : Option KeyStart), c.peek = some x ∧
    stepAt ⟨c, ts, indent, outer, allowed, none, []⟩ x = some l ∧
    l.cursor.rest.length < c.rest.length ∧ l.tokens = t :: ts ∧
    l.Reaches ⟨c', t :: ts, indent, outer, true, k, []⟩ ∧ c'.rest = rest ∧ c'.column = i ∧
    k.any KeyStart.required = false ∧ (allowed = false → k = none)

section

variable {c : Cursor} {ts : List Token} {indent : Int} {outer : List Int} {allowed : Bool}
  {s rest : List Char} {i : Nat}

variable (ts outer) in
theorem exists_saveKey (h : allowed = true → indent ≠ c.column) :
    ∃ k, saveKey ⟨c, ts, indent, outer, allowed, none, []⟩ =
        some ⟨c, ts, indent, outer, allowed, k, []⟩ ∧
      k.any KeyStart.required = false ∧ (allowed = false → k = none) := by
  cases allowed with
  | false => exact ⟨none, rfl, rfl, fun _ => rfl⟩
  | true =>
    refine ⟨_, saveKey_allowed c ts indent outer, ?_, fun h => by cases h⟩
    exact beq_false_of_ne (h rfl)

theorem takesScalar_plain (hs : IsPlain s) (h : c.rest = s ++ '\n' :: (spaces i ++ rest))
    (hrest : StartsLine rest) (hallowed : allowed = true → indent ≠ c.column)
    (hcolumn : indent < c.column) (hi : (i : Int) ≤ indent ∨ rest = []) :
    TakesScalar c ts indent outer allowed (.scalar .plain s) i rest := by
  obtain ⟨k, hsave, hrequired, hnone⟩ := exists_saveKey ts outer hallowed
  obtain ⟨c', hscan, hrest', hcol'⟩ := plainScalar_line (indent + 1) hs h
    (fun x hx => (hrest x hx).1) (by omega) (hi.imp (by omega) id)
  obtain ⟨x, s, rfl⟩ := List.exists_cons_of_ne_nil hs.ne_nil
  have hmarker := atAnyMarker_of_isPlain hs h (by decide)
  refine ⟨x, ⟨c', .scalar .plain (x :: s) :: ts, indent, outer, true, k, []⟩, c', k,
    by rw [Cursor.peek, h]; rfl, ?_, ?_, rfl, reaches_here (hrest' ▸ hrest), hrest', hcol',
    hrequired, hnone⟩
  · rw [stepAt_plain (l := ⟨c, ts, indent, outer, allowed, none, []⟩) hs rfl h hmarker, plain,
      hsave]
    simp only [Option.bind_eq_bind, Option.bind_some, inFlow, List.isEmpty_nil, Bool.not_true,
      hscan]
    rfl
  · rw [hrest', h]
    simp only [List.length_append, List.length_cons]
    omega

theorem takesScalar_quoted {q : Quote} {cs : List Char} (h : c.rest = q.mark :: cs)
    (hread : ∃ c', quotedScalar q (c.skip 1) = some (s, c') ∧
      c'.rest = '\n' :: (spaces i ++ rest)) (hlength : (spaces i ++ rest).length < cs.length)
    (hrest : StartsLine rest) (hallowed : allowed = true → indent ≠ c.column) :
    TakesScalar c ts indent outer allowed (.scalar .quoted s) i rest := by
  obtain ⟨k, hsave, hrequired, hnone⟩ := exists_saveKey ts outer hallowed
  obtain ⟨c', hscan, hend⟩ := hread
  obtain ⟨c'', hreach, hrest'', hcol''⟩ := reaches_line
    (l := ⟨c', .scalar .quoted s :: ts, indent, outer, false, k, []⟩) hend hrest rfl
  have hpeek : c.peek = some q.mark := by rw [Cursor.peek, h]; rfl
  have hquoted : stepAt ⟨c, ts, indent, outer, allowed, none, []⟩ q.mark =
      quoted ⟨c, ts, indent, outer, allowed, none, []⟩ q := by
    cases q with
    | single => simp [stepAt, Cursor.atMarker, hpeek, inFlow, Quote.mark]
    | double => simp [stepAt, Cursor.atMarker, hpeek, inFlow, Quote.mark]
  refine ⟨q.mark, _, c'', k, hpeek, ?_, ?_, rfl, hreach, hrest'', hcol'', hrequired, hnone⟩
  · rw [hquoted, quoted, hsave]
    simp only [Option.bind_eq_bind, Option.bind_some, hscan]
    rfl
  · rw [h, hend]
    simp only [List.length_cons]
    omega

theorem takesScalar_literal (hs : s ≠ []) (hprints : Prints s) {n : Nat}
    (hn : n = (max indent 0).toNat + 2) (h : c.rest = '|' :: (literalIndent s ++ literalChomp s ++
      '\n' :: (literalChars n true (ended s) ++ (spaces i ++ rest)))) (hi : i < n)
    (hrest : StartsLine rest) :
    TakesScalar c ts indent outer allowed (.scalar .quoted s) i rest := by
  obtain ⟨c', hscan, hrest', hcol'⟩ := blockScalar_literal hs hprints hn hi
    (fun x hx => (hrest x hx).1) (Cursor.rest_skip_one h)
  have hpeek : c.peek = some '|' := by rw [Cursor.peek, h]; rfl
  have hblock : stepAt ⟨c, ts, indent, outer, allowed, none, []⟩ '|' =
      block ⟨c, ts, indent, outer, allowed, none, []⟩ true := by
    simp [stepAt, Cursor.atMarker, hpeek, inFlow]
  refine ⟨'|', ⟨c', .scalar .quoted s :: ts, indent, outer, true, none, []⟩, c', none, hpeek, ?_,
    ?_, rfl, reaches_here (hrest' ▸ hrest), hrest', hcol', rfl, fun _ => rfl⟩
  · rw [hblock, block]
    simp only [dropKey, Option.any_none, Bool.false_eq_true, if_false, Option.bind_eq_bind,
      Option.bind_some, hscan]
    rfl
  · rw [hrest', h]
    simp only [List.length_append, List.length_cons]
    omega

/-- **A text in its style** becomes one token. -/
theorem takesScalar_text {n : Nat} (hn : n = (max indent 0).toNat + 2)
    (h : c.rest = ended (scalarChars n s) ++ (spaces i ++ rest)) (hrest : StartsLine rest)
    (hallowed : allowed = true → indent ≠ c.column) (hcolumn : indent < c.column)
    (hi : (i : Int) ≤ indent ∨ i = 0 ∧ rest = []) :
    TakesScalar c ts indent outer allowed
      (.scalar (if styleOf s = .plain then .plain else .quoted) s) i rest := by
  cases hstyle : styleOf s with
  | plain =>
    have hs := (isPlain_of_styleOf hstyle).1
    obtain ⟨x, hx⟩ : ∃ x, s.getLast? = some x := ⟨_, List.getLast?_eq_some_getLast hs.ne_nil⟩
    have hbreak := hs.unbroken x (List.mem_of_mem_getLast? hx)
    rw [scalarChars, hstyle] at h
    simp only [ended, hx, Option.any_some, hbreak, Bool.false_eq_true, if_false, List.append_assoc,
      List.singleton_append] at h
    exact takesScalar_plain hs h hrest hallowed hcolumn (hi.imp id And.right)
  | single =>
    have hs := isSingle_of_styleOf hstyle
    have hended : ended (scalarChars n s) = '\'' :: (singleChars n false s ++ '\'' :: ['\n']) := by
      rw [scalarChars, hstyle]
      exact ended_concat ('\'' :: singleChars n false s) rfl
    rw [hended, List.cons_append, List.append_assoc, List.cons_append, List.singleton_append] at h
    refine takesScalar_quoted (q := .single) h ?_ ?_ hrest hallowed
    · refine quotedScalar_single (show 0 < n by omega) hs ?_ (Cursor.rest_skip_one h) (by simp)
      exact fun heq => absurd (Option.some.inj heq) (by decide)
    · simp only [List.length_append, List.length_cons]
      omega
  | double =>
    have hended : ended (scalarChars n s) = '"' :: (s.flatMap doubleChar ++ '"' :: ['\n']) := by
      rw [scalarChars, hstyle]
      exact ended_concat ('"' :: s.flatMap doubleChar) rfl
    rw [hended, List.cons_append, List.append_assoc, List.cons_append, List.singleton_append] at h
    refine takesScalar_quoted (q := .double) h ?_ ?_ hrest hallowed
    · exact quotedScalar_double (Cursor.rest_skip_one h) (by simp)
    · simp only [List.length_append, List.length_cons]
      omega
  | literal =>
    have hs := isLiteral_of_styleOf hstyle
    have hended : ended (scalarChars n s) = '|' :: (literalIndent s ++ literalChomp s ++
        '\n' :: literalChars n true (ended s)) := by
      rw [scalarChars, hstyle]
      exact ended_literal n hs.ne_nil ('|' :: literalIndent s ++ literalChomp s)
    rw [hended, List.cons_append, List.append_assoc, List.cons_append] at h
    exact takesScalar_literal hs.ne_nil hs.prints hn h (by omega) hrest

end

end Lexer

end Methodology.Yaml
