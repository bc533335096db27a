import Mathlib.Data.List.DropRight
import Methodology.Proofs.Json.Written

/-!
# The steps of reading a data value

What each step of the reader takes from the text when it succeeds, so that no later proof takes the
readers apart.

* `nextItem_eq_none_iff`, `nextKey_eq_none_iff`: the end of a list and of a mapping.
* `lt_of_stringFrom`, `lt_of_nextKey`, `lt_of_colon`, `le_of_nextItem`: **every step takes
  something**, so that less of the text is left.
* `Lexed`, `lexed_of_writtenFrom`: what stands at the start of a value that is written.
-/

namespace Methodology.Json

open Result

/-! ## Blanks -/

theorem skipBlanks_skipBlanks (cs : List Char) : skipBlanks (skipBlanks cs) = skipBlanks cs :=
  List.dropWhile_idempotent isBlank cs

theorem length_skipBlanks_le (cs : List Char) : (skipBlanks cs).length ≤ cs.length :=
  (List.dropWhile_suffix _).length_le

theorem lt_of_skipBlanks {cs rest : List Char} {c : Char} (h : skipBlanks cs = c :: rest) :
    rest.length < cs.length := by
  have hle := length_skipBlanks_le cs
  rw [h, List.length_cons] at hle
  exact hle

/-! ## Texts -/

theorem lt_of_oneOf {cs rest : List Char} {c : Char} (h : oneOf cs = .ok (c, rest)) :
    rest.length < cs.length := by
  cases cs with
  | nil => cases h
  | cons d ds =>
    cases h
    exact Nat.lt_succ_self _

theorem le_of_hexFour {cs rest : List Char} {n : Nat} (h : hexFour cs = .ok (n, rest)) :
    rest.length ≤ cs.length := by
  rw [hexFour] at h
  split at h
  · cases h
  · split at h
    · cases h
      exact (List.drop_sublist 4 cs).length_le
    · cases h

theorem lt_of_lowSurrogate {high : Nat} {cs rest : List Char} {c : Char}
    (h : lowSurrogate high cs = .ok (c, rest)) : rest.length < cs.length := by
  obtain ⟨⟨slash, after⟩, hslash, h⟩ := bind_eq_ok.mp h
  have hafter := lt_of_oneOf hslash
  simp only at h
  split at h
  · cases h
  · obtain ⟨⟨u, more⟩, hu, h⟩ := bind_eq_ok.mp h
    have hmore := lt_of_oneOf hu
    simp only at h
    split at h
    · cases h
    · obtain ⟨⟨low, left⟩, hlow, h⟩ := bind_eq_ok.mp h
      have hleft := le_of_hexFour hlow
      simp only at h
      split at h
      · obtain ⟨-, rfl⟩ := Prod.mk.inj (Except.ok.inj h)
        omega
      · cases h

theorem lt_of_escape {cs rest : List Char} {c : Char} (h : escape cs = .ok (c, rest)) :
    rest.length < cs.length := by
  obtain ⟨⟨letter, after⟩, hletter, h⟩ := bind_eq_ok.mp h
  have hafter := lt_of_oneOf hletter
  simp only at h
  split at h
  case h_9 =>
    obtain ⟨⟨n, more⟩, hn, h⟩ := bind_eq_ok.mp h
    have hmore := le_of_hexFour hn
    simp only at h
    split at h
    · cases h
    · split at h
      · have hrest := lt_of_lowSurrogate h
        omega
      · cases h
        omega
  case h_10 => cases h
  all_goals
    cases h
    exact hafter

theorem lt_of_charsFrom {fuel : Nat} {cs s rest : List Char}
    (h : charsFrom fuel cs = .ok (s, rest)) : rest.length < cs.length := by
  induction fuel generalizing cs s with
  | zero => cases h
  | succ fuel ih =>
    cases cs with
    | nil => cases h
    | cons c cs =>
      rw [charsFrom] at h
      rw [List.length_cons]
      split at h
      · cases h
        exact Nat.lt_succ_self _
      · split at h
        · obtain ⟨⟨e, after⟩, he, h⟩ := bind_eq_ok.mp h
          obtain ⟨⟨s', rest'⟩, hs, h⟩ := bind_eq_ok.mp h
          cases h
          have hafter := lt_of_escape he
          have hrest := ih hs
          omega
        · split at h
          · cases h
          · obtain ⟨⟨s', rest'⟩, hs, h⟩ := bind_eq_ok.mp h
            cases h
            have hrest := ih hs
            omega

theorem lt_of_stringFrom {cs rest : List Char} {s : String} (h : stringFrom cs = .ok (s, rest)) :
    rest.length < cs.length := by
  obtain ⟨⟨chars, left⟩, hchars, h⟩ := bind_eq_ok.mp h
  cases h
  exact lt_of_charsFrom hchars

theorem le_of_word {letters cs rest : List Char} (h : word letters cs = .ok rest) :
    rest.length ≤ cs.length := by
  induction letters generalizing cs with
  | nil =>
    cases h
    exact Nat.le_refl _
  | cons w letters ih =>
    cases cs with
    | nil => cases h
    | cons c cs =>
      rw [word] at h
      split at h
      · exact Nat.le_succ_of_le (ih h)
      · cases h

/-! ## Lists and mappings -/

theorem nextItem_eq_none_iff {first : Bool} {cs : List Char} :
    nextItem first cs = .ok none ↔ ∃ rest, skipBlanks cs = ']' :: rest := by
  rw [nextItem]
  cases h : skipBlanks cs with
  | nil =>
    constructor
    · intro h
      cases h
    · rintro ⟨_, h⟩
      cases h
  | cons c rest =>
    simp only [List.cons.injEq]
    by_cases hend : c = ']'
    · rw [if_pos hend]
      exact ⟨fun _ => ⟨rest, hend, rfl⟩, fun _ => rfl⟩
    · rw [if_neg hend]
      refine ⟨fun h => ?_, fun h => absurd h.choose_spec.1 hend⟩
      split at h
      · cases h
      · split at h
        · split at h
          · cases h
          · split at h <;> cases h
        · cases h

theorem nextKey_eq_none_iff {first : Bool} {cs : List Char} :
    nextKey first cs = .ok none ↔ ∃ rest, skipBlanks cs = '\x7d' :: rest := by
  rw [nextKey]
  cases h : skipBlanks cs with
  | nil =>
    constructor
    · intro h
      cases h
    · rintro ⟨_, h⟩
      cases h
  | cons c rest =>
    simp only [List.cons.injEq]
    by_cases hend : c = '\x7d'
    · rw [if_pos hend]
      exact ⟨fun _ => ⟨rest, hend, rfl⟩, fun _ => rfl⟩
    · rw [if_neg hend]
      refine ⟨fun h => ?_, fun h => absurd h.choose_spec.1 hend⟩
      split at h
      · split at h <;> cases h
      · split at h
        · split at h
          · cases h
          · split at h
            · cases h
            · split at h <;> cases h
        · cases h

theorem le_of_nextItem {first : Bool} {cs rest : List Char}
    (h : nextItem first cs = .ok (some rest)) : rest.length ≤ cs.length := by
  rw [nextItem] at h
  have hskip := length_skipBlanks_le cs
  split at h
  · cases h
  · next c more hcs =>
    rw [hcs] at hskip
    split at h
    · cases h
    · split at h
      · cases h
        exact hskip
      · split at h
        · have hmore := length_skipBlanks_le more
          split at h
          · cases h
          · next d left hleft =>
            rw [hleft] at hmore
            split at h
            · cases h
            · cases h
              exact Nat.le_trans hmore (Nat.le_of_succ_le hskip)
        · cases h

theorem lt_of_nextKey {first : Bool} {cs rest : List Char}
    (h : nextKey first cs = .ok (some rest)) : rest.length < cs.length := by
  rw [nextKey] at h
  split at h
  · cases h
  · next c more hcs =>
    have hmore := lt_of_skipBlanks hcs
    split at h
    · cases h
    · split at h
      · split at h
        · cases h
          exact hmore
        · cases h
      · split at h
        · split at h
          · cases h
          · next d left hleft =>
            split at h
            · cases h
              exact Nat.lt_trans (lt_of_skipBlanks hleft) hmore
            · split at h <;> cases h
        · cases h

theorem lt_of_colon {cs rest : List Char} (h : colon cs = .ok rest) : rest.length < cs.length := by
  rw [colon] at h
  split at h
  · cases h
  · next c more hcs =>
    split at h
    · cases h
      exact lt_of_skipBlanks hcs
    · cases h

/-- **One item that is written** in a list, or its end. -/
theorem writtenItems_succ_eq_ok_iff {fuel depth : Nat} {first : Bool} {cs rest : List Char}
    {items : List Json} : writtenItems (fuel + 1) depth first cs = .ok (items, rest) ↔
      (skipBlanks cs = ']' :: rest ∧ items = []) ∨
      ∃ inside item behind others, nextItem first cs = .ok (some inside) ∧
        writtenFrom fuel depth inside = .ok (item, behind) ∧
        writtenItems fuel depth false behind = .ok (others, rest) ∧ items = item :: others := by
  rw [writtenItems]
  constructor
  · intro h
    obtain ⟨next, hnext, h⟩ := bind_eq_ok.mp h
    cases next with
    | none =>
      obtain ⟨left, hleft⟩ := nextItem_eq_none_iff.mp hnext
      cases h
      exact .inl ⟨by rw [hleft, List.tail_cons], rfl⟩
    | some inside =>
      obtain ⟨⟨item, behind⟩, hitem, h⟩ := bind_eq_ok.mp h
      obtain ⟨⟨others, left⟩, hothers, h⟩ := bind_eq_ok.mp h
      cases h
      exact .inr ⟨inside, item, behind, others, hnext, hitem, hothers, rfl⟩
  · rintro (⟨hend, rfl⟩ | ⟨inside, item, behind, others, hnext, hitem, hothers, rfl⟩)
    · refine bind_eq_ok.mpr ⟨none, nextItem_eq_none_iff.mpr ⟨rest, hend⟩, ?_⟩
      simp only [hend, List.tail_cons]
    · refine bind_eq_ok.mpr ⟨_, hnext, bind_eq_ok.mpr ⟨_, hitem, ?_⟩⟩
      exact bind_eq_ok.mpr ⟨_, hothers, rfl⟩

/-- **One field that is written** in a mapping, or its end. -/
theorem writtenFields_succ_eq_ok_iff {fuel depth : Nat} {first : Bool} {cs rest : List Char}
    {fields : List (String × Json)} :
    writtenFields (fuel + 1) depth first cs = .ok (fields, rest) ↔
      (skipBlanks cs = '\x7d' :: rest ∧ fields = []) ∨
      ∃ inside key behind colonless value more others, nextKey first cs = .ok (some inside) ∧
        stringFrom inside = .ok (key, behind) ∧ colon behind = .ok colonless ∧
        writtenFrom fuel depth colonless = .ok (value, more) ∧
        writtenFields fuel depth false more = .ok (others, rest) ∧
        fields = (key, value) :: others := by
  rw [writtenFields]
  constructor
  · intro h
    obtain ⟨next, hnext, h⟩ := bind_eq_ok.mp h
    cases next with
    | none =>
      obtain ⟨left, hleft⟩ := nextKey_eq_none_iff.mp hnext
      cases h
      exact .inl ⟨by rw [hleft, List.tail_cons], rfl⟩
    | some inside =>
      obtain ⟨⟨key, behind⟩, hkey, h⟩ := bind_eq_ok.mp h
      obtain ⟨colonless, hcolon, h⟩ := bind_eq_ok.mp h
      obtain ⟨⟨value, more⟩, hvalue, h⟩ := bind_eq_ok.mp h
      obtain ⟨⟨others, left⟩, hothers, h⟩ := bind_eq_ok.mp h
      cases h
      exact .inr ⟨inside, key, behind, colonless, value, more, others, hnext, hkey, hcolon,
        hvalue, hothers, rfl⟩
  · rintro (⟨hend, rfl⟩ |
      ⟨inside, key, behind, colonless, value, more, others, hnext, hkey, hcolon, hvalue, hothers,
        rfl⟩)
    · refine bind_eq_ok.mpr ⟨none, nextKey_eq_none_iff.mpr ⟨rest, hend⟩, ?_⟩
      simp only [hend, List.tail_cons]
    · refine bind_eq_ok.mpr ⟨_, hnext, bind_eq_ok.mpr ⟨_, hkey, bind_eq_ok.mpr ⟨_, hcolon, ?_⟩⟩⟩
      exact bind_eq_ok.mpr ⟨_, hvalue, bind_eq_ok.mpr ⟨_, hothers, rfl⟩⟩

/-! ## Values -/

/-- **What stands at the start of a value that is written**, and what is left behind it if nothing
stands inside the value. -/
inductive Lexed (cs : List Char) : Json → List Char → Prop
  | null {more rest : List Char} (start : skipBlanks cs = 'n' :: more)
    (letters : word ['u', 'l', 'l'] more = .ok rest) : Lexed cs .null rest
  | yes {more rest : List Char} (start : skipBlanks cs = 't' :: more)
    (letters : word ['r', 'u', 'e'] more = .ok rest) : Lexed cs (.bool true) rest
  | no {more rest : List Char} (start : skipBlanks cs = 'f' :: more)
    (letters : word ['a', 'l', 's', 'e'] more = .ok rest) : Lexed cs (.bool false) rest
  | number {n : Number} {rest : List Char} : Lexed cs (.number n) rest
  | string {more rest : List Char} {s : String} (start : skipBlanks cs = '"' :: more)
    (chars : stringFrom more = .ok (s, rest)) : Lexed cs (.string s) rest
  | list {more rest : List Char} {items : List Json} (start : skipBlanks cs = '[' :: more) :
    Lexed cs (.array items) rest
  | mapping {more rest : List Char} {fields : List (String × Json)}
    (start : skipBlanks cs = '\x7b' :: more) : Lexed cs (.object fields) rest

theorem lexed_of_valueFrom {fuel depth : Nat} {cs rest : List Char} {v : Json}
    (h : valueFrom fuel depth cs = .ok (v, rest)) : Lexed cs v rest := by
  cases fuel with
  | zero => cases h
  | succ fuel =>
    rw [valueFrom] at h
    split at h
    · cases h
    · next more hstart =>
      obtain ⟨left, hword, heq⟩ := map_eq_ok.mp h
      cases heq
      exact .null hstart hword
    · next more hstart =>
      obtain ⟨left, hword, heq⟩ := map_eq_ok.mp h
      cases heq
      exact .yes hstart hword
    · next more hstart =>
      obtain ⟨left, hword, heq⟩ := map_eq_ok.mp h
      cases heq
      exact .no hstart hword
    · obtain ⟨r, -, heq⟩ := map_eq_ok.mp h
      cases heq
      exact .number
    · next more hstart =>
      obtain ⟨r, hchars, heq⟩ := map_eq_ok.mp h
      cases heq
      exact .string hstart hchars
    · next more hstart =>
      split at h
      · cases h
      · obtain ⟨r, -, heq⟩ := map_eq_ok.mp h
        cases heq
        exact .list hstart
    · next more hstart =>
      split at h
      · cases h
      · obtain ⟨r, -, heq⟩ := map_eq_ok.mp h
        cases heq
        exact .mapping hstart
    · split at h
      · obtain ⟨r, -, heq⟩ := map_eq_ok.mp h
        cases heq
        exact .number
      · cases h

theorem lexed_of_writtenFrom {fuel depth : Nat} {cs rest : List Char} {v : Json}
    (h : writtenFrom fuel depth cs = .ok (v, rest)) : Lexed cs v rest := by
  cases fuel with
  | zero => cases h
  | succ fuel =>
    rw [writtenFrom] at h
    split at h
    · next more hstart =>
      split at h
      · cases h
      · obtain ⟨r, -, heq⟩ := map_eq_ok.mp h
        cases heq
        exact .list hstart
    · next more hstart =>
      split at h
      · cases h
      · obtain ⟨r, -, heq⟩ := map_eq_ok.mp h
        cases heq
        exact .mapping hstart
    · exact lexed_of_valueFrom h

end Methodology.Json
