import Mathlib.Algebra.Group.Nat.Defs
import Mathlib.Data.List.Induction
import Methodology.Text.Basic

/-!
# Numbers and their digits

A number below `base ^ width` is spelled by `width` digits, which give the number back.

* `places`: the digits of a number, as many as asked for.
* **`foldl_places`**, **`places_foldl`**: the digits give the number back, and the number its digits.
* `padded_toDigits`: digits with leading zeros are those of `places`.
* `exists_of_mem_toDigits`, **`padded_decimal_injective`**: the text of a number has nothing but
  digits, and numbers with the same text are the same.
* `of_toNat_between`: characters of a range, checked one after the other.
* `hexValue?_eq_some_iff`, `mapM_hexValue?_map`: hexadecimal digits, which are read one by one.
-/

namespace Methodology.Text

/-- The last `width` digits of a number. -/
def places (base width n : Nat) : List Nat :=
  (List.range width).map fun i => n / base ^ (width - 1 - i) % base

@[simp] theorem length_places (base width n : Nat) : (places base width n).length = width := by
  simp [places]

theorem places_succ (base width n : Nat) :
    places base (width + 1) n = places base width (n / base) ++ [n % base] := by
  rw [places, List.range_succ, List.map_append, places]
  congr 1
  · refine List.map_congr_left fun i hi => ?_
    have hi : i < width := List.mem_range.mp hi
    rw [show width + 1 - 1 - i = (width - 1 - i) + 1 by omega, Nat.pow_succ, Nat.mul_comm,
      Nat.div_div_eq_div_mul]
  · simp

theorem lt_of_mem_places {base width n d : Nat} (hb : 0 < base) (h : d ∈ places base width n) :
    d < base := by
  obtain ⟨i, -, rfl⟩ := List.mem_map.mp h
  exact Nat.mod_lt _ hb

theorem foldl_places (base width n : Nat) :
    (places base width n).foldl (fun m d => base * m + d) 0 = n % base ^ width := by
  induction width generalizing n with
  | zero => simp [places, Nat.mod_one]
  | succ width ih =>
    rw [places_succ, List.foldl_append, ih, List.foldl_cons, List.foldl_nil, Nat.pow_succ',
      Nat.mod_mul]
    omega

theorem places_foldl {base : Nat} {ds : List Nat} (h : ∀ d ∈ ds, d < base) :
    places base ds.length (ds.foldl (fun m d => base * m + d) 0) = ds := by
  induction ds using List.reverseRecOn with
  | nil => rfl
  | append_singleton ds d ih =>
    have hd : d < base := h d (List.mem_append_right ds List.mem_cons_self)
    have hbase : 0 < base := Nat.zero_lt_of_lt hd
    rw [List.length_append, List.length_singleton, places_succ, List.foldl_append,
      List.foldl_cons, List.foldl_nil, Nat.mul_add_div hbase, Nat.div_eq_of_lt hd, Nat.add_zero,
      ih fun e he => h e (List.mem_append_left [d] he), Nat.mul_add_mod, Nat.mod_eq_of_lt hd]

theorem foldl_lt {base : Nat} {ds : List Nat} (h : ∀ d ∈ ds, d < base) :
    ds.foldl (fun m d => base * m + d) 0 < base ^ ds.length := by
  induction ds using List.reverseRecOn with
  | nil => exact Nat.one_pos
  | append_singleton ds d ih =>
    have hd : d < base := h d (List.mem_append_right ds List.mem_cons_self)
    have hfront := ih fun e he => h e (List.mem_append_left [d] he)
    rw [List.foldl_append, List.foldl_cons, List.foldl_nil, List.length_append,
      List.length_singleton, Nat.pow_succ]
    have hstep := Nat.mul_le_mul_left base (Nat.succ_le_of_lt hfront)
    rw [Nat.mul_succ, Nat.mul_comm base (base ^ ds.length)] at hstep
    omega

theorem places_zero (base width : Nat) : places base width 0 = List.replicate width 0 := by
  simp [places, List.map_const']

theorem padded_concat (width : Nat) (digits : List Char) (c : Char) :
    padded (width + 1) (digits ++ [c]) = padded width digits ++ [c] := by
  simp [padded]

theorem padded_toDigits {base : Nat} (hb : 1 < base) {width n : Nat} (hn : n < base ^ (width + 1)) :
    padded (width + 1) (Nat.toDigits base n) = (places base (width + 1) n).map Nat.digitChar := by
  induction width generalizing n with
  | zero =>
    rw [Nat.pow_one] at hn
    rw [Nat.toDigits_of_lt_base hn]
    simp [padded, places, Nat.mod_eq_of_lt hn]
  | succ width ih =>
    rw [places_succ, List.map_append, List.map_singleton]
    by_cases hlt : n < base
    · -- a single digit, with nothing but zeros in front
      rw [Nat.toDigits_of_lt_base hlt, Nat.div_eq_of_lt hlt, places_zero, List.map_replicate,
        Nat.mod_eq_of_lt hlt]
      rfl
    · have hle : base ≤ n := by omega
      have hdiv : n / base < base ^ (width + 1) :=
        Nat.div_lt_of_lt_mul (by rw [Nat.pow_succ'] at hn; exact hn)
      rw [Nat.toDigits_of_base_le hb hle, padded_concat, ih hdiv]

theorem exists_of_mem_toDigits {base : Nat} (hb : 1 < base) {n : Nat} {c : Char}
    (h : c ∈ Nat.toDigits base n) : ∃ d < base, c = Nat.digitChar d := by
  -- as many places as the number has units are more than its digits
  have hn : n < base ^ (n + 1) := Nat.lt_of_lt_of_le (Nat.lt_pow_self hb)
    (Nat.pow_le_pow_right (Nat.zero_lt_of_lt hb) (Nat.le_succ n))
  have hmem : c ∈ padded (n + 1) (Nat.toDigits base n) := List.mem_append_right _ h
  rw [padded_toDigits hb hn] at hmem
  obtain ⟨d, hd, rfl⟩ := List.mem_map.mp hmem
  exact ⟨d, lt_of_mem_places (Nat.zero_lt_of_lt hb) hd, rfl⟩

theorem exists_of_mem_padded {width n : Nat} {c : Char} (h : c ∈ padded width (decimal n)) :
    ∃ d < 10, c = Nat.digitChar d := by
  rcases List.mem_append.mp h with h | h
  · exact ⟨0, by decide, List.eq_of_mem_replicate h⟩
  · exact exists_of_mem_toDigits (by decide) h

/-- What can be checked of the characters of a range by their numbers, one after the other. -/
@[elab_as_elim]
theorem of_toNat_between {p : Char → Prop} (c : Char) {low high : Nat} (hlow : low ≤ c.toNat)
    (hhigh : c.toNat ≤ high) (hall : ∀ n < high + 1, low ≤ n → p (Char.ofNat n)) : p c := by
  have hc := hall c.toNat (Nat.lt_succ_of_le hhigh) hlow
  rwa [c.ofNat_toNat] at hc

theorem hexValue?_digitChar {d : Nat} (h : d < 16) : hexValue? (Nat.digitChar d) = some d := by
  have : ∀ d < 16, hexValue? (Nat.digitChar d) = some d := by decide
  exact this d h

theorem hexValue?_toUpper_digitChar {d : Nat} (h : d < 16) :
    hexValue? (Nat.digitChar d).toUpper = some d := by
  have : ∀ d < 16, hexValue? (Nat.digitChar d).toUpper = some d := by decide
  exact this d h

/-- **The hexadecimal digits** are the small ones and the capital ones. -/
theorem hexValue?_eq_some_iff {c : Char} {d : Nat} : hexValue? c = some d ↔
    d < 16 ∧ (c = Nat.digitChar d ∨ c = (Nat.digitChar d).toUpper) := by
  constructor
  · intro h
    rw [hexValue?] at h
    split at h
    · next hc =>
      cases h
      have hdigit : c.toNat - 48 < 16 ∧ c = Nat.digitChar (c.toNat - 48) :=
        of_toNat_between c hc.1 hc.2 (by decide)
      exact ⟨hdigit.1, .inl hdigit.2⟩
    split at h
    · next hc =>
      cases h
      have hsmall : c.toNat - 97 + 10 < 16 ∧ c = Nat.digitChar (c.toNat - 97 + 10) :=
        of_toNat_between c hc.1 hc.2 (by decide)
      exact ⟨hsmall.1, .inl hsmall.2⟩
    split at h
    · next hc =>
      cases h
      have hcapital : c.toNat - 65 + 10 < 16 ∧ c = (Nat.digitChar (c.toNat - 65 + 10)).toUpper :=
        of_toNat_between c hc.1 hc.2 (by decide)
      exact ⟨hcapital.1, .inr hcapital.2⟩
    · cases h
  · rintro ⟨hd, rfl | rfl⟩
    · exact hexValue?_digitChar hd
    · exact hexValue?_toUpper_digitChar hd

theorem digitValue?_digitChar {d : Nat} (h : d < 10) : digitValue? (Nat.digitChar d) = some d := by
  have : ∀ d < 10, digitValue? (Nat.digitChar d) = some d := by decide
  exact this d h

theorem ofDigitChars_padded (width n : Nat) :
    Nat.ofDigitChars 10 (padded width (decimal n)) 0 = n := by
  rw [padded, Nat.ofDigitChars_append, Nat.ofDigitChars_replicate_zero, Nat.mul_zero, decimal,
    Nat.ofDigitChars_ten_toDigits]

/-- **Numbers with the same digits are the same**, however many zeros are put in front. -/
theorem padded_decimal_injective {width m n : Nat}
    (h : padded width (decimal m) = padded width (decimal n)) : m = n := by
  rw [← ofDigitChars_padded width m, h, ofDigitChars_padded]

theorem mapM_hexValue?_map {f : Nat → Char} (hf : ∀ d < 16, hexValue? (f d) = some d)
    {ds : List Nat} (h : ∀ d ∈ ds, d < 16) : (ds.map f).mapM hexValue? = some ds := by
  induction ds with
  | nil => rfl
  | cons d ds ih =>
    rw [List.map_cons, List.mapM_cons, hf d (h d List.mem_cons_self),
      ih fun e he => h e (List.mem_cons_of_mem d he)]
    rfl

end Methodology.Text
