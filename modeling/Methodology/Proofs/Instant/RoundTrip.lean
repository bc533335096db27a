import Methodology.Instant.Reader
import Methodology.Proofs.Instant.Calendar
import Methodology.Proofs.Result
import Methodology.Proofs.Text.Digits
import Methodology.Proofs.Text.Trim

/-!
# Instants are read back

* `Instant.IsProper`: an instant whose leap second, if it is one, ends a minute.
* `Instant.HasPlainYear`: an instant whose year has four digits.
* `number_padded`, `dateFrom_date`, `clockFrom_clock`: the parts of the text.
* **`read_toText`**: the text of a proper instant with a plain year is read as that instant.
* **`isProper_of_read`**: an instant that is read is proper.
-/

namespace Methodology.Instant

open Text Calendar Result

/-- An instant that a clock can show: a leap second is counted on in the last second of a minute. -/
def IsProper (t : Instant) : Prop :=
  t.nanos < 1000000000 ∨ (t.nanos < 2000000000 ∧ t.seconds % 60 = 59)

/-- An instant whose year is written with four digits and no sign. -/
def HasPlainYear (t : Instant) : Prop := 0 ≤ t.date.year ∧ t.date.year ≤ 9999

instance (t : Instant) : Decidable t.IsProper := inferInstanceAs (Decidable (_ ∨ _))
instance (t : Instant) : Decidable t.HasPlainYear := inferInstanceAs (Decidable (_ ∧ _))

/-! ## Numbers -/

theorem number_map_digitChar {ds : List Nat} (h : ∀ d ∈ ds, d < 10) (soFar : Nat)
    (rest : List Char) : number soFar ds.length (ds.map Nat.digitChar ++ rest) =
      .ok (ds.foldl (fun n d => 10 * n + d) soFar, rest) := by
  induction ds generalizing soFar with
  | nil => rfl
  | cons d ds ih =>
    rw [List.map_cons, List.cons_append, List.length_cons, number,
      digitValue?_digitChar (h d List.mem_cons_self)]
    exact ih (fun e he => h e (List.mem_cons_of_mem d he)) _

theorem number_padded (width : Nat) {n : Nat} (hn : n < 10 ^ (width + 1)) (rest : List Char) :
    number 0 (width + 1) (padded (width + 1) (decimal n) ++ rest) = .ok (n, rest) := by
  have hlt : ∀ d ∈ places 10 (width + 1) n, d < 10 :=
    fun d hd => lt_of_mem_places (by decide) hd
  have h := number_map_digitChar hlt 0 rest
  rw [length_places, foldl_places, Nat.mod_eq_of_lt hn] at h
  rw [decimal, padded_toDigits (by decide) hn]
  exact h

theorem number_two {n : Nat} (hn : n < 100) (rest : List Char) :
    number 0 2 (two n ++ rest) = .ok (n, rest) := number_padded 1 hn rest

theorem isDigit_digitChar {d : Nat} (h : d < 10) : isDigit (Nat.digitChar d) = true := by
  rw [isDigit, digitValue?_digitChar h]
  rfl

theorem foldl_digitValue? {ds : List Nat} (h : ∀ d ∈ ds, d < 10) (soFar : Nat) :
    (ds.map Nat.digitChar).foldl (fun n c => 10 * n + (digitValue? c).getD 0) soFar =
      ds.foldl (fun n d => 10 * n + d) soFar := by
  induction ds generalizing soFar with
  | nil => rfl
  | cons d ds ih =>
    rw [List.map_cons, List.foldl_cons, List.foldl_cons,
      digitValue?_digitChar (h d List.mem_cons_self)]
    exact ih (fun e he => h e (List.mem_cons_of_mem d he)) _

/-- **The digits behind the point** count by their number. -/
theorem fractionFrom_padded (width : Nat) {n : Nat} (hn : n < 10 ^ (width + 1))
    (hw : width + 1 ≤ 9) :
    fractionFrom (padded (width + 1) (decimal n) ++ ['Z']) =
      .ok (n * 10 ^ (9 - (width + 1)), ['Z']) := by
  have hlt : ∀ d ∈ places 10 (width + 1) n, d < 10 :=
    fun d hd => lt_of_mem_places (by decide) hd
  have hdigits : ∀ c ∈ (places 10 (width + 1) n).map Nat.digitChar, isDigit c = true := by
    intro c hc
    obtain ⟨d, hd, rfl⟩ := List.mem_map.mp hc
    exact isDigit_digitChar (hlt d hd)
  have htake : ((places 10 (width + 1) n).map Nat.digitChar ++ ['Z']).takeWhile isDigit =
      (places 10 (width + 1) n).map Nat.digitChar := by
    rw [List.takeWhile_append_of_pos hdigits, List.takeWhile_cons_of_neg (by decide),
      List.append_nil]
  have hne : places 10 (width + 1) n ≠ [] := by
    rw [← List.length_pos_iff, length_places]
    exact Nat.succ_pos width
  rw [decimal, padded_toDigits (by decide) hn, fractionFrom, htake]
  rw [List.take_of_length_le (by simpa using hw), foldl_digitValue? hlt, foldl_places,
    Nat.mod_eq_of_lt hn]
  simp [hne, scaled]

/-! ## The parts of the text -/

theorem dateFrom_date {d : Date} {year : Nat} (hyear : d.year = year) (hlt : year < 10000)
    (hvalid : d.isValid = true) (hmonth : d.month < 100) (hday : d.day < 100) (rest : List Char) :
    dateFrom (yearText d.year ++ '-' :: (two d.month ++ '-' :: (two d.day ++ rest))) =
      .ok (d, rest) := by
  have htext : yearText d.year = padded 4 (decimal year) := by
    rw [hyear, yearText, if_pos (by omega), Int.toNat_natCast]
  have hd : (⟨(year : Int), d.month, d.day⟩ : Date) = d := by rw [← hyear]
  simp only [dateFrom, htext, number_padded 3 hlt, number_two hmonth, number_two hday,
    bind, Except.bind, mark, beq_self_eq_true, if_true, hd, hvalid]

theorem fractionText_cases {nanos : Nat} (h : nanos < 1000000000) :
    (fractionText nanos = [] ∧ nanos = 0) ∨ ∃ cs, fractionText nanos = '.' :: cs ∧
      fractionFrom (cs ++ ['Z']) = .ok (nanos, ['Z']) := by
  rw [fractionText]
  by_cases h₀ : nanos = 0
  · exact .inl ⟨if_pos h₀, h₀⟩
  right
  by_cases h₁ : nanos % 1000000 = 0
  · rw [if_neg h₀, if_pos h₁]
    refine ⟨_, rfl, ?_⟩
    rw [fractionFrom_padded 2 (by omega) (by decide)]
    congr 2
    omega
  by_cases h₂ : nanos % 1000 = 0
  · rw [if_neg h₀, if_neg h₁, if_pos h₂]
    refine ⟨_, rfl, ?_⟩
    rw [fractionFrom_padded 5 (by omega) (by decide)]
    congr 2
    omega
  · rw [if_neg h₀, if_neg h₁, if_neg h₂]
    refine ⟨_, rfl, ?_⟩
    rw [fractionFrom_padded 8 h (by decide)]
    congr 2
    omega

theorem clockFrom_clock {hour minute second nanos : Nat} (hh : hour < 24) (hm : minute < 60)
    (hs : second ≤ 60) (hn : nanos < 1000000000) :
    clockFrom (two hour ++ ':' :: (two minute ++ ':' :: (two second ++
      (fractionText nanos ++ ['Z'])))) = .ok (⟨hour, minute, second, nanos⟩, ['Z']) := by
  simp only [clockFrom, number_two (show hour < 100 by omega),
    number_two (show minute < 100 by omega), number_two (show second < 100 by omega), bind,
    Except.bind, mark, beq_self_eq_true, if_true]
  rcases fractionText_cases hn with ⟨htext, rfl⟩ | ⟨cs, htext, hread⟩
  · rw [htext]
    simp [pure, Except.pure, hh, hm, hs]
  · rw [htext]
    simp [hread, hh, hm, hs]

/-! ## The whole text -/

theorem toChars_eq (t : Instant) : t.toChars =
    yearText t.date.year ++ '-' :: (two t.date.month ++ '-' :: (two t.date.day ++ 'T' ::
      (two (t.secondOfDay / 3600) ++ ':' :: (two (t.secondOfDay / 60 % 60) ++ ':' ::
        (two (if t.nanos ≥ 1000000000 then t.secondOfDay % 60 + 1 else t.secondOfDay % 60) ++
          (fractionText (if t.nanos ≥ 1000000000 then t.nanos - 1000000000 else t.nanos) ++
            ['Z'])))))) := by
  simp only [toChars, List.append_assoc, List.cons_append]

theorem secondOfDay_lt (t : Instant) : t.secondOfDay < 86400 := by
  rw [secondOfDay]
  omega

theorem seconds_eq (t : Instant) :
    t.seconds = 86400 * (dayNumber t.date - epoch) + t.secondOfDay := by
  rw [date, dayNumber_ofDayNumber, secondOfDay]
  omega

theorem ofParts_toParts {t : Instant} (h : t.IsProper) :
    ofParts t.date ⟨t.secondOfDay / 3600, t.secondOfDay / 60 % 60,
      if t.nanos ≥ 1000000000 then t.secondOfDay % 60 + 1 else t.secondOfDay % 60,
      if t.nanos ≥ 1000000000 then t.nanos - 1000000000 else t.nanos⟩ 0 = t := by
  have hseconds := t.seconds_eq
  have hleap : t.nanos ≥ 1000000000 → t.secondOfDay % 60 = 59 := by
    intro hn
    rcases h with h | h
    · omega
    · rw [secondOfDay]
      omega
  obtain ⟨seconds, nanos⟩ := t
  simp only [ofParts, mk.injEq] at hseconds hleap ⊢
  split
  · next hn =>
    have hlast := hleap hn
    rw [if_pos (by omega)]
    constructor <;> omega
  · next hn =>
    rw [if_neg (by omega)]
    constructor <;> omega

theorem isBlank_of_mem_padded {width n : Nat} (hn : n < 10 ^ (width + 1)) {c : Char}
    (h : c ∈ padded (width + 1) (decimal n)) : isBlank c = false := by
  have hdigits : ∀ d < 10, isBlank (Nat.digitChar d) = false := by decide
  rw [decimal, padded_toDigits (by decide) hn] at h
  obtain ⟨d, hd, rfl⟩ := List.mem_map.mp h
  exact hdigits d (lt_of_mem_places (by decide) hd)

theorem year_lt {t : Instant} (h : t.HasPlainYear) : t.date.year.toNat < 10 ^ (3 + 1) := by
  have := h.2
  omega

theorem le_length_padded (width : Nat) (digits : List Char) :
    width ≤ (padded width digits).length := by
  rw [padded, List.length_append, List.length_replicate]
  omega

theorem four_le_length_yearText (year : Int) : 4 ≤ (yearText year).length := by
  rw [yearText]
  split
  · exact le_length_padded 4 _
  · have := le_length_padded 4 (decimal year.natAbs)
    rw [List.length_cons]
    omega

theorem isBlank_head_yearText {year : Int} {c : Char} (h : c ∈ (yearText year).head?) :
    isBlank c = false := by
  rw [yearText] at h
  split at h
  · next hplain =>
    have hne : padded 4 (decimal year.toNat) ≠ [] := by
      have := le_length_padded 4 (decimal year.toNat)
      exact List.length_pos_iff.mp (by omega)
    rw [Option.mem_def, List.head?_eq_some_head hne] at h
    exact isBlank_of_mem_padded (show year.toNat < 10 ^ (3 + 1) by omega)
      (Option.some.inj h ▸ List.head_mem hne)
  · obtain rfl : (if year < 0 then '-' else '+') = c := Option.some.inj h
    split <;> rfl

theorem nineteen_le_length_toChars (t : Instant) : 19 ≤ t.toChars.length := by
  have htwo : ∀ n, 2 ≤ (two n).length := fun n => le_length_padded 2 (decimal n)
  have hyear := four_le_length_yearText t.date.year
  have h₁ := htwo t.date.month
  have h₂ := htwo t.date.day
  have h₃ := htwo (t.secondOfDay / 3600)
  have h₄ := htwo (t.secondOfDay / 60 % 60)
  have h₅ := htwo (if t.nanos ≥ 1000000000 then t.secondOfDay % 60 + 1 else t.secondOfDay % 60)
  rw [toChars_eq]
  simp only [List.length_append, List.length_cons]
  omega

theorem not_byteSize_toChars_lt (t : Instant) : ¬ byteSize t.toChars < 19 := by
  have h₁ := length_le_byteSize t.toChars
  have h₂ := t.nineteen_le_length_toChars
  omega

theorem isBare_toChars (t : Instant) : IsBare t.toChars := by
  refine ⟨fun c hc => ?_, fun c hc => ?_⟩
  · -- the text starts with the year
    have hne : yearText t.date.year ≠ [] := by
      have := four_le_length_yearText t.date.year
      exact List.length_pos_iff.mp (by omega)
    rw [toChars_eq, List.head?_append, List.head?_eq_some_head hne, Option.some_or] at hc
    exact isBlank_head_yearText (List.head?_eq_some_head hne ▸ hc)
  · rw [toChars, List.getLast?_append] at hc
    obtain rfl : 'Z' = c := Option.some.inj hc
    rfl

theorem trimBlanks_toText (t : Instant) : trimBlanks t.toText.toList = t.toChars := by
  rw [toText, String.toList_ofList, trimBlanks_eq_self t.isBare_toChars]

theorem ofChars_toChars {t : Instant} (h : t.IsProper) (hyear : t.HasPlainYear) :
    ofChars t.toChars = .ok t := by
  have hday := t.secondOfDay_lt
  have hnanos : (if t.nanos ≥ 1000000000 then t.nanos - 1000000000 else t.nanos) < 1000000000 := by
    rcases h with h | h <;> split <;> omega
  have hsecond : (if t.nanos ≥ 1000000000 then t.secondOfDay % 60 + 1 else t.secondOfDay % 60) ≤
      60 := by
    split <;> omega
  have hcast : t.date.year = t.date.year.toNat := (Int.toNat_of_nonneg hyear.1).symm
  have hdate := dateFrom_date hcast (year_lt hyear) (isValid_ofDayNumber _)
    (month_ofDayNumber_lt _) (day_ofDayNumber_lt _)
  have hmark : ∀ rest, mark (fun c => c == 'T' || c == 't' || c == ' ') ('T' :: rest) = .ok rest :=
    fun _ => rfl
  have hhour : t.secondOfDay / 3600 < 24 := by omega
  have hminute : t.secondOfDay / 60 % 60 < 60 := by omega
  have hclock := clockFrom_clock hhour hminute hsecond hnanos
  have hoffset : offsetFrom ['Z'] = .ok (0, []) := rfl
  rw [ofChars, if_neg t.not_byteSize_toChars_lt, toChars_eq]
  simp only [hdate, bind, Except.bind, hmark, hclock, hoffset, ofParts_toParts h]
  rfl

/-- **The text of an instant is read as that instant.** -/
theorem read_toText {t : Instant} (h : t.IsProper) (hyear : t.HasPlainYear) :
    read t.toText = .ok t := by
  rw [read, trimBlanks_toText, ofChars_toChars h hyear]
  rfl

/-! ## What is read -/

theorem digitValue?_getD_lt (c : Char) : (digitValue? c).getD 0 < 10 := by
  rw [digitValue?]
  split
  · next h =>
    have hle : c.toNat ≤ '9'.toNat := h.2
    have : '9'.toNat = 57 := rfl
    have : '0'.toNat = 48 := rfl
    simp only [Option.getD_some]
    omega
  · decide

theorem foldl_digitValue?_lt (cs : List Char) {soFar bound : Nat} (h : soFar < bound) :
    cs.foldl (fun n c => 10 * n + (digitValue? c).getD 0) soFar < bound * 10 ^ cs.length := by
  induction cs generalizing soFar bound with
  | nil => simpa using h
  | cons c cs ih =>
    have hd := digitValue?_getD_lt c
    have hstep : 10 * soFar + (digitValue? c).getD 0 < bound * 10 := by omega
    rw [List.foldl_cons, List.length_cons, Nat.pow_succ', ← Nat.mul_assoc]
    exact ih hstep

theorem lt_of_fractionFrom {cs rest : List Char} {n : Nat} (h : fractionFrom cs = .ok (n, rest)) :
    n < 1000000000 := by
  simp only [fractionFrom] at h
  split at h
  · cases h
  split at h
  · cases h
  obtain ⟨rfl, -⟩ := Prod.mk.inj (Except.ok.inj h)
  generalize hkept : (cs.takeWhile isDigit).take 9 = kept
  have hlen : kept.length ≤ 9 := by
    rw [← hkept, List.length_take]
    omega
  have hlt := foldl_digitValue?_lt kept Nat.zero_lt_one
  rw [Nat.one_mul] at hlt
  rw [scaled]
  calc _ < 10 ^ kept.length * 10 ^ (9 - kept.length) :=
        Nat.mul_lt_mul_of_pos_right hlt (Nat.pow_pos (by decide))
    _ = 1000000000 := by rw [← Nat.pow_add, Nat.add_sub_cancel' hlen]

theorem fraction_lt_of_clockFrom {cs rest : List Char} {time : Clock}
    (h : clockFrom cs = .ok (time, rest)) : time.second ≤ 60 ∧ time.fraction < 1000000000 := by
  simp only [clockFrom, bind_eq_ok] at h
  obtain ⟨⟨hour, _⟩, -, _, -, ⟨minute, _⟩, -, _, -, ⟨second, cs⟩, -, h⟩ := h
  -- the fraction, read or left out, is all that is still open
  obtain ⟨fraction, rest', hlt, h⟩ : ∃ fraction rest', fraction < 1000000000 ∧
      (if hour < 24 ∧ minute < 60 ∧ second ≤ 60 then
        (.ok (⟨hour, minute, second, fraction⟩, rest') : Except Malformed (Clock × List Char))
      else .error .outOfRange) = .ok (time, rest) := by
    split at h
    · obtain ⟨⟨fraction, rest'⟩, hfraction, h⟩ := bind_eq_ok.mp h
      exact ⟨fraction, rest', lt_of_fractionFrom hfraction, h⟩
    · exact ⟨0, _, by decide, h⟩
  split at h
  · next hbounds =>
    cases h
    exact ⟨hbounds.2.2, hlt⟩
  · cases h

/-- **An instant that is read is proper.** A leap second is read as the end of its minute, and no
offset moves it inside of the minute. -/
theorem isProper_of_read {s : String} {t : Instant} (h : read s = .ok t) : t.IsProper := by
  rw [read, mapError_eq_ok, ofChars] at h
  split at h
  · cases h
  simp only [bind_eq_ok] at h
  obtain ⟨⟨date, _⟩, -, _, -, ⟨time, _⟩, htime, ⟨offset, _⟩, -, h⟩ := h
  obtain ⟨hsecond, hfraction⟩ := fraction_lt_of_clockFrom htime
  simp only at h
  split at h
  · cases h
  split at h
  · cases h
  cases h
  simp only [IsProper, ofParts]
  split
  · right
    omega
  · left
    omega

end Methodology.Instant
