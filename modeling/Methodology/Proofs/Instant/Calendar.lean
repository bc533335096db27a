import Methodology.Instant.Calendar

/-!
# Day numbers and dates

* `daysBeforeYear_yearOf`: a day lies in the year that is found for it.
* `monthFrom_spec`: the month and the day that are found are those of the calendar.
* `dayNumber_bounds`: the number of a date lies in its year.
* **`dayNumber_ofDayNumber`**, **`isValid_ofDayNumber`**: the date of a day number is a day of the
  calendar and has that number.
-/

namespace Methodology.Calendar

theorem daysBeforeYear_parts (cycle : Int) {century olympiad single : Int}
    (hc : 0 ≤ century ∧ century ≤ 3) (ho : 0 ≤ olympiad ∧ olympiad ≤ 24) (hs : 0 ≤ single ∧ single ≤ 3) :
    daysBeforeYear (400 * cycle + 100 * century + 4 * olympiad + single + 1) =
      146097 * cycle + 36524 * century + 1461 * olympiad + 365 * single := by
  simp only [daysBeforeYear]
  omega

theorem lt_daysBeforeYear_parts {cycle century olympiad single : Int}
    (hc : 0 ≤ century ∧ century ≤ 3) (ho : 0 ≤ olympiad ∧ olympiad ≤ 24)
    (hs : 0 ≤ single ∧ single ≤ 3) {n : Int} (hcycle : n < 146097 * cycle + 146097)
    (hcentury : century < 3 → n < 146097 * cycle + 36524 * century + 36524)
    (holympiad : n < 146097 * cycle + 36524 * century + 1461 * olympiad + 1461)
    (hsingle : single < 3 →
      n < 146097 * cycle + 36524 * century + 1461 * olympiad + 365 * single + 365) :
    n < daysBeforeYear (400 * cycle + 100 * century + 4 * olympiad + single + 1 + 1) := by
  have hfirst : (0 : Int) ≤ 0 ∧ (0 : Int) ≤ 3 := by decide
  by_cases h₁ : single < 3
  · have hs' : 0 ≤ single + 1 ∧ single + 1 ≤ 3 := by omega
    have h := daysBeforeYear_parts cycle hc ho hs'
    rw [← Int.add_assoc] at h
    have := hsingle h₁
    omega
  by_cases h₂ : olympiad < 24
  · have ho' : 0 ≤ olympiad + 1 ∧ olympiad + 1 ≤ 24 := by omega
    have h := daysBeforeYear_parts cycle hc ho' hfirst
    rw [show 400 * cycle + 100 * century + 4 * olympiad + single + 1 + 1 =
      400 * cycle + 100 * century + 4 * (olympiad + 1) + 0 + 1 by omega]
    omega
  by_cases h₃ : century < 3
  · have hc' : 0 ≤ century + 1 ∧ century + 1 ≤ 3 := by omega
    have h := daysBeforeYear_parts cycle hc' ⟨Int.le_refl 0, by decide⟩ hfirst
    rw [show 400 * cycle + 100 * century + 4 * olympiad + single + 1 + 1 =
      400 * cycle + 100 * (century + 1) + 4 * 0 + 0 + 1 by omega]
    have := hcentury h₃
    omega
  · have h := daysBeforeYear_parts (cycle + 1) hfirst ⟨Int.le_refl 0, by decide⟩ hfirst
    rw [show 400 * cycle + 100 * century + 4 * olympiad + single + 1 + 1 =
      400 * (cycle + 1) + 100 * 0 + 4 * 0 + 0 + 1 by omega]
    calc n < 146097 * cycle + 146097 := hcycle
      _ = _ := by omega

/-- **A day lies in the year that is found for it.** -/
theorem daysBeforeYear_yearOf (n : Int) :
    daysBeforeYear (yearOf n) ≤ n ∧ n < daysBeforeYear (yearOf n + 1) := by
  simp only [yearOf]
  generalize hcycle : n / 146097 = cycle
  generalize hcentury : min (n % 146097 / 36524) 3 = century
  generalize holympiad : (n % 146097 - 36524 * century) / 1461 = olympiad
  generalize hsingle : min ((n % 146097 - 36524 * century) % 1461 / 365) 3 = single
  have hc : 0 ≤ century ∧ century ≤ 3 := by omega
  have ho : 0 ≤ olympiad ∧ olympiad ≤ 24 := by omega
  have hs : 0 ≤ single ∧ single ≤ 3 := by omega
  constructor
  · rw [daysBeforeYear_parts cycle hc ho hs]
    omega
  · exact lt_daysBeforeYear_parts hc ho hs (by omega) (by omega) (by omega) (by omega)

theorem daysInMonth_two (year : Int) : daysInMonth year 2 = if isLeap year then 29 else 28 := rfl

theorem daysOfMonths_twelve_eq (year : Int) :
    daysOfMonths year 12 = 337 + daysInMonth year 2 := by
  simp [daysOfMonths, daysInMonth]
  omega

theorem daysOfMonths_twelve (year : Int) :
    (daysOfMonths year 12 : Int) = daysBeforeYear (year + 1) - daysBeforeYear year := by
  rw [daysOfMonths_twelve_eq, daysInMonth_two]
  by_cases h : isLeap year
  · rw [if_pos h]
    simp only [isLeap, Bool.or_eq_true, Bool.and_eq_true, beq_iff_eq, bne_iff_ne] at h
    simp only [daysBeforeYear]
    omega
  · rw [if_neg h]
    simp only [isLeap, Bool.or_eq_true, Bool.and_eq_true, beq_iff_eq, bne_iff_ne] at h
    simp only [daysBeforeYear]
    omega

theorem daysBeforeMonth_succ (year : Int) {month : Nat} (h : 1 ≤ month) :
    daysBeforeMonth year (month + 1) = daysBeforeMonth year month + daysInMonth year month := by
  obtain ⟨m, rfl⟩ : ∃ m, month = m + 1 := ⟨month - 1, by omega⟩
  rfl

/-- **The month that is found** lies among those tried, and the day in the month. -/
theorem monthFrom_spec (year : Int) {month rest more : Nat} (hm : 1 ≤ month)
    (h : daysBeforeMonth year month + rest < daysBeforeMonth year (month + more + 1)) :
    let found := monthFrom year month rest more
    1 ≤ found.1 ∧ found.1 ≤ month + more ∧ 1 ≤ found.2 ∧ found.2 ≤ daysInMonth year found.1 ∧
      daysBeforeMonth year found.1 + found.2 = daysBeforeMonth year month + rest + 1 := by
  induction more generalizing month rest with
  | zero =>
    have hnext := daysBeforeMonth_succ year hm
    rw [Nat.add_zero] at h
    simp only [monthFrom]
    omega
  | succ more ih =>
    have hnext := daysBeforeMonth_succ year hm
    rw [monthFrom]
    split
    · next hlt =>
      simp only
      omega
    · next hge =>
      have hlt : daysBeforeMonth year (month + 1) + (rest - daysInMonth year month) <
          daysBeforeMonth year (month + 1 + more + 1) := by
        rw [show month + 1 + more + 1 = month + (more + 1) + 1 by omega]
        omega
      have hrest := ih (by omega) hlt
      simp only at hrest ⊢
      omega

theorem dayOfYear_lt (n : Int) :
    (n - daysBeforeYear (yearOf n)).toNat < daysBeforeMonth (yearOf n) 13 := by
  have hyear := daysBeforeYear_yearOf n
  have hdays := daysOfMonths_twelve (yearOf n)
  change (n - daysBeforeYear (yearOf n)).toNat < daysOfMonths (yearOf n) 12
  omega

theorem monthFrom_yearOf (n : Int) :
    let found := monthFrom (yearOf n) 1 (n - daysBeforeYear (yearOf n)).toNat 11
    1 ≤ found.1 ∧ found.1 ≤ 12 ∧ 1 ≤ found.2 ∧ found.2 ≤ daysInMonth (yearOf n) found.1 ∧
      daysBeforeMonth (yearOf n) found.1 + found.2 =
        (n - daysBeforeYear (yearOf n)).toNat + 1 := by
  have hlt : daysBeforeMonth (yearOf n) 1 + (n - daysBeforeYear (yearOf n)).toNat <
      daysBeforeMonth (yearOf n) (1 + 11 + 1) := by
    rw [show daysBeforeMonth (yearOf n) 1 = 0 from rfl, Nat.zero_add]
    exact dayOfYear_lt n
  have h := monthFrom_spec (yearOf n) (Nat.le_refl 1) hlt
  rw [show daysBeforeMonth (yearOf n) 1 = 0 from rfl, Nat.zero_add] at h
  exact h

/-- **The date of a day number has that number.** -/
theorem dayNumber_ofDayNumber (n : Int) : dayNumber (Date.ofDayNumber n) = n := by
  obtain ⟨-, -, -, -, hsum⟩ := monthFrom_yearOf n
  have hyear := daysBeforeYear_yearOf n
  simp only [dayNumber, Date.ofDayNumber]
  omega

theorem isValid_ofDayNumber (n : Int) : (Date.ofDayNumber n).isValid = true := by
  obtain ⟨h₁, h₂, h₃, h₄, -⟩ := monthFrom_yearOf n
  simp only [Date.isValid, Bool.and_eq_true, decide_eq_true_eq]
  exact ⟨⟨⟨h₁, h₂⟩, h₃⟩, h₄⟩

theorem month_ofDayNumber_lt (n : Int) : (Date.ofDayNumber n).month < 100 := by
  obtain ⟨-, h, -⟩ := monthFrom_yearOf n
  simp only [Date.ofDayNumber]
  omega

theorem daysInMonth_le (year : Int) (month : Nat) : daysInMonth year month ≤ 31 := by
  unfold daysInMonth
  repeat' split
  all_goals omega

theorem day_ofDayNumber_lt (n : Int) : (Date.ofDayNumber n).day < 100 := by
  obtain ⟨-, -, -, h, -⟩ := monthFrom_yearOf n
  have := daysInMonth_le (yearOf n) (monthFrom (yearOf n) 1 (n - daysBeforeYear (yearOf n)).toNat 11).1
  simp only [Date.ofDayNumber]
  omega

theorem daysOfMonths_mono (year : Int) {m n : Nat} (h : m ≤ n) :
    daysOfMonths year m ≤ daysOfMonths year n := by
  induction n with
  | zero => exact Nat.le_of_eq (congrArg _ (Nat.le_zero.mp h))
  | succ n ih =>
    rcases Nat.le_succ_iff.mp h with h | rfl
    · exact Nat.le_trans (ih h) (Nat.le_add_right _ _)
    · exact Nat.le_refl _

theorem dayNumber_bounds {d : Date} (h : d.isValid = true) :
    daysBeforeYear d.year ≤ dayNumber d ∧ dayNumber d < daysBeforeYear (d.year + 1) := by
  simp only [Date.isValid, Bool.and_eq_true, decide_eq_true_eq] at h
  obtain ⟨⟨⟨hmonth, hmonths⟩, hday⟩, hdays⟩ := h
  have hnext := daysBeforeMonth_succ d.year hmonth
  have hmono : daysBeforeMonth d.year (d.month + 1) ≤ daysOfMonths d.year 12 :=
    daysOfMonths_mono d.year hmonths
  have hyear := daysOfMonths_twelve d.year
  rw [dayNumber]
  omega

end Methodology.Calendar
