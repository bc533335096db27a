import Methodology.Proofs.Instant.RoundTrip

/-!
# Instants are read again

The offset of a text is taken off, which may carry an instant over the first or the last day of the
years that are written with four digits. What is written then is not read again.

* `read_toText_eq_error`: the text of an instant whose year has a sign is refused.
* **`read_toText_iff`**: the text of an instant is read as that instant exactly if its year is
  plain.
* `lt_of_number`, `dayNumber_of_dateFrom`: the numbers of a text, and the day of its date.
* **`year_of_read`**: no offset carries further than into the year next to the plain ones.
-/

namespace Methodology.Instant

open Text Calendar Result

/-! ## Years with a sign -/

theorem number_yearText {year : Int} (h : ¬ (0 ≤ year ∧ year ≤ 9999)) (rest : List Char) :
    number 0 4 (yearText year ++ rest) = .error .invalid := by
  rw [yearText, if_neg h]
  split <;> rfl

/-- **The text of an instant whose year has a sign** is refused. -/
theorem read_toText_eq_error {t : Instant} (h : ¬ t.HasPlainYear) :
    read t.toText = .error (.instant .updated t.toText Malformed.invalid.message) := by
  have hdate : ∀ rest, dateFrom (yearText t.date.year ++ rest) = .error .invalid := by
    intro rest
    rw [dateFrom, number_yearText h]
    rfl
  have hchars : ofChars t.toChars = .error .invalid := by
    rw [ofChars, if_neg t.not_byteSize_toChars_lt, toChars_eq, hdate]
    rfl
  rw [read, trimBlanks_toText, hchars]
  rfl

/-- **The text of an instant** is read as that instant exactly if its year is plain. -/
theorem read_toText_iff {t : Instant} (h : t.IsProper) :
    read t.toText = .ok t ↔ t.HasPlainYear := by
  refine ⟨fun hread => Decidable.byContradiction fun hyear => ?_, read_toText h⟩
  rw [read_toText_eq_error hyear] at hread
  cases hread

/-! ## How far an offset carries -/

theorem lt_of_number {soFar digits n : Nat} {cs rest : List Char}
    (h : number soFar digits cs = .ok (n, rest)) : n < (soFar + 1) * 10 ^ digits := by
  induction digits generalizing soFar cs with
  | zero =>
    cases h
    omega
  | succ digits ih =>
    cases cs with
    | nil => cases h
    | cons c cs =>
      rw [number] at h
      split at h
      · next d hd =>
        have hlt := digitValue?_getD_lt c
        rw [hd, Option.getD_some] at hlt
        calc n < (10 * soFar + d + 1) * 10 ^ digits := ih h
          _ ≤ (soFar + 1) * 10 * 10 ^ digits := Nat.mul_le_mul_right _ (by omega)
          _ = (soFar + 1) * 10 ^ (digits + 1) := by rw [Nat.mul_assoc, Nat.pow_succ']
      · cases h

theorem dayNumber_of_dateFrom {cs rest : List Char} {d : Date} (h : dateFrom cs = .ok (d, rest)) :
    -366 ≤ dayNumber d ∧ dayNumber d < 3652059 := by
  simp only [dateFrom, bind_eq_ok] at h
  obtain ⟨⟨year, _⟩, hyear, _, -, ⟨month, _⟩, -, _, -, ⟨day, _⟩, -, h⟩ := h
  simp only at h
  split at h
  · next hvalid =>
    cases h
    have hbounds := dayNumber_bounds hvalid
    have hlt := lt_of_number hyear
    simp only [daysBeforeYear] at hbounds
    omega
  · cases h

theorem seconds_of_clockFrom {cs rest : List Char} {time : Clock}
    (h : clockFrom cs = .ok (time, rest)) :
    3600 * time.hour + 60 * time.minute + min time.second 59 < 86400 := by
  simp only [clockFrom, bind_eq_ok] at h
  obtain ⟨⟨hour, _⟩, -, _, -, ⟨minute, _⟩, -, _, -, ⟨second, cs⟩, -, h⟩ := h
  have hbounds : ∀ fraction rest', (if hour < 24 ∧ minute < 60 ∧ second ≤ 60 then
      (.ok (⟨hour, minute, second, fraction⟩, rest') : Except Malformed (Clock × List Char))
      else .error .outOfRange) = .ok (time, rest) →
      3600 * time.hour + 60 * time.minute + min time.second 59 < 86400 := by
    intro fraction rest' h
    split at h
    · cases h
      simp only
      omega
    · cases h
  split at h
  · obtain ⟨⟨fraction, rest'⟩, -, h⟩ := bind_eq_ok.mp h
    exact hbounds _ _ h
  · exact hbounds _ _ h

theorem year_bounds {t : Instant} (h : -731 ≤ t.seconds / 86400 + epoch)
    (h' : t.seconds / 86400 + epoch < 3652424) : -1 ≤ t.date.year ∧ t.date.year ≤ 10000 := by
  have hyear := daysBeforeYear_yearOf (t.seconds / 86400 + epoch)
  simp only [daysBeforeYear] at hyear
  change -1 ≤ yearOf (t.seconds / 86400 + epoch) ∧ yearOf (t.seconds / 86400 + epoch) ≤ 10000
  omega

/-- **The year of an instant that is read** is plain, or it is the one before or the one behind the
plain years. -/
theorem year_of_read {s : String} {t : Instant} (h : read s = .ok t) :
    -1 ≤ t.date.year ∧ t.date.year ≤ 10000 := by
  rw [read, mapError_eq_ok, ofChars] at h
  split at h
  · cases h
  simp only [bind_eq_ok] at h
  obtain ⟨⟨date, _⟩, hdate, _, -, ⟨time, _⟩, htime, ⟨offset, _⟩, -, h⟩ := h
  have hday := dayNumber_of_dateFrom hdate
  have hseconds := seconds_of_clockFrom htime
  simp only at h hday hseconds
  split at h
  · cases h
  split at h
  · cases h
  next hoffset =>
  cases h
  have hepoch : epoch = 719162 := rfl
  apply year_bounds
  · simp only [ofParts]
    omega
  · simp only [ofParts]
    omega

end Methodology.Instant
