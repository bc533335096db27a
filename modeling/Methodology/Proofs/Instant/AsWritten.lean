import Methodology.Proofs.Instant.RoundTrip

/-!
# Instants as they are written

A date-time holds a leap second in any second, and its text counts it on from there. In a second
that is not the last of its minute that is the text of an ordinary second, the next one.

* `Instant.IsHeld`: an instant that a date-time holds.
* `Instant.asWritten`: the instant that its text names; `toText_asWritten`: the texts are the same.
* `asWritten_eq_self_iff`: it is another one exactly for a leap second inside of a minute.
* **`read_toText_asWritten`**: the text is read as that instant.
-/

namespace Methodology.Instant

open Calendar

/-- An instant that a date-time holds: a leap second may be counted on in any second. -/
def IsHeld (t : Instant) : Prop := t.nanos < 2000000000

instance (t : Instant) : Decidable t.IsHeld := inferInstanceAs (Decidable (_ < _))

/-- **The instant that the text of an instant names.** A leap second inside of a minute is written
as the second behind it. -/
def asWritten (t : Instant) : Instant :=
  if 1000000000 ≤ t.nanos ∧ t.seconds % 60 ≠ 59 then ⟨t.seconds + 1, t.nanos - 1000000000⟩ else t

theorem IsProper.isHeld {t : Instant} (h : t.IsProper) : t.IsHeld := by
  rcases h with h | h
  · exact Nat.lt_trans h (by decide)
  · exact h.1

theorem asWritten_eq_self {t : Instant} (h : t.IsProper) : t.asWritten = t :=
  if_neg fun hin => by
    rcases h with h | h
    · omega
    · exact hin.2 h.2

/-! ## Leap seconds inside of a minute -/

section

variable {t : Instant}

theorem asWritten_cases (h : t.IsHeld) : t.IsProper ∧ t.asWritten = t ∨
    t.seconds % 60 ≠ 59 ∧ 1000000000 ≤ t.nanos ∧ t.nanos < 2000000000 ∧
      t.asWritten = ⟨t.seconds + 1, t.nanos - 1000000000⟩ := by
  by_cases hproper : t.IsProper
  · exact .inl ⟨hproper, asWritten_eq_self hproper⟩
  · obtain ⟨hnanos, hsecond⟩ := not_or.mp hproper
    have hin : 1000000000 ≤ t.nanos ∧ t.seconds % 60 ≠ 59 :=
      ⟨Nat.not_lt.mp hnanos, fun h₅₉ => hsecond ⟨h, h₅₉⟩⟩
    exact .inr ⟨hin.2, hin.1, h, if_pos hin⟩

theorem isProper_asWritten (h : t.IsHeld) : t.asWritten.IsProper := by
  rcases asWritten_cases h with ⟨hproper, heq⟩ | ⟨-, -, hlt, heq⟩
  · rwa [heq]
  · rw [heq]
    exact .inl (show t.nanos - 1000000000 < 1000000000 by omega)

theorem asWritten_eq_self_iff (h : t.IsHeld) : t.asWritten = t ↔ t.IsProper :=
  ⟨fun heq => heq ▸ isProper_asWritten h, asWritten_eq_self⟩

theorem date_asWritten (h : t.IsHeld) : t.asWritten.date = t.date := by
  rcases asWritten_cases h with ⟨-, heq⟩ | ⟨hsecond, -, -, heq⟩
  · rw [heq]
  · -- the next second is one of the same minute, so no midnight lies between
    have hday : (t.seconds + 1) / 86400 = t.seconds / 86400 := by omega
    rw [heq, date, date, hday]

theorem hasPlainYear_asWritten (h : t.IsHeld) : t.asWritten.HasPlainYear ↔ t.HasPlainYear := by
  rw [HasPlainYear, date_asWritten h, HasPlainYear]

theorem secondOfDay_succ (hsecond : t.seconds % 60 ≠ 59) (nanos : Nat) :
    secondOfDay ⟨t.seconds + 1, nanos⟩ = t.secondOfDay + 1 := by
  simp only [secondOfDay]
  omega

/-- **The two texts are the same.** -/
theorem toText_asWritten (h : t.IsHeld) : t.asWritten.toText = t.toText := by
  rcases asWritten_cases h with ⟨-, heq⟩ | ⟨hsecond, hle, hlt, heq⟩
  · rw [heq]
  have hdate : date ⟨t.seconds + 1, t.nanos - 1000000000⟩ = t.date := heq ▸ date_asWritten h
  have hminute : t.secondOfDay % 60 ≠ 59 := by
    rw [secondOfDay]
    omega
  have hhour : (t.secondOfDay + 1) / 3600 = t.secondOfDay / 3600 := by omega
  have hmin : (t.secondOfDay + 1) / 60 = t.secondOfDay / 60 := by omega
  have hsec : (t.secondOfDay + 1) % 60 = t.secondOfDay % 60 + 1 := by omega
  rw [heq, toText, toText, toChars_eq, toChars_eq, hdate, secondOfDay_succ hsecond, hhour, hmin,
    hsec, if_pos hle, if_pos hle, if_neg (show ¬ t.nanos - 1000000000 ≥ 1000000000 by omega),
    if_neg (show ¬ t.nanos - 1000000000 ≥ 1000000000 by omega)]

/-- **The text of an instant** that a date-time holds is read as the instant that it names. -/
theorem read_toText_asWritten (h : t.IsHeld) (hyear : t.HasPlainYear) :
    read t.toText = .ok t.asWritten := by
  rw [← toText_asWritten h]
  exact read_toText (isProper_asWritten h) ((hasPlainYear_asWritten h).mpr hyear)

end

end Methodology.Instant
