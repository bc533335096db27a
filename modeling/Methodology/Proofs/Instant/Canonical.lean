import Mathlib.Algebra.Order.Ring.Int
import Mathlib.Data.Prod.Lex
import Methodology.Proofs.Instant.Reread
import Methodology.Proofs.Instant.Spelling

/-!
# Instants are canonical

What is kept of a text is the instant alone: two texts, however they are spelled, give the same
instant exactly if they name the same second and the same nanoseconds, and the text of an instant
tells it apart from every other.

* `Calendar.daysCounted`: the days up to a date, counted year by year and month by month;
  `Calendar.dayNumber_eq_daysCounted`.
* `Local.seconds`, `Local.nanos`: **what a local time names**; `read_eq_ok_iff`.
* `yearText_append_inj`, `two_append_inj`: the parts of a text are told apart.
* `toText_injective`: **the text of an instant** tells it apart.
* **`read_canonical`**: all of it.
-/

namespace Methodology

/-! ## Days -/

namespace Calendar

attribute [ext] Date

/-- The days of a year. -/
def daysInYear (year : Int) : Nat := if isLeap year then 366 else 365

/-- **The days up to a date**: those of the years from the year 0 on, of the months before the month
and of the month before the day. -/
def daysCounted (year month day : Nat) : Nat :=
  ((List.range year).map fun y : Nat => daysInYear y).sum +
    ((List.range (month - 1)).map fun m => daysInMonth year (m + 1)).sum + (day - 1)

theorem daysInYear_eq (year : Int) :
    (daysInYear year : Int) = daysBeforeYear (year + 1) - daysBeforeYear year := by
  rw [← daysOfMonths_twelve, daysOfMonths_twelve_eq, daysInMonth_two, daysInYear]
  split <;> rfl

theorem sum_daysInYear (year : Nat) :
    (((List.range year).map fun y : Nat => daysInYear y).sum : Int) =
      daysBeforeYear year + 366 := by
  induction year with
  | zero => rfl
  | succ year ih =>
    have hyear := daysInYear_eq year
    rw [List.range_succ, List.map_append, List.sum_append, List.map_singleton, List.sum_singleton]
    push_cast at ih hyear ⊢
    omega

theorem sum_daysInMonth (year : Int) (months : Nat) :
    ((List.range months).map fun m => daysInMonth year (m + 1)).sum = daysOfMonths year months := by
  induction months with
  | zero => rfl
  | succ months ih =>
    rw [List.range_succ, List.map_append, List.sum_append, ih]
    rfl

/-- **The number of a day** is the count of the days before it, which starts with the year 0. -/
theorem dayNumber_eq_daysCounted {year month day : Nat} (h : 1 ≤ day) :
    dayNumber ⟨year, month, day⟩ = daysCounted year month day - 366 := by
  have hyears := sum_daysInYear year
  have hmonths := sum_daysInMonth year (month - 1)
  rw [dayNumber, daysCounted, daysBeforeMonth, hmonths]
  push_cast at hyears ⊢
  omega

end Calendar

namespace Instant

open Text Calendar Result

/-! ## What a local time names -/

namespace Local

/-- **The second of a local time**: the days since the start of 1970, and the time of the day less
the offset. A leap second belongs to the second before it. -/
def seconds (w : Local) : Int :=
  86400 * ((daysCounted w.year w.month w.day : Int) - daysCounted 1970 1 1) +
    3600 * w.hour + 60 * w.minute + min w.second 59 - 60 * w.zone.minutes

/-- **The nanoseconds of a local time**, which a leap second counts on. -/
def nanos (w : Local) : Nat := nanosOf w.fraction + if w.second = 60 then 1000000000 else 0

/-- What a local time names, as one value. -/
def pair (w : Local) : Int × Nat := (w.seconds, w.nanos)

theorem ofParts_eq {w : Local} (h : w.IsValid) :
    ofParts w.date w.clock w.zone.minutes = ⟨w.seconds, w.nanos⟩ := by
  have hdate := h.date
  simp only [Date.isValid, Bool.and_eq_true, decide_eq_true_eq] at hdate
  have hday : dayNumber w.date = daysCounted w.year w.month w.day - 366 :=
    dayNumber_eq_daysCounted hdate.1.2
  have hstart : dayNumber ⟨(1970 : Nat), 1, 1⟩ = daysCounted 1970 1 1 - 366 :=
    dayNumber_eq_daysCounted (Nat.le_refl 1)
  have hepoch : dayNumber ⟨(1970 : Nat), 1, 1⟩ = epoch := by decide
  rw [ofParts, hday, ← hepoch, hstart, seconds, nanos, clock]
  rw [Instant.mk.injEq]
  refine ⟨?_, rfl⟩
  dsimp only
  omega

end Local

/-- **An instant that is read** is the one that a local time names which the text spells. -/
theorem read_eq_ok_iff {s : String} {t : Instant} : read s = .ok t ↔
    ∃ w : Local, w.IsValid ∧ w.IsSpelling s ∧ t = ⟨w.seconds, w.nanos⟩ := by
  rw [read_eq_ofParts_iff]
  refine exists_congr fun w => and_congr_right fun hw => and_congr_right fun _ => ?_
  rw [Local.ofParts_eq hw, eq_comm]

/-! ## The text of an instant -/

theorem two_append_inj {m n : Nat} (hm : m < 100) (hn : n < 100) {cs ds : List Char}
    (h : two m ++ cs = two n ++ ds) : m = n ∧ cs = ds := by
  have hread := number_two hm cs
  rw [h, number_two hn ds] at hread
  obtain ⟨rfl, rfl⟩ := Prod.mk.inj (Except.ok.inj hread)
  exact ⟨rfl, rfl⟩

/-- The sign of a year, which a year of four digits does not have. -/
def yearSign (year : Int) : List Char :=
  if 0 ≤ year ∧ year ≤ 9999 then [] else [if year < 0 then '-' else '+']

theorem yearText_eq (year : Int) :
    yearText year = yearSign year ++ padded 4 (decimal year.natAbs) := by
  rw [yearText, yearSign]
  split
  · next h => rw [List.nil_append, show year.toNat = year.natAbs by omega]
  · rfl

theorem mem_yearSign {year : Int} : '-' ∈ yearSign year ↔ year < 0 := by
  rw [yearSign]
  split
  · next h => exact ⟨nofun, fun hneg => absurd h.1 (not_le.mpr hneg)⟩
  · split <;> simp [*]

theorem eq_of_natAbs_eq {y z : Int} (h : y.natAbs = z.natAbs) (hneg : y < 0 ↔ z < 0) : y = z := by
  omega

theorem isDigit_of_mem_padded {width n : Nat} {c : Char} (h : c ∈ padded width (decimal n)) :
    isDigit c = true := by
  obtain ⟨d, hd, rfl⟩ := exists_of_mem_padded h
  exact isDigit_digitChar hd

theorem padded_append_inj {width m n : Nat} {cs ds : List Char}
    (h : padded width (decimal m) ++ '-' :: cs = padded width (decimal n) ++ '-' :: ds) :
    m = n ∧ cs = ds := by
  have htake : ∀ n cs, (padded width (decimal n) ++ '-' :: cs).takeWhile isDigit =
      padded width (decimal n) := by
    intro n cs
    rw [List.takeWhile_append_of_pos fun c hc => isDigit_of_mem_padded hc,
      List.takeWhile_cons_of_neg (by decide), List.append_nil]
  obtain rfl := padded_decimal_injective ((htake m cs).symm.trans (h ▸ htake n ds))
  exact ⟨rfl, (List.cons.inj (List.append_cancel_left h)).2⟩

theorem yearSign_eq_of_append {y z : Int} {cs ds : List Char}
    (h : yearText y ++ cs = yearText z ++ ds) : yearSign y = yearSign z := by
  -- the sign is what stands in front of the first digit
  have htake : ∀ (year : Int) (cs : List Char),
      (yearText year ++ cs).takeWhile (fun c => !isDigit c) = yearSign year := by
    intro year cs
    have hsign : ∀ c ∈ yearSign year, (!isDigit c) = true := by
      intro c hc
      rw [yearSign] at hc
      split at hc
      · cases hc
      · rw [List.mem_singleton.mp hc]
        split <;> rfl
    have hne : padded 4 (decimal year.natAbs) ≠ [] := by
      have := le_length_padded 4 (decimal year.natAbs)
      exact List.length_pos_iff.mp (by omega)
    obtain ⟨c, rest, hc⟩ := List.exists_cons_of_ne_nil hne
    have hdigit : isDigit c = true :=
      isDigit_of_mem_padded (hc ▸ List.mem_cons_self : c ∈ padded 4 (decimal year.natAbs))
    rw [yearText_eq, List.append_assoc, List.takeWhile_append_of_pos hsign, hc, List.cons_append,
      List.takeWhile_cons_of_neg (by simp [hdigit]), List.append_nil]
  rw [← htake y cs, h, htake]

theorem yearText_append_inj {y z : Int} {cs ds : List Char}
    (h : yearText y ++ '-' :: cs = yearText z ++ '-' :: ds) : y = z ∧ cs = ds := by
  have hsign := yearSign_eq_of_append h
  rw [yearText_eq, yearText_eq, hsign, List.append_assoc, List.append_assoc] at h
  obtain ⟨hyear, rfl⟩ := padded_append_inj (List.append_cancel_left h)
  refine ⟨eq_of_natAbs_eq hyear ?_, rfl⟩
  -- the hyphen of a negative year is no other's sign
  rw [← mem_yearSign, hsign, mem_yearSign]

theorem clockFrom_toChars {t : Instant} (h : t.IsProper) :
    clockFrom (two (t.secondOfDay / 3600) ++ ':' :: (two (t.secondOfDay / 60 % 60) ++ ':' ::
      (two (if t.nanos ≥ 1000000000 then t.secondOfDay % 60 + 1 else t.secondOfDay % 60) ++
        (fractionText (if t.nanos ≥ 1000000000 then t.nanos - 1000000000 else t.nanos) ++
          ['Z'])))) = .ok (⟨t.secondOfDay / 3600, t.secondOfDay / 60 % 60,
      if t.nanos ≥ 1000000000 then t.secondOfDay % 60 + 1 else t.secondOfDay % 60,
      if t.nanos ≥ 1000000000 then t.nanos - 1000000000 else t.nanos⟩, ['Z']) := by
  have hday := t.secondOfDay_lt
  refine clockFrom_clock (by omega) (by omega) (by split <;> omega) ?_
  rcases h with h | h <;> split <;> omega

/-- **The text of an instant** tells it apart from every other. -/
theorem toText_injective {t u : Instant} (ht : t.IsProper) (hu : u.IsProper)
    (h : t.toText = u.toText) : t = u := by
  have hchars : t.toChars = u.toChars := by
    have hlist := congrArg String.toList h
    rwa [toText, toText, String.toList_ofList, String.toList_ofList] at hlist
  rw [toChars_eq, toChars_eq] at hchars
  obtain ⟨hyear, hchars⟩ := yearText_append_inj hchars
  obtain ⟨hmonth, hchars⟩ :=
    two_append_inj (month_ofDayNumber_lt _) (month_ofDayNumber_lt _) hchars
  obtain ⟨hday, hchars⟩ := two_append_inj (day_ofDayNumber_lt _) (day_ofDayNumber_lt _)
    (List.cons.inj hchars).2
  have hdate : t.date = u.date := Date.ext hyear hmonth hday
  -- what is left is the time of the day, which is read back
  have hclock := clockFrom_toChars ht
  rw [(List.cons.inj hchars).2, clockFrom_toChars hu] at hclock
  have htime := (Prod.mk.inj (Except.ok.inj hclock)).1
  rw [← ofParts_toParts ht, ← htime, hdate, ofParts_toParts hu]

/-! ## The order of instants -/

/-- **The second and the nanoseconds** of an instant, by which instants are ordered. -/
def pair (t : Instant) : Int × Nat := (t.seconds, t.nanos)

theorem pair_inj {t u : Instant} : t.pair = u.pair ↔ t = u := by
  cases t
  cases u
  rw [pair, pair, Prod.mk.injEq, mk.injEq]

theorem compare_eq_lt {t u : Instant} :
    t.compare u = .lt ↔ Prod.Lex (· < ·) (· < ·) t.pair u.pair := by
  rw [compare, Ordering.then_eq_lt, compare_lt_iff_lt, compare_eq_iff_eq, compare_lt_iff_lt,
    Prod.lex_def]
  rfl

theorem compare_swap (t u : Instant) : (t.compare u).swap = u.compare t := by
  rw [compare, Ordering.swap_then, ← Std.OrientedOrd.eq_swap, ← Std.OrientedOrd.eq_swap, compare]

theorem compare_eq_eq {t u : Instant} : t.compare u = .eq ↔ t.pair = u.pair := by
  rw [compare, Ordering.then_eq_eq, compare_eq_iff_eq, compare_eq_iff_eq, pair, pair,
    Prod.mk.injEq]

theorem compare_eq_gt {t u : Instant} :
    t.compare u = .gt ↔ Prod.Lex (· < ·) (· < ·) u.pair t.pair := by
  rw [← compare_eq_lt, ← compare_swap, Ordering.swap_eq_gt]

/-- **Instants are canonical.** A text that is read gives what the local time it spells names, the
second and the nanoseconds; and of two texts that spell a local time, in whatever way, the instants
are equal exactly if these are, exactly if the texts written back are, and have their order. -/
theorem read_canonical :
    (∀ s t, read s = .ok t ↔
      ∃ w : Local, w.IsValid ∧ w.IsSpelling s ∧ t = ⟨w.seconds, w.nanos⟩) ∧
    ∀ {s s' : String} {w w' : Local}, w.IsValid → w.IsSpelling s → w'.IsValid → w'.IsSpelling s' →
      ∃ t t', read s = .ok t ∧ read s' = .ok t' ∧
        (t = t' ↔ w.pair = w'.pair) ∧
        (w.pair = w'.pair ↔ t.toText = t'.toText) ∧
        (t.compare t' = .lt ↔ Prod.Lex (· < ·) (· < ·) w.pair w'.pair) ∧
        (t.compare t' = .eq ↔ w.pair = w'.pair) ∧
        (t.compare t' = .gt ↔ Prod.Lex (· < ·) (· < ·) w'.pair w.pair) := by
  refine ⟨fun _ _ => read_eq_ok_iff, ?_⟩
  intro s s' w w' hw hs hw' hs'
  have hread : read s = .ok ⟨w.seconds, w.nanos⟩ := read_eq_ok_iff.mpr ⟨w, hw, hs, rfl⟩
  have hread' : read s' = .ok ⟨w'.seconds, w'.nanos⟩ := read_eq_ok_iff.mpr ⟨w', hw', hs', rfl⟩
  have hpair : w.pair = w'.pair ↔ (⟨w.seconds, w.nanos⟩ : Instant) = ⟨w'.seconds, w'.nanos⟩ :=
    pair_inj (t := ⟨w.seconds, w.nanos⟩) (u := ⟨w'.seconds, w'.nanos⟩)
  refine ⟨_, _, hread, hread', hpair.symm, ?_, compare_eq_lt, compare_eq_eq, compare_eq_gt⟩
  rw [hpair]
  constructor
  · intro h
    rw [h]
  · exact toText_injective (isProper_of_read hread) (isProper_of_read hread')

/-- A leap second at the end of a year, and the same one an hour ahead, where it falls in the next
year. -/
theorem read_alike_leap_second :
    ∃ t t', read "2016-12-31T23:59:60.5Z" = .ok t ∧
      read " 2017-01-01t00:59:60.500+01:00 " = .ok t' ∧
      t = t' ∧ t.toText = t'.toText ∧ t.compare t' = .eq := by
  have hw : (⟨2016, 12, 31, 23, 59, 60, [5], .universal⟩ : Local).IsValid :=
    ⟨by decide, by decide, by decide, by decide, by decide, by decide, trivial⟩
  have hs : (⟨2016, 12, 31, 23, 59, 60, [5], .universal⟩ : Local).IsSpelling
      "2016-12-31T23:59:60.5Z" :=
    ⟨[], "2016-12-31T23:59:60.5Z".toList, [], by simp, nofun, nofun, 'T', _, .inl rfl, .capital,
      by decide +kernel⟩
  have hblank : ∀ c ∈ [' '], isBlank c = true := List.forall_mem_singleton.mpr rfl
  have hw' : (⟨2017, 1, 1, 0, 59, 60, [5, 0, 0], .ahead 1 0⟩ : Local).IsValid :=
    ⟨by decide, by decide, by decide, by decide, by decide, by decide, by decide, by decide⟩
  have hs' : (⟨2017, 1, 1, 0, 59, 60, [5, 0, 0], .ahead 1 0⟩ : Local).IsSpelling
      " 2017-01-01t00:59:60.500+01:00 " :=
    ⟨[' '], "2017-01-01t00:59:60.500+01:00".toList, [' '], by decide +kernel, hblank, hblank,
      't', _, .inr (.inl rfl), .plus 1 0, by decide +kernel⟩
  have hsame : (⟨2016, 12, 31, 23, 59, 60, [5], .universal⟩ : Local).pair =
      (⟨2017, 1, 1, 0, 59, 60, [5, 0, 0], .ahead 1 0⟩ : Local).pair := by decide +kernel
  obtain ⟨t, t', ht, ht', heq, htext, -, hcompare, -⟩ := read_canonical.2 hw hs hw' hs'
  exact ⟨t, t', ht, ht', heq.mpr hsame, htext.mp hsame, hcompare.mpr hsame⟩

end Instant

end Methodology
