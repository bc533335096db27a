import Methodology.Proofs.Instant.RoundTrip

/-!
# The spellings of an instant

What names an instant is said without a reader: a local date and time, digit by digit, and the
offset of that place from universal time.

* `Zone`, `Local`: an offset, and **a local time** as it is written; `Local.IsValid`.
* `Zone.Spells`, `Local.Spells`, `Local.IsSpelling`: their texts, with blanks at the ends or not.
* `nanosOf`: the nanoseconds that the digits behind a point stand for.
* `number_eq_ok_iff`, `fractionFrom_eq_ok`, `offsetFrom_eq_ok_iff`: what the steps of the reader take.
* `ofChars_eq_ok_iff`: the reader takes the spellings and nothing else.
* **`read_eq_ofParts_iff`**: so does the reader of a field.
-/

namespace Methodology.Instant

open Text Calendar Result

/-! ## Spellings -/

/-- The offset of a place: none, or so many hours and minutes ahead of universal time or behind it.
-/
inductive Zone
  | universal
  | ahead (hours minutes : Nat)
  | behind (hours minutes : Nat)
  deriving DecidableEq, Repr

namespace Zone

/-- An offset of less than a day. -/
def IsValid : Zone → Prop
  | universal => True
  | ahead hours minutes => hours ≤ 23 ∧ minutes ≤ 59
  | behind hours minutes => hours ≤ 23 ∧ minutes ≤ 59

/-- An offset of two digits each, which may be of a day and more. -/
def IsRead : Zone → Prop
  | universal => True
  | ahead hours minutes => hours < 100 ∧ minutes < 60
  | behind hours minutes => hours < 100 ∧ minutes < 60

/-- The minutes by which a place is ahead of universal time. -/
def minutes : Zone → Int
  | universal => 0
  | ahead hours minutes => 60 * hours + minutes
  | behind hours minutes => -(60 * hours + minutes)

/-- An hour and a minute with a colon between them. -/
def pair (hours minutes : Nat) : List Char := two hours ++ ':' :: two minutes

/-- **The texts of an offset.** The sign in front of a place that is behind may be a hyphen or the
sign for a subtraction. -/
inductive Spells : Zone → List Char → Prop
  | capital : Spells universal ['Z']
  | small : Spells universal ['z']
  | plus (hours minutes : Nat) : Spells (ahead hours minutes) ('+' :: pair hours minutes)
  | hyphen (hours minutes : Nat) : Spells (behind hours minutes) ('-' :: pair hours minutes)
  | minus (hours minutes : Nat) : Spells (behind hours minutes) ('\u2212' :: pair hours minutes)

end Zone

/-- **A local time** as it is written: the numbers of its date and its clock, the digits behind the
point, and the offset of the place. -/
structure Local where
  year : Nat
  month : Nat
  day : Nat
  hour : Nat
  minute : Nat
  second : Nat
  fraction : List Nat
  zone : Zone
  deriving DecidableEq, Repr

namespace Local

/-- The date of a local time. -/
def date (w : Local) : Date := ⟨w.year, w.month, w.day⟩

/-- A local time that there is: its date is one of the calendar, and any minute may have a second
more. -/
structure IsValid (w : Local) : Prop where
  year : w.year ≤ 9999
  date : w.date.isValid = true
  hour : w.hour ≤ 23
  minute : w.minute ≤ 59
  second : w.second ≤ 60
  fraction : ∀ d ∈ w.fraction, d < 10
  zone : w.zone.IsValid

/-- The digits behind a point, or nothing. -/
def fractionChars : List Nat → List Char
  | [] => []
  | d :: ds => '.' :: (d :: ds).map Nat.digitChar

/-- **The texts of a local time**, with one of three marks between the date and the clock. -/
def Spells (w : Local) (cs : List Char) : Prop :=
  ∃ mark zone, (mark = 'T' ∨ mark = 't' ∨ mark = ' ') ∧ w.zone.Spells zone ∧
    cs = padded 4 (decimal w.year) ++ '-' :: (two w.month ++ '-' :: (two w.day ++ mark ::
      (two w.hour ++ ':' :: (two w.minute ++ ':' :: (two w.second ++
        (fractionChars w.fraction ++ zone))))))

/-- A text that spells a local time between blanks. -/
def IsSpelling (w : Local) (s : String) : Prop :=
  ∃ before cs behind, s.toList = before ++ cs ++ behind ∧ (∀ c ∈ before, isBlank c) ∧
    (∀ c ∈ behind, isBlank c) ∧ w.Spells cs

end Local

/-- **The nanoseconds of a fraction**: its first nine digits, with zeros behind them where there are
fewer. -/
def nanosOf (digits : List Nat) : Nat :=
  ((digits ++ List.replicate 9 0).take 9).foldl (fun n d => 10 * n + d) 0

/-! ## Numbers -/

theorem eq_digitChar_of_digitValue? {c : Char} {d : Nat} (h : digitValue? c = some d) :
    d < 10 ∧ c = Nat.digitChar d := by
  rw [digitValue?] at h
  split at h
  · next hc =>
    cases h
    exact of_toNat_between c hc.1 hc.2 (by decide)
  · cases h

theorem exists_digits_of_number {soFar count n : Nat} {cs rest : List Char}
    (h : number soFar count cs = .ok (n, rest)) :
    ∃ ds : List Nat, ds.length = count ∧ (∀ d ∈ ds, d < 10) ∧ cs = ds.map Nat.digitChar ++ rest ∧
      n = ds.foldl (fun n d => 10 * n + d) soFar := by
  induction count generalizing soFar cs with
  | zero =>
    cases h
    exact ⟨[], rfl, List.forall_mem_nil _, rfl, rfl⟩
  | succ count ih =>
    cases cs with
    | nil => cases h
    | cons c cs =>
      rw [number] at h
      split at h
      · next d hd =>
        obtain ⟨ds, rfl, hlt, rfl, rfl⟩ := ih h
        obtain ⟨hten, rfl⟩ := eq_digitChar_of_digitValue? hd
        exact ⟨d :: ds, rfl, List.forall_mem_cons.mpr ⟨hten, hlt⟩, rfl, rfl⟩
      · cases h

theorem number_eq_ok_iff {width n : Nat} {cs rest : List Char} :
    number 0 (width + 1) cs = .ok (n, rest) ↔
      n < 10 ^ (width + 1) ∧ cs = padded (width + 1) (decimal n) ++ rest := by
  constructor
  · intro h
    obtain ⟨ds, hlen, hlt, rfl, rfl⟩ := exists_digits_of_number h
    have hbound := foldl_lt hlt
    have hplaces := places_foldl hlt
    rw [hlen] at hbound hplaces
    exact ⟨hbound, by rw [decimal, padded_toDigits (by decide) hbound, hplaces]⟩
  · rintro ⟨hn, rfl⟩
    exact number_padded width hn rest

theorem number_two_eq_ok_iff {n : Nat} {cs rest : List Char} :
    number 0 2 cs = .ok (n, rest) ↔ n < 100 ∧ cs = two n ++ rest := number_eq_ok_iff

theorem mark_eq_ok_iff {allowed : Char → Bool} {cs rest : List Char} :
    mark allowed cs = .ok rest ↔ ∃ c, allowed c = true ∧ cs = c :: rest := by
  cases cs with
  | nil => exact ⟨fun h => (nomatch h), fun ⟨_, _, h⟩ => (nomatch h)⟩
  | cons c cs =>
    rw [mark]
    constructor
    · intro h
      split at h
      · next hc =>
        cases h
        exact ⟨c, hc, rfl⟩
      · cases h
    · rintro ⟨_, hc, heq⟩
      cases heq
      rw [if_pos hc]

theorem mark_beq_eq_ok_iff {m : Char} {cs rest : List Char} :
    mark (· == m) cs = .ok rest ↔ cs = m :: rest := by
  simp [mark_eq_ok_iff]

/-! ## Fractions -/

theorem foldl_replicate_zero (k n : Nat) :
    (List.replicate k 0).foldl (fun n d => 10 * n + d) n = n * 10 ^ k := by
  induction k generalizing n with
  | zero => simp
  | succ k ih =>
    rw [List.replicate_succ, List.foldl_cons, ih, Nat.pow_succ', Nat.add_zero, Nat.mul_comm 10 n,
      Nat.mul_assoc]

theorem nanosOf_eq_scaled (ds : List Nat) :
    nanosOf ds = scaled ((ds.take 9).foldl (fun n d => 10 * n + d) 0) (ds.take 9).length := by
  have htake : (ds ++ List.replicate 9 0).take 9 =
      ds.take 9 ++ List.replicate (9 - ds.length) 0 := by
    rw [List.take_append, List.take_replicate, Nat.min_eq_left (Nat.sub_le 9 _)]
  have hlen : 9 - (ds.take 9).length = 9 - ds.length := by
    rw [List.length_take]
    omega
  rw [nanosOf, htake, List.foldl_append, foldl_replicate_zero, scaled, hlen]
  rfl

/-- A text that starts with no digit. -/
def StartsOther (cs : List Char) : Prop := ∀ c ∈ cs.head?, isDigit c = false

theorem takeWhile_isDigit {ds : List Nat} (h : ∀ d ∈ ds, d < 10) {rest : List Char}
    (hrest : StartsOther rest) :
    (ds.map Nat.digitChar ++ rest).takeWhile isDigit = ds.map Nat.digitChar := by
  have hdigits : ∀ c ∈ ds.map Nat.digitChar, isDigit c = true := by
    intro c hc
    obtain ⟨d, hd, rfl⟩ := List.mem_map.mp hc
    exact isDigit_digitChar (h d hd)
  rw [List.takeWhile_append_of_pos hdigits]
  cases rest with
  | nil => rw [List.takeWhile_nil, List.append_nil]
  | cons c rest =>
    rw [List.takeWhile_cons_of_neg (by simp [hrest c rfl]), List.append_nil]

theorem fractionFrom_digits {ds : List Nat} (hne : ds ≠ []) (h : ∀ d ∈ ds, d < 10)
    {rest : List Char} (hrest : StartsOther rest) :
    fractionFrom (ds.map Nat.digitChar ++ rest) = .ok (nanosOf ds, rest) := by
  have hvalue : ((ds.map Nat.digitChar).take 9).foldl
      (fun n c => 10 * n + (digitValue? c).getD 0) 0 =
        (ds.take 9).foldl (fun n d => 10 * n + d) 0 := by
    rw [← List.map_take]
    exact foldl_digitValue? (fun d hd => h d (List.mem_of_mem_take hd)) 0
  rw [fractionFrom, takeWhile_isDigit h hrest, hvalue, nanosOf_eq_scaled]
  simp [hne]

theorem exists_digits_of_isDigit {cs : List Char} (h : ∀ c ∈ cs, isDigit c = true) :
    ∃ ds : List Nat, (∀ d ∈ ds, d < 10) ∧ cs = ds.map Nat.digitChar := by
  induction cs with
  | nil => exact ⟨[], List.forall_mem_nil _, rfl⟩
  | cons c cs ih =>
    obtain ⟨hc, hcs⟩ := List.forall_mem_cons.mp h
    obtain ⟨d, hd⟩ := Option.isSome_iff_exists.mp hc
    obtain ⟨hten, rfl⟩ := eq_digitChar_of_digitValue? hd
    obtain ⟨ds, hlt, rfl⟩ := ih hcs
    exact ⟨d :: ds, List.forall_mem_cons.mpr ⟨hten, hlt⟩, rfl⟩

/-- **What is read behind the point** is a row of digits, up to the first character that is none. -/
theorem fractionFrom_eq_ok {cs rest : List Char} {n : Nat} (h : fractionFrom cs = .ok (n, rest)) :
    ∃ ds : List Nat, ds ≠ [] ∧ (∀ d ∈ ds, d < 10) ∧ cs = ds.map Nat.digitChar ++ rest ∧
      n = nanosOf ds := by
  have hdigits : ∀ c ∈ cs.takeWhile isDigit, isDigit c = true :=
    fun c hc => List.all_eq_true.mp List.all_takeWhile c hc
  obtain ⟨ds, hlt, hds⟩ := exists_digits_of_isDigit hdigits
  have hsplit : cs = ds.map Nat.digitChar ++ cs.dropWhile isDigit := by
    rw [← hds, List.takeWhile_append_dropWhile]
  have hne : ds ≠ [] := by
    rintro rfl
    simp only [fractionFrom, hds] at h
    split at h
    · cases h
    · cases h
  have hrest : StartsOther (cs.dropWhile isDigit) := by
    intro c hc
    have hhead := List.head?_dropWhile_not isDigit cs
    rw [Option.mem_def.mp hc] at hhead
    simpa using hhead
  rw [hsplit, fractionFrom_digits hne hlt hrest] at h
  obtain ⟨rfl, hend⟩ := Prod.mk.inj (Except.ok.inj h)
  exact ⟨ds, hne, hlt, hend ▸ hsplit, rfl⟩

/-! ## Offsets -/

theorem Zone.Spells.startsOther {z : Zone} {cs : List Char} (h : z.Spells cs) : StartsOther cs := by
  cases h <;> exact fun c hc => Option.some.inj hc ▸ rfl

theorem Zone.Spells.head_ne_point {z : Zone} {cs rest : List Char} (h : z.Spells cs) :
    cs ≠ '.' :: rest := by
  cases h <;> simp

theorem pairFrom_eq_ok_iff {n : Nat} {cs rest : List Char} :
    pairFrom cs = .ok (n, rest) ↔ n < 100 ∧ cs = two n ++ rest := by
  rw [pairFrom]
  constructor
  · intro h
    split at h
    · cases h
    · exact number_two_eq_ok_iff.mp h
  · rintro ⟨hn, rfl⟩
    have hlen := length_le_byteSize (two n ++ rest)
    have htwo := le_length_padded 2 (decimal n)
    rw [List.length_append] at hlen
    rw [if_neg (by rw [two] at hlen ⊢; omega)]
    exact number_two hn rest

/-- Reading an hour and a minute behind a sign. -/
def signed (sign : Int) (cs : List Char) : Except Malformed (Int × List Char) := do
  let (hours, cs) ← pairFrom cs
  let cs ← if cs.isEmpty then .error .tooShort else mark (· == ':') cs
  let (minutes, cs) ← pairFrom cs
  if minutes < 60 then .ok (sign * (60 * hours + minutes : Int), cs) else .error .outOfRange

theorem offsetFrom_plus (cs : List Char) : offsetFrom ('+' :: cs) = signed 1 cs := rfl

theorem offsetFrom_hyphen (cs : List Char) : offsetFrom ('-' :: cs) = signed (-1) cs := rfl

theorem offsetFrom_minus (cs : List Char) : offsetFrom ('\u2212' :: cs) = signed (-1) cs := rfl

theorem signed_eq_ok_iff {sign offset : Int} {cs rest : List Char} :
    signed sign cs = .ok (offset, rest) ↔ ∃ hours minutes, hours < 100 ∧ minutes < 60 ∧
      cs = Zone.pair hours minutes ++ rest ∧ offset = sign * (60 * hours + minutes : Int) := by
  rw [signed]
  constructor
  · intro h
    obtain ⟨⟨hours, cs₁⟩, hhours, htail⟩ := bind_eq_ok.mp h
    obtain ⟨hlt, rfl⟩ := pairFrom_eq_ok_iff.mp hhours
    simp only at htail
    split at htail
    · cases htail
    obtain ⟨cs₂, hcolon, htail⟩ := bind_eq_ok.mp htail
    obtain ⟨⟨minutes, cs₃⟩, hminutes, hend⟩ := bind_eq_ok.mp htail
    obtain rfl := mark_beq_eq_ok_iff.mp hcolon
    obtain ⟨-, rfl⟩ := pairFrom_eq_ok_iff.mp hminutes
    simp only at hend
    split at hend
    · next hle =>
      cases hend
      exact ⟨hours, minutes, hlt, hle, by simp [Zone.pair], rfl⟩
    · cases hend
  · rintro ⟨hours, minutes, hhours, hminutes, rfl, rfl⟩
    have hfirst : pairFrom (Zone.pair hours minutes ++ rest) =
        .ok (hours, ':' :: (two minutes ++ rest)) :=
      pairFrom_eq_ok_iff.mpr ⟨hhours, by simp [Zone.pair]⟩
    have hsecond : pairFrom (two minutes ++ rest) = .ok (minutes, rest) :=
      pairFrom_eq_ok_iff.mpr ⟨by omega, rfl⟩
    simp [hfirst, hsecond, bind, Except.bind, mark, hminutes]

theorem offsetFrom_eq_ok_iff {offset : Int} {cs rest : List Char} :
    offsetFrom cs = .ok (offset, rest) ↔ ∃ z front, Zone.Spells z front ∧ cs = front ++ rest ∧
      z.IsRead ∧ offset = z.minutes := by
  constructor
  · intro h
    cases cs with
    | nil => cases h
    | cons c cs =>
      by_cases hplus : c = '+'
      · subst hplus
        rw [offsetFrom_plus] at h
        obtain ⟨hours, minutes, hhours, hminutes, rfl, rfl⟩ := signed_eq_ok_iff.mp h
        exact ⟨_, _, .plus hours minutes, rfl, ⟨hhours, hminutes⟩, by simp [Zone.minutes]⟩
      by_cases hhyphen : c = '-'
      · subst hhyphen
        rw [offsetFrom_hyphen] at h
        obtain ⟨hours, minutes, hhours, hminutes, rfl, rfl⟩ := signed_eq_ok_iff.mp h
        exact ⟨_, _, .hyphen hours minutes, rfl, ⟨hhours, hminutes⟩, by simp [Zone.minutes]⟩
      by_cases hminus : c = '\u2212'
      · subst hminus
        rw [offsetFrom_minus] at h
        obtain ⟨hours, minutes, hhours, hminutes, rfl, rfl⟩ := signed_eq_ok_iff.mp h
        exact ⟨_, _, .minus hours minutes, rfl, ⟨hhours, hminutes⟩, by simp [Zone.minutes]⟩
      by_cases hcapital : c = 'Z'
      · subst hcapital
        cases h
        exact ⟨_, _, .capital, rfl, trivial, rfl⟩
      by_cases hsmall : c = 'z'
      · subst hsmall
        cases h
        exact ⟨_, _, .small, rfl, trivial, rfl⟩
      · simp [offsetFrom, hplus, hhyphen, hminus, hcapital, hsmall, bind, Except.bind] at h
  · rintro ⟨z, front, hspells, rfl, hread, rfl⟩
    cases hspells with
    | capital => rfl
    | small => rfl
    | plus hours minutes =>
      rw [List.cons_append, offsetFrom_plus]
      exact signed_eq_ok_iff.mpr ⟨hours, minutes, hread.1, hread.2, rfl, by simp [Zone.minutes]⟩
    | hyphen hours minutes =>
      rw [List.cons_append, offsetFrom_hyphen]
      exact signed_eq_ok_iff.mpr ⟨hours, minutes, hread.1, hread.2, rfl, by simp [Zone.minutes]⟩
    | minus hours minutes =>
      rw [List.cons_append, offsetFrom_minus]
      exact signed_eq_ok_iff.mpr ⟨hours, minutes, hread.1, hread.2, rfl, by simp [Zone.minutes]⟩

/-! ## Dates and clocks -/

theorem dateFrom_eq_ok_iff {d : Date} {cs rest : List Char} :
    dateFrom cs = .ok (d, rest) ↔ ∃ year month day : Nat, year < 10000 ∧ d = ⟨year, month, day⟩ ∧
      d.isValid = true ∧
      cs = padded 4 (decimal year) ++ '-' :: (two month ++ '-' :: (two day ++ rest)) := by
  constructor
  · intro h
    simp only [dateFrom, bind_eq_ok] at h
    obtain ⟨⟨year, _⟩, hyear, _, hmark, ⟨month, _⟩, hmonth, _, hmark', ⟨day, _⟩, hday, h⟩ := h
    obtain ⟨hlt, rfl⟩ := number_eq_ok_iff.mp hyear
    obtain rfl := mark_beq_eq_ok_iff.mp hmark
    obtain ⟨-, rfl⟩ := number_two_eq_ok_iff.mp hmonth
    obtain rfl := mark_beq_eq_ok_iff.mp hmark'
    obtain ⟨-, rfl⟩ := number_two_eq_ok_iff.mp hday
    simp only at h
    split at h
    · next hvalid =>
      cases h
      exact ⟨year, month, day, hlt, rfl, hvalid, rfl⟩
    · cases h
  · rintro ⟨year, month, day, hlt, rfl, hvalid, rfl⟩
    have hbounds := hvalid
    simp only [Date.isValid, Bool.and_eq_true, decide_eq_true_eq] at hbounds
    have hmonth : month < 100 := by omega
    have hday : day < 100 := by
      have := daysInMonth_le year month
      omega
    simp only [dateFrom, number_padded 3 hlt, number_two hmonth, number_two hday, bind, Except.bind,
      mark, beq_self_eq_true, if_true, hvalid]

theorem clockFrom_eq_ok {time : Clock} {cs rest : List Char} (h : clockFrom cs = .ok (time, rest)) :
    ∃ hour minute second ds, hour < 24 ∧ minute < 60 ∧ second ≤ 60 ∧ (∀ d ∈ ds, d < 10) ∧
      time = ⟨hour, minute, second, nanosOf ds⟩ ∧
      cs = two hour ++ ':' :: (two minute ++ ':' :: (two second ++
        (Local.fractionChars ds ++ rest))) := by
  simp only [clockFrom, bind_eq_ok] at h
  obtain ⟨⟨hour, _⟩, hhour, _, hmark, ⟨minute, _⟩, hminute, _, hmark', ⟨second, cs'⟩, hsecond,
    h⟩ := h
  obtain ⟨-, rfl⟩ := number_two_eq_ok_iff.mp hhour
  obtain rfl := mark_beq_eq_ok_iff.mp hmark
  obtain ⟨-, rfl⟩ := number_two_eq_ok_iff.mp hminute
  obtain rfl := mark_beq_eq_ok_iff.mp hmark'
  obtain ⟨-, rfl⟩ := number_two_eq_ok_iff.mp hsecond
  -- the fraction, read or left out, is all that is still open
  obtain ⟨ds, rest', hds, rfl, hend⟩ : ∃ ds rest', (∀ d ∈ ds, d < 10) ∧
      cs' = Local.fractionChars ds ++ rest' ∧
      (if hour < 24 ∧ minute < 60 ∧ second ≤ 60 then
        (.ok (⟨hour, minute, second, nanosOf ds⟩, rest') : Except Malformed (Clock × List Char))
      else .error .outOfRange) = .ok (time, rest) := by
    split at h
    · obtain ⟨⟨fraction, rest'⟩, hfraction, h⟩ := bind_eq_ok.mp h
      obtain ⟨ds, hne, hds, hcs, rfl⟩ := fractionFrom_eq_ok hfraction
      cases ds with
      | nil => exact absurd rfl hne
      | cons d ds => exact ⟨d :: ds, rest', hds, by simp_all [Local.fractionChars], h⟩
    · exact ⟨[], _, List.forall_mem_nil _, rfl, h⟩
  split at hend
  · next hbounds =>
    cases hend
    exact ⟨hour, minute, second, ds, hbounds.1, hbounds.2.1, hbounds.2.2, hds, rfl, rfl⟩
  · cases hend

theorem clockFrom_spelled {hour minute second : Nat} {ds : List Nat} (hhour : hour < 24)
    (hminute : minute < 60) (hsecond : second ≤ 60) (hds : ∀ d ∈ ds, d < 10) {z : Zone}
    {cs : List Char} (hz : z.Spells cs) :
    clockFrom (two hour ++ ':' :: (two minute ++ ':' :: (two second ++
      (Local.fractionChars ds ++ cs)))) = .ok (⟨hour, minute, second, nanosOf ds⟩, cs) := by
  simp only [clockFrom, number_two (show hour < 100 by omega),
    number_two (show minute < 100 by omega), number_two (show second < 100 by omega), bind,
    Except.bind, mark, beq_self_eq_true, if_true]
  cases ds with
  | nil =>
    rw [show Local.fractionChars [] ++ cs = cs from rfl]
    split
    · exact absurd rfl hz.head_ne_point
    · simp [pure, Except.pure, hhour, hminute, hsecond, nanosOf]
  | cons d ds =>
    have hread := fractionFrom_digits (List.cons_ne_nil d ds) hds hz.startsOther
    rw [List.map_cons, List.cons_append] at hread
    simp [Local.fractionChars, hread, hhour, hminute, hsecond]

/-! ## Whole texts -/

/-- The time of the day of a local time. -/
def Local.clock (w : Local) : Clock := ⟨w.hour, w.minute, w.second, nanosOf w.fraction⟩

theorem Zone.IsValid.isRead {z : Zone} (h : z.IsValid) : z.IsRead := by
  cases z with
  | universal => trivial
  | _ => exact ⟨by have := h.1; omega, by have := h.2; omega⟩

theorem Zone.isValid_iff {z : Zone} (h : z.IsRead) : z.IsValid ↔ z.minutes.natAbs < 1440 := by
  cases z with
  | universal => exact ⟨fun _ => (by decide), fun _ => trivial⟩
  | _ =>
    simp only [Zone.IsRead, Zone.IsValid, Zone.minutes] at h ⊢
    omega

theorem Zone.Spells.isBlank_last {z : Zone} {cs : List Char} (h : z.Spells cs) :
    cs ≠ [] ∧ (z.IsRead → ∀ c ∈ cs.getLast?, isBlank c = false) := by
  have hpair : ∀ {hours minutes : Nat} {sign : Char}, minutes < 60 →
      ∀ c ∈ (sign :: Zone.pair hours minutes).getLast?, isBlank c = false := by
    intro hours minutes sign hminutes c hc
    have hne : two minutes ≠ [] := by
      have := le_length_padded 2 (decimal minutes)
      exact List.length_pos_iff.mp (by rw [two]; omega)
    have hmem : c ∈ (two minutes).getLast? := by
      simpa [Zone.pair, List.getLast?_cons, List.getLast?_append, List.getLast?_eq_some_getLast hne]
        using hc
    have hlt : minutes < 10 ^ (1 + 1) := by omega
    exact isBlank_of_mem_padded hlt (List.mem_of_mem_getLast? hmem)
  cases h with
  | capital => exact ⟨List.cons_ne_nil _ _, fun _ c hc => Option.some.inj hc ▸ rfl⟩
  | small => exact ⟨List.cons_ne_nil _ _, fun _ c hc => Option.some.inj hc ▸ rfl⟩
  | plus hours minutes => exact ⟨List.cons_ne_nil _ _, fun hread => hpair hread.2⟩
  | hyphen hours minutes => exact ⟨List.cons_ne_nil _ _, fun hread => hpair hread.2⟩
  | minus hours minutes => exact ⟨List.cons_ne_nil _ _, fun hread => hpair hread.2⟩

theorem Local.Spells.nineteen_le_length {w : Local} {cs : List Char} (h : w.Spells cs) :
    19 ≤ cs.length := by
  obtain ⟨mark, zone, -, -, rfl⟩ := h
  have htwo : ∀ n, 2 ≤ (two n).length := fun n => le_length_padded 2 (decimal n)
  have hyear := le_length_padded 4 (decimal w.year)
  have h₁ := htwo w.month
  have h₂ := htwo w.day
  have h₃ := htwo w.hour
  have h₄ := htwo w.minute
  have h₅ := htwo w.second
  simp only [List.length_append, List.length_cons]
  omega

theorem Local.Spells.isBare {w : Local} (hw : w.IsValid) {cs : List Char} (h : w.Spells cs) :
    IsBare cs := by
  obtain ⟨mark, zone, -, hzone, rfl⟩ := h
  obtain ⟨hne, hlast⟩ := hzone.isBlank_last
  refine ⟨fun c hc => ?_, fun c hc => hlast hw.zone.isRead c ?_⟩
  · have hyear : padded 4 (decimal w.year) ≠ [] := by
      have := le_length_padded 4 (decimal w.year)
      exact List.length_pos_iff.mp (by omega)
    rw [List.head?_append, List.head?_eq_some_head hyear, Option.some_or] at hc
    obtain rfl := Option.some.inj hc
    have hlt : w.year < 10 ^ (3 + 1) := Nat.lt_succ_of_le hw.year
    exact isBlank_of_mem_padded hlt (List.head_mem hyear)
  · simpa [List.getLast?_append, List.getLast?_cons, List.getLast?_eq_some_getLast hne] using hc

/-- **Reading takes the texts of local times** and nothing else. -/
theorem ofChars_eq_ok_iff {cs : List Char} {t : Instant} : ofChars cs = .ok t ↔
    ∃ w : Local, w.IsValid ∧ w.Spells cs ∧ ofParts w.date w.clock w.zone.minutes = t := by
  constructor
  · intro h
    rw [ofChars] at h
    split at h
    · cases h
    simp only [bind_eq_ok] at h
    obtain ⟨⟨date, _⟩, hdate, _, hmark, ⟨time, _⟩, hclock, ⟨offset, rest⟩, hoffset, h⟩ := h
    obtain ⟨year, month, day, hyear, rfl, hvalid, rfl⟩ := dateFrom_eq_ok_iff.mp hdate
    obtain ⟨mark, hallowed, rfl⟩ := mark_eq_ok_iff.mp hmark
    obtain ⟨hour, minute, second, ds, hhour, hminute, hsecond, hds, rfl, rfl⟩ :=
      clockFrom_eq_ok hclock
    obtain ⟨z, front, hspells, rfl, hread, rfl⟩ := offsetFrom_eq_ok_iff.mp hoffset
    simp only at h
    split at h
    · cases h
    next hrest =>
    split at h
    · cases h
    next hday =>
    cases h
    obtain rfl : rest = [] := by simpa using hrest
    refine ⟨⟨year, month, day, hour, minute, second, ds, z⟩, ?_, ?_, rfl⟩
    · exact ⟨by simp only; omega, hvalid, by simp only; omega, by simp only; omega, hsecond, hds,
        (Zone.isValid_iff hread).mpr (by omega)⟩
    · refine ⟨mark, front, ?_, hspells, by rw [List.append_nil]⟩
      simpa [or_assoc] using hallowed
  · rintro ⟨w, hw, hcs, rfl⟩
    have hsize : ¬ byteSize cs < 19 := by
      have := length_le_byteSize cs
      have := hcs.nineteen_le_length
      omega
    obtain ⟨mark, zone, hmark, hzone, rfl⟩ := hcs
    have hdate : ∀ rest, dateFrom (padded 4 (decimal w.year) ++
        '-' :: (two w.month ++ '-' :: (two w.day ++ rest))) = .ok (w.date, rest) :=
      fun _ => dateFrom_eq_ok_iff.mpr
        ⟨w.year, w.month, w.day, Nat.lt_succ_of_le hw.year, rfl, hw.date, rfl⟩
    have hallowed : ∀ rest, Instant.mark (fun c => c == 'T' || c == 't' || c == ' ')
        (mark :: rest) = .ok rest := by
      intro rest
      rcases hmark with rfl | rfl | rfl <;> rfl
    have hclock := clockFrom_spelled (Nat.lt_succ_of_le hw.hour) (Nat.lt_succ_of_le hw.minute)
      hw.second hw.fraction hzone
    have hoffset : offsetFrom zone = .ok (w.zone.minutes, []) :=
      offsetFrom_eq_ok_iff.mpr
        ⟨w.zone, zone, hzone, (List.append_nil zone).symm, hw.zone.isRead, rfl⟩
    have hday := (Zone.isValid_iff hw.zone.isRead).mp hw.zone
    rw [ofChars, if_neg hsize]
    simp only [hdate, bind, Except.bind, hallowed, hclock, hoffset]
    rw [if_neg (by simp), if_neg (by omega)]
    rfl

/-- **Reading a field takes the spellings of local times** and nothing else. -/
theorem read_eq_ofParts_iff {s : String} {t : Instant} : read s = .ok t ↔
    ∃ w : Local, w.IsValid ∧ w.IsSpelling s ∧ ofParts w.date w.clock w.zone.minutes = t := by
  rw [read, mapError_eq_ok, ofChars_eq_ok_iff]
  constructor
  · rintro ⟨w, hw, hspells, ht⟩
    obtain ⟨before, behind, hs, hbefore, hbehind⟩ := exists_append_trimBlanks s.toList
    exact ⟨w, hw, ⟨before, _, behind, hs, hbefore, hbehind, hspells⟩, ht⟩
  · rintro ⟨w, hw, ⟨before, cs, behind, hs, hbefore, hbehind, hspells⟩, ht⟩
    rw [hs, trimBlanks_append hbefore hbehind (hspells.isBare hw)]
    exact ⟨w, hw, hspells, ht⟩

end Methodology.Instant
