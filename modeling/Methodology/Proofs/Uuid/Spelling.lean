import Mathlib.Data.List.Forall2
import Methodology.Proofs.Result
import Methodology.Proofs.Uuid.RoundTrip

/-!
# The spellings of a uuid

What spells a uuid is said without a reader: its digits, small or capital, as they are or in groups,
and the groups bare, between braces or behind the mark of a name.

* `HasDigits`, `Spells`, `IsSpelling`: **the spellings** of a uuid, with blanks at the ends or not.
* `plain?_eq_some_iff`, `grouped?_eq_some_iff`: digits and groups that are read.
* `ofChars_eq_ok_iff`: the reader takes the spellings and nothing else.
* **`read_eq_ok_iff`**: so does the reader of a field; `isSpelling_toText`: the text of a uuid is one
  of its spellings.
-/

namespace Methodology.Uuid

open Text Result

/-! ## Spellings -/

/-- The thirty-two digits of a uuid, each of them small or capital. -/
def HasDigits (u : Uuid) (cs : List Char) : Prop :=
  List.Forall₂ (fun d c => c = digitChar d ∨ c = (digitChar d).toUpper) u.digits cs

/-- The mark of a name, each letter small or capital. -/
def IsMark (cs : List Char) : Prop := cs.map Char.toLower = urn

/-- **The spellings of a uuid**, given the marks that may stand in front of a name. -/
inductive Spells (mark : List Char → Prop) (u : Uuid) : List Char → Prop
  | plain {cs : List Char} (h : u.HasDigits cs) : Spells mark u cs
  | grouped {cs : List Char} (h : u.HasDigits cs) : Spells mark u (Uuid.grouped cs)
  | braced {cs : List Char} (h : u.HasDigits cs) :
    Spells mark u ('\x7b' :: (Uuid.grouped cs ++ ['\x7d']))
  | named {front cs : List Char} (hfront : mark front) (h : u.HasDigits cs) :
    Spells mark u (front ++ Uuid.grouped cs)

/-- A text that spells a uuid between blanks. -/
def IsSpelling (mark : List Char → Prop) (u : Uuid) (s : String) : Prop :=
  ∃ before cs behind, s.toList = before ++ cs ++ behind ∧ (∀ c ∈ before, isBlank c) ∧
    (∀ c ∈ behind, isBlank c) ∧ u.Spells mark cs

/-! ## Digits -/

theorem digits_ofDigits {ds : List Nat} (hlen : ds.length = 32) (h : ∀ d ∈ ds, d < 16) :
    (ofDigits ds).digits = ds := by
  have hlt : ds.foldl (fun n d => 16 * n + d) 0 < 2 ^ 128 := by
    have hlt := foldl_lt h
    rwa [hlen] at hlt
  have hplaces := places_foldl h
  rw [hlen] at hplaces
  rw [digits_eq_places, ofDigits, BitVec.toNat_ofNat, Nat.mod_eq_of_lt hlt, hplaces]

theorem mapM_hexValue?_eq_some_iff {cs : List Char} {ds : List Nat} :
    cs.mapM hexValue? = some ds ↔ List.Forall₂ (fun d c => hexValue? c = some d) ds cs := by
  induction cs generalizing ds with
  | nil =>
    rw [List.mapM_nil, List.forall₂_nil_right_iff]
    exact ⟨fun h => (Option.some.inj h).symm, fun h => h ▸ rfl⟩
  | cons c cs ih =>
    rw [List.mapM_cons, List.forall₂_cons_right_iff]
    constructor
    · intro h
      obtain ⟨d, hd, h⟩ := Option.bind_eq_some_iff.mp h
      obtain ⟨rest, hrest, h⟩ := Option.bind_eq_some_iff.mp h
      exact ⟨d, rest, hd, ih.mp hrest, (Option.some.inj h).symm⟩
    · rintro ⟨d, rest, hd, hrest, rfl⟩
      rw [hd, ih.mpr hrest]
      rfl

theorem hasDigits_iff {u : Uuid} {cs : List Char} :
    u.HasDigits cs ↔ cs.mapM hexValue? = some u.digits := by
  rw [mapM_hexValue?_eq_some_iff, HasDigits]
  constructor
  · intro h
    refine List.forall₂_iff_get.mpr ⟨h.length_eq, fun i hi hi' => ?_⟩
    have hdigit : u.digits.get ⟨i, hi⟩ < 16 := lt_of_mem_digits (List.get_mem _ _)
    exact hexValue?_eq_some_iff.mpr ⟨hdigit, (List.forall₂_iff_get.mp h).2 i hi hi'⟩
  · exact fun h => h.imp fun d c hc => (hexValue?_eq_some_iff.mp hc).2

theorem HasDigits.length_eq {u : Uuid} {cs : List Char} (h : u.HasDigits cs) : cs.length = 32 :=
  (List.Forall₂.length_eq h).symm.trans u.length_digits

theorem HasDigits.exists_digit {u : Uuid} {cs : List Char} (h : u.HasDigits cs) {c : Char}
    (hc : c ∈ cs) : ∃ d < 16, c = digitChar d ∨ c = (digitChar d).toUpper := by
  obtain ⟨i, hi, rfl⟩ := List.mem_iff_getElem.mp hc
  have hi' : i < u.digits.length := (List.Forall₂.length_eq h).symm ▸ hi
  exact ⟨u.digits.get ⟨i, hi'⟩, lt_of_mem_digits (List.get_mem _ _),
    (List.forall₂_iff_get.mp h).2 i hi' hi⟩

/-- **Digits that are read** are those of the uuid. -/
theorem plain?_eq_some_iff {cs : List Char} {u : Uuid} : plain? cs = some u ↔ u.HasDigits cs := by
  constructor
  · intro h
    rw [plain?] at h
    split at h
    · next hlen =>
      obtain ⟨ds, hds, rfl⟩ := Option.map_eq_some_iff.mp h
      have hread := mapM_hexValue?_eq_some_iff.mp hds
      have hdigits : (ofDigits ds).digits = ds := by
        refine digits_ofDigits (hread.length_eq.trans hlen) fun d hd => ?_
        obtain ⟨i, hi, rfl⟩ := List.mem_iff_getElem.mp hd
        have hi' : i < cs.length := hread.length_eq ▸ hi
        exact (hexValue?_eq_some_iff.mp ((List.forall₂_iff_get.mp hread).2 i hi hi')).1
      rw [hasDigits_iff, hdigits, hds]
    · cases h
  · intro h
    rw [plain?, if_pos h.length_eq, hasDigits_iff.mp h, Option.map_some, ofDigits_digits]

/-! ## Groups -/

theorem grouped_append {a b c d e : List Char} (ha : a.length = 8) (hb : b.length = 4)
    (hc : c.length = 4) (hd : d.length = 4) : grouped (a ++ b ++ c ++ d ++ e) =
      a ++ '-' :: b ++ '-' :: c ++ '-' :: d ++ '-' :: e := by
  rw [grouped]
  simp (disch := omega) [ha, hb, hc, List.drop_append, List.drop_of_length_le]

theorem drop_eq_cons {cs : List Char} {n : Nat} {c : Char} (h : cs[n]? = some c) :
    cs.drop n = c :: cs.drop (n + 1) := by
  obtain ⟨hlt, rfl⟩ := List.getElem?_eq_some_iff.mp h
  exact List.drop_eq_getElem_cons hlt

theorem drop_eq_group {cs : List Char} {n m : Nat} (h : cs[n + m]? = some '-') :
    cs.drop n = (cs.drop n).take m ++ '-' :: cs.drop (n + m + 1) := by
  rw [← drop_eq_cons h]
  exact drop_eq_append cs n m

/-- **Groups that are read** are those of the digits of the uuid. -/
theorem grouped?_eq_some_iff {cs : List Char} {u : Uuid} :
    grouped? cs = some u ↔ ∃ ds, u.HasDigits ds ∧ cs = grouped ds := by
  constructor
  · intro h
    rw [grouped?] at h
    split at h
    · next hform =>
      obtain ⟨hlen, h₁, h₂, h₃, h₄⟩ := hform
      refine ⟨_, plain?_eq_some_iff.mp h, ?_⟩
      rw [grouped_append (by simp [hlen]) (by simp [hlen]) (by simp [hlen]) (by simp [hlen])]
      have h₁ : cs.drop 8 = '-' :: cs.drop 9 := drop_eq_cons h₁
      have h₂ : cs.drop 9 = (cs.drop 9).take 4 ++ '-' :: cs.drop 14 := drop_eq_group h₂
      have h₃ : cs.drop 14 = (cs.drop 14).take 4 ++ '-' :: cs.drop 19 := drop_eq_group h₃
      have h₄ : cs.drop 19 = (cs.drop 19).take 4 ++ '-' :: cs.drop 24 := drop_eq_group h₄
      conv_lhs => rw [← List.take_append_drop 8 cs, h₁, h₂, h₃, h₄]
      simp only [List.append_assoc, List.cons_append]
    · cases h
  · rintro ⟨ds, hds, rfl⟩
    rw [grouped?_grouped hds.length_eq, plain?_eq_some_iff.mpr hds]

/-! ## Characters -/

theorem plain_digit {c : Char} {d : Nat} (hd : d < 16)
    (hc : c = digitChar d ∨ c = (digitChar d).toUpper) : isBlank c = false ∧ c.utf8Size = 1 := by
  have hsmall : ∀ d < 16, isBlank (Nat.digitChar d) = false ∧ (Nat.digitChar d).utf8Size = 1 := by
    decide
  have hcapital : ∀ d < 16,
      isBlank (Nat.digitChar d).toUpper = false ∧ (Nat.digitChar d).toUpper.utf8Size = 1 := by
    decide
  rcases hc with rfl | rfl
  · exact hsmall d hd
  · exact hcapital d hd

theorem plain_of_toLower {c : Char} (h : isBlank c.toLower = false ∧ c.toLower.utf8Size = 1) :
    isBlank c = false ∧ c.utf8Size = 1 := by
  delta Char.toLower at h
  split at h
  · next hcapital => exact of_toNat_between c hcapital.1 hcapital.2 (by decide)
  · exact h

theorem HasDigits.plain_of_mem {u : Uuid} {cs : List Char} (h : u.HasDigits cs) {c : Char}
    (hc : c ∈ cs) : isBlank c = false ∧ c.utf8Size = 1 := by
  obtain ⟨d, hd, hc⟩ := h.exists_digit hc
  exact plain_digit hd hc

theorem HasDigits.plain_of_mem_grouped {u : Uuid} {cs : List Char} (h : u.HasDigits cs) {c : Char}
    (hc : c ∈ grouped cs) : isBlank c = false ∧ c.utf8Size = 1 := by
  rcases mem_grouped hc with rfl | hc
  · decide
  · exact h.plain_of_mem hc

theorem IsMark.plain_of_mem {front : List Char} (h : IsMark front) {c : Char} (hc : c ∈ front) :
    isBlank c = false ∧ c.utf8Size = 1 := by
  have hall : urn.all (fun c => !isBlank c && c.utf8Size == 1) = true := by decide
  have hc := List.all_eq_true.mp hall c.toLower (h ▸ List.mem_map_of_mem hc)
  rw [Bool.and_eq_true, Bool.not_eq_true', beq_iff_eq] at hc
  exact plain_of_toLower hc

theorem IsMark.length_eq {front : List Char} (h : IsMark front) : front.length = 9 := by
  rw [← List.length_map Char.toLower, h]
  rfl

theorem Spells.plain_of_mem {u : Uuid} {cs : List Char} (h : u.Spells IsMark cs) {c : Char}
    (hc : c ∈ cs) : isBlank c = false ∧ c.utf8Size = 1 := by
  cases h with
  | plain h => exact h.plain_of_mem hc
  | grouped h => exact h.plain_of_mem_grouped hc
  | braced h =>
    rw [List.mem_cons, List.mem_append, List.mem_singleton] at hc
    rcases hc with rfl | hc | rfl
    · decide
    · exact h.plain_of_mem_grouped hc
    · decide
  | named hfront h =>
    rcases List.mem_append.mp hc with hc | hc
    · exact hfront.plain_of_mem hc
    · exact h.plain_of_mem_grouped hc

theorem Spells.byteSize_eq {u : Uuid} {cs : List Char} (h : u.Spells IsMark cs) :
    byteSize cs = cs.length := byteSize_eq_length fun _ hc => (h.plain_of_mem hc).2

theorem HasDigits.length_grouped {u : Uuid} {cs : List Char} (h : u.HasDigits cs) :
    (grouped cs).length = 36 := by simp [grouped, h.length_eq]

/-! ## Reading -/

theorem unbraced?_eq_some_iff {cs body : List Char} :
    unbraced? cs = some body ↔ cs = '\x7b' :: (body ++ ['\x7d']) := by
  constructor
  · intro h
    rw [unbraced?.eq_def] at h
    split at h
    · next rest =>
      split at h
      · next hlast =>
        cases h
        rw [List.dropLast_append_getLast? _ hlast]
      · cases h
    · cases h
  · rintro rfl
    simp [unbraced?]

theorem named?_eq_some_iff {cs body : List Char} :
    named? cs = some body ↔ ∃ front, IsMark front ∧ cs = front ++ body := by
  constructor
  · intro h
    rw [named?] at h
    split at h
    · next hfront =>
      cases h
      exact ⟨cs.take 9, hfront, (List.take_append_drop 9 cs).symm⟩
    · cases h
  · rintro ⟨front, hfront, rfl⟩
    rw [named?, List.take_left' hfront.length_eq, List.drop_left' hfront.length_eq]
    exact if_pos hfront

theorem ofGrouped_eq_ok_iff {cs : List Char} {u : Uuid} :
    ofGrouped cs = .ok u ↔ ∃ ds, u.HasDigits ds ∧ cs = grouped ds := by
  rw [← grouped?_eq_some_iff, ofGrouped]
  cases grouped? cs with
  | none =>
    constructor
    · intro h
      cases h
    · intro h
      cases h
  | some v => exact ⟨fun h => congrArg some (Except.ok.inj h), fun h => congrArg _ (Option.some.inj h)⟩

/-- **The reader takes the spellings** of a uuid and nothing else. -/
theorem ofChars_eq_ok_iff {cs : List Char} {u : Uuid} :
    ofChars cs = .ok u ↔ u.Spells IsMark cs := by
  constructor
  · intro h
    rw [ofChars] at h
    split at h
    · split at h
      · next v hplain =>
        cases h
        exact .plain (plain?_eq_some_iff.mp hplain)
      · cases h
    · obtain ⟨ds, hds, rfl⟩ := ofGrouped_eq_ok_iff.mp h
      exact .grouped hds
    · split at h
      · next body hbody =>
        obtain ⟨ds, hds, rfl⟩ := ofGrouped_eq_ok_iff.mp h
        exact unbraced?_eq_some_iff.mp hbody ▸ .braced hds
      · cases h
    · split at h
      · next body hbody =>
        obtain ⟨ds, hds, rfl⟩ := ofGrouped_eq_ok_iff.mp h
        obtain ⟨front, hfront, rfl⟩ := named?_eq_some_iff.mp hbody
        exact .named hfront hds
      · cases h
    · cases h
  · intro h
    have hsize := h.byteSize_eq
    cases h with
    | plain h =>
      rw [ofChars, hsize, h.length_eq]
      simp only [plain?_eq_some_iff.mpr h]
    | grouped h =>
      rw [ofChars, hsize, h.length_grouped]
      exact ofGrouped_eq_ok_iff.mpr ⟨_, h, rfl⟩
    | braced h =>
      rw [ofChars, hsize, List.length_cons, List.length_append, h.length_grouped]
      simp only [List.length_singleton, Nat.reduceAdd, unbraced?_eq_some_iff.mpr rfl]
      exact ofGrouped_eq_ok_iff.mpr ⟨_, h, rfl⟩
    | named hfront h =>
      rw [ofChars, hsize, List.length_append, hfront.length_eq, h.length_grouped]
      simp only [Nat.reduceAdd, named?_eq_some_iff.mpr ⟨_, hfront, rfl⟩]
      exact ofGrouped_eq_ok_iff.mpr ⟨_, h, rfl⟩

/-- **The reader of a field takes the spellings** of a uuid, between blanks or not, and nothing
else. -/
theorem read_eq_ok_iff {s : String} {u : Uuid} : read s = .ok u ↔ u.IsSpelling IsMark s := by
  rw [read, mapError_eq_ok, ofChars_eq_ok_iff]
  constructor
  · intro h
    obtain ⟨before, behind, hs, hbefore, hbehind⟩ := exists_append_trimBlanks s.toList
    exact ⟨before, _, behind, hs, hbefore, hbehind, h⟩
  · rintro ⟨before, cs, behind, hs, hbefore, hbehind, h⟩
    have hbare : IsBare cs := isBare_of_forall fun c hc => (h.plain_of_mem hc).1
    rwa [hs, trimBlanks_append hbefore hbehind hbare]

/-- **The text of a uuid** is one of its spellings, whatever marks there are. -/
theorem isSpelling_toText (mark : List Char → Prop) (u : Uuid) : u.IsSpelling mark u.toText := by
  have hdigits : u.HasDigits (u.digits.map digitChar) := by
    rw [HasDigits, List.forall₂_map_right_iff]
    exact List.forall₂_same.mpr fun d _ => .inl rfl
  refine ⟨[], _, [], ?_, List.forall_mem_nil _, List.forall_mem_nil _, .grouped hdigits⟩
  rw [toText, String.toList_ofList, List.nil_append, List.append_nil]

end Methodology.Uuid
