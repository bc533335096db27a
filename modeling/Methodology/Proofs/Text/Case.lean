import Mathlib.Data.List.Forall2
import Methodology.Text.Basic

/-!
# Letters of either case

Which texts are the same up to the case of their ASCII letters is said letter by letter. A letter
outside ASCII has no other case.

* `IsCapitalOf`, `SameLetter`, `SameLetters`: **letters and texts that differ in case alone**.
* `toLower_eq_iff`: letters that are the same when they are made small.
* **`sameLetters_iff`**: texts that are the same when their case is folded.
* `SameLetters.forall_mem`: what holds of the letters whatever their case.
-/

namespace Methodology.Text

/-- One of the capitals `A` to `Z`, and its small letter. -/
def IsCapitalOf (capital small : Char) : Prop :=
  'A' ≤ capital ∧ capital ≤ 'Z' ∧ small.toNat = capital.toNat + 32

/-- **Two characters that differ in case alone.** -/
def SameLetter (c d : Char) : Prop := c = d ∨ IsCapitalOf c d ∨ IsCapitalOf d c

/-- **Two texts that differ in case alone.** -/
def SameLetters (s t : String) : Prop := List.Forall₂ SameLetter s.toList t.toList

instance (c d : Char) : Decidable (IsCapitalOf c d) :=
  inferInstanceAs (Decidable ('A' ≤ c ∧ c ≤ 'Z' ∧ d.toNat = c.toNat + 32))

instance (c d : Char) : Decidable (SameLetter c d) :=
  inferInstanceAs (Decidable (c = d ∨ IsCapitalOf c d ∨ IsCapitalOf d c))

instance (s t : String) : Decidable (SameLetters s t) :=
  inferInstanceAs (Decidable (List.Forall₂ SameLetter s.toList t.toList))

theorem toNat_toLower (c : Char) :
    c.toLower.toNat = if 65 ≤ c.toNat ∧ c.toNat ≤ 90 then c.toNat + 32 else c.toNat := by
  have hcapital : c.val ≥ 'A'.val ∧ c.val ≤ 'Z'.val ↔ 65 ≤ c.toNat ∧ c.toNat ≤ 90 := .rfl
  delta Char.toLower
  simp only [← hcapital]
  split
  · next h =>
    have hle : c.val.toNat ≤ 90 := h.2
    have hlt : c.val.toNat + 32 < 2 ^ 32 := by omega
    exact (UInt32.toNat_add c.val 32).trans (Nat.mod_eq_of_lt hlt)
  · rfl

theorem isCapitalOf_iff {c d : Char} :
    IsCapitalOf c d ↔ 65 ≤ c.toNat ∧ c.toNat ≤ 90 ∧ d.toNat = c.toNat + 32 := .rfl

/-- **Letters that are the same when they are made small.** -/
theorem toLower_eq_iff {c d : Char} : c.toLower = d.toLower ↔ SameLetter c d := by
  rw [SameLetter, isCapitalOf_iff, isCapitalOf_iff, ← Char.toNat_inj, ← Char.toNat_inj,
    toNat_toLower, toNat_toLower]
  split <;> split <;> omega

/-- **Texts that are the same when their case is folded.** -/
theorem sameLetters_iff {s t : String} : SameLetters s t ↔ foldCase s = foldCase t := by
  rw [← String.toList_inj, foldCase, foldCase, String.toList_map, String.toList_map, SameLetters,
    ← List.forall₂_eq_eq_eq, List.forall₂_map_left_iff, List.forall₂_map_right_iff]
  simp only [toLower_eq_iff]

theorem SameLetter.eq_or_between {c d : Char} (h : SameLetter c d) :
    c = d ∨ 'A' ≤ c ∧ c ≤ 'z' := by
  refine h.imp id fun h => ?_
  change 65 ≤ c.toNat ∧ c.toNat ≤ 122
  rw [isCapitalOf_iff, isCapitalOf_iff] at h
  omega

/-- What holds of the characters of a text and of whatever stands between `A` and `z` holds of the
characters of a text that differs from it in case. -/
theorem SameLetters.forall_mem {s t : String} (h : SameLetters s t) {p : Char → Prop}
    (hletter : ∀ c : Char, 'A' ≤ c → c ≤ 'z' → p c) (ht : ∀ c ∈ t.toList, p c) :
    ∀ c ∈ s.toList, p c := by
  intro c hc
  obtain ⟨i, hi, rfl⟩ := List.mem_iff_getElem.mp hc
  have hi' : i < t.toList.length := h.length_eq ▸ hi
  rcases (List.Forall₂.get h hi hi').eq_or_between with heq | ⟨hlow, hhigh⟩
  · rw [List.get_eq_getElem, List.get_eq_getElem] at heq
    rw [heq]
    exact ht _ (List.getElem_mem hi')
  · exact hletter _ hlow hhigh

end Methodology.Text
