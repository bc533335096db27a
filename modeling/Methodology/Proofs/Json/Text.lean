import Methodology.Json.Printer
import Methodology.Json.Reader
import Methodology.Proofs.Result
import Methodology.Proofs.Text.Digits
import Methodology.Proofs.Text.Trim

/-!
# Texts between quotes are read back

* `hexFour_padded`: the digits of an escaped character are read as its number.
* `escaped_cases`: a character stands for itself or is escaped.
* **`stringFrom_escaped`**: a text between quotes is read as that text.
-/

namespace Methodology.Json

open Text Result

theorem hexFour_padded {n : Nat} (hn : n < 16 ^ 4) (rest : List Char) :
    hexFour (padded 4 (hex n) ++ rest) = .ok (n, rest) := by
  have hpadded : padded 4 (hex n) = (places 16 4 n).map Nat.digitChar :=
    padded_toDigits (by decide) hn
  have hlen : (padded 4 (hex n)).length = 4 := by rw [hpadded]; simp
  have hread : (padded 4 (hex n)).mapM hexValue? = some (places 16 4 n) := by
    rw [hpadded]
    exact mapM_hexValue?_map (fun d hd => hexValue?_digitChar hd)
      fun d hd => lt_of_mem_places (by decide) hd
  have hsize : ¬ byteSize (padded 4 (hex n) ++ rest) < 4 := by
    have := length_le_byteSize (padded 4 (hex n))
    rw [byteSize_append]
    omega
  rw [hexFour, if_neg hsize, List.take_left' hlen, hread, List.drop_left' hlen]
  simp only [foldl_places, Nat.mod_eq_of_lt hn]

/-- **A character between quotes** stands for itself, or is escaped so that it is read back. -/
theorem escaped_cases (c : Char) :
    (escaped c = [c] ∧ c ≠ '"' ∧ c ≠ '\\' ∧ ¬ c.toNat < 0x20) ∨
      ∃ cs, escaped c = '\\' :: cs ∧ ∀ rest, escape (cs ++ rest) = .ok (c, rest) := by
  by_cases hquote : c = '"'
  · subst hquote
    exact .inr ⟨_, rfl, fun _ => rfl⟩
  by_cases hslash : c = '\\'
  · subst hslash
    exact .inr ⟨_, rfl, fun _ => rfl⟩
  rw [escaped, if_neg hquote, if_neg hslash]
  split
  · next h => exact .inr ⟨_, rfl, fun _ => h ▸ rfl⟩
  split
  · next h => exact .inr ⟨_, rfl, fun _ => h ▸ rfl⟩
  split
  · next h => exact .inr ⟨_, rfl, fun _ => h ▸ rfl⟩
  split
  · next h => exact .inr ⟨_, rfl, fun _ => h ▸ rfl⟩
  split
  · next h => exact .inr ⟨_, rfl, fun _ => h ▸ rfl⟩
  split
  · next h =>
    -- a control character without an escape of its own is spelled by its number
    refine .inr ⟨_, rfl, fun rest => ?_⟩
    have hread : hexFour (padded 4 (hex c.toNat) ++ rest) = .ok (c.toNat, rest) :=
      hexFour_padded (by omega) rest
    change (hexFour (padded 4 (hex c.toNat) ++ rest) >>= _) = _
    rw [hread, ok_bind]
    simp only
    rw [if_neg (by omega), if_neg (by omega), Char.ofNat_toNat]
  · next h => exact .inl ⟨rfl, hquote, hslash, h⟩

theorem charsFrom_escaped (cs rest : List Char) {fuel : Nat} (h : cs.length < fuel) :
    charsFrom fuel (cs.flatMap escaped ++ '"' :: rest) = .ok (cs, rest) := by
  induction cs generalizing fuel with
  | nil =>
    obtain ⟨fuel, rfl⟩ := Nat.exists_eq_add_of_lt h
    rfl
  | cons c cs ih =>
    obtain ⟨fuel, rfl⟩ : ∃ n, fuel = n + 1 := ⟨fuel - 1, by omega⟩
    have hrest : charsFrom fuel (cs.flatMap escaped ++ '"' :: rest) = .ok (cs, rest) :=
      ih (by simpa using h)
    rw [List.flatMap_cons, List.append_assoc]
    rcases escaped_cases c with ⟨he, hquote, hslash, hlow⟩ | ⟨cs', he, hread⟩
    · rw [he, List.singleton_append, charsFrom, if_neg hquote, if_neg hslash, if_neg hlow, hrest,
        ok_bind]
    · rw [he, List.cons_append, charsFrom, if_neg (by decide), if_pos rfl, hread, ok_bind]
      simp only
      rw [hrest, ok_bind]

theorem escaped_ne_nil (c : Char) : escaped c ≠ [] := by
  rcases escaped_cases c with ⟨he, -⟩ | ⟨cs', he, -⟩ <;> simp [he]

/-- **A text between quotes is read as that text**, behind its opening quote. -/
theorem stringFrom_escaped (s : String) (rest : List Char) :
    stringFrom (s.toList.flatMap escaped ++ '"' :: rest) = .ok (s, rest) := by
  have hlen := length_le_flatMap fun c (_ : c ∈ s.toList) => escaped_ne_nil c
  have hfuel : s.toList.length < (s.toList.flatMap escaped ++ '"' :: rest).length + 1 := by
    rw [List.length_append]
    omega
  rw [stringFrom, charsFrom_escaped s.toList rest hfuel, ok_bind]
  simp only [String.ofList_toList]

end Methodology.Json
