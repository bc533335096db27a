import Methodology.Proofs.Text.Digits
import Methodology.Proofs.Text.Trim
import Methodology.Uuid.Reader

/-!
# Uuids are read back

* `ofDigits_digits`: the thirty-two digits of a uuid give it back.
* `grouped?_grouped`: five groups of digits are read as the digits they are made of.
* **`read_toText`**: the text of a uuid is read as that uuid.
-/

namespace Methodology.Uuid

open Text

theorem digits_eq_places (u : Uuid) : u.digits = places 16 32 u.bits.toNat := rfl

theorem lt_of_mem_digits {u : Uuid} {d : Nat} (h : d ∈ u.digits) : d < 16 :=
  lt_of_mem_places (by decide) (digits_eq_places u ▸ h)

@[simp] theorem length_digits (u : Uuid) : u.digits.length = 32 := by simp [digits]

theorem ofDigits_digits (u : Uuid) : ofDigits u.digits = u := by
  have hlt : u.bits.toNat < 16 ^ 32 := u.bits.isLt
  rw [ofDigits, digits_eq_places, foldl_places, Nat.mod_eq_of_lt hlt, BitVec.ofNat_toNat,
    BitVec.setWidth_eq]

theorem plain?_digits (u : Uuid) : plain? (u.digits.map digitChar) = some u := by
  have hread : (u.digits.map digitChar).mapM hexValue? = some u.digits :=
    mapM_hexValue?_map (fun d hd => hexValue?_digitChar hd) fun d hd => lt_of_mem_digits hd
  rw [plain?, if_pos (by simp), hread, Option.map_some, ofDigits_digits]

theorem grouped?_joined {a b c d e : List Char} (ha : a.length = 8) (hb : b.length = 4)
    (hc : c.length = 4) (hd : d.length = 4) (he : e.length = 12) :
    grouped? (a ++ '-' :: b ++ '-' :: c ++ '-' :: d ++ '-' :: e) =
      plain? (a ++ b ++ c ++ d ++ e) := by
  have hlen : (a ++ '-' :: b ++ '-' :: c ++ '-' :: d ++ '-' :: e).length = 36 := by
    simp [ha, hb, hc, hd, he]
  rw [grouped?, if_pos]
  · congr 1
    simp (disch := omega) [ha, hb, hc, hd, List.drop_append, List.drop_of_length_le]
  · refine ⟨hlen, ?_, ?_, ?_, ?_⟩ <;>
      simp (disch := omega) only [List.append_assoc, List.cons_append, List.getElem?_append_right,
        List.getElem?_cons, ha, hb, hc, hd] <;> rfl

theorem drop_eq_append (cs : List Char) (n m : Nat) :
    cs.drop n = (cs.drop n).take m ++ cs.drop (n + m) := by
  rw [← List.drop_drop, List.take_append_drop]

theorem grouped?_grouped {cs : List Char} (h : cs.length = 32) :
    grouped? (grouped cs) = plain? cs := by
  rw [grouped, grouped?_joined (by simp [h]) (by simp [h]) (by simp [h]) (by simp [h]) (by simp [h])]
  congr 1
  calc cs.take 8 ++ (cs.drop 8).take 4 ++ (cs.drop 12).take 4 ++ (cs.drop 16).take 4 ++ cs.drop 20
      = cs.take 8 ++ ((cs.drop 8).take 4 ++ ((cs.drop 12).take 4 ++
          ((cs.drop 16).take 4 ++ cs.drop 20))) := by simp only [List.append_assoc]
    _ = cs := by
      rw [← drop_eq_append cs 16 4, ← drop_eq_append cs 12 4, ← drop_eq_append cs 8 4,
        List.take_append_drop]

theorem mem_grouped {cs : List Char} {c : Char} (h : c ∈ grouped cs) : c = '-' ∨ c ∈ cs := by
  simp only [grouped, List.mem_append, List.mem_cons] at h
  rcases h with (((h | rfl | h) | rfl | h) | rfl | h) | rfl | h
  · exact .inr (List.mem_of_mem_take h)
  · exact .inl rfl
  · exact .inr (List.mem_of_mem_drop (List.mem_of_mem_take h))
  · exact .inl rfl
  · exact .inr (List.mem_of_mem_drop (List.mem_of_mem_take h))
  · exact .inl rfl
  · exact .inr (List.mem_of_mem_drop (List.mem_of_mem_take h))
  · exact .inl rfl
  · exact .inr (List.mem_of_mem_drop h)

theorem eq_of_mem_grouped {u : Uuid} {c : Char} (h : c ∈ grouped (u.digits.map digitChar)) :
    c = '-' ∨ ∃ d < 16, c = Nat.digitChar d := by
  refine (mem_grouped h).imp id fun h => ?_
  obtain ⟨d, hd, rfl⟩ := List.mem_map.mp h
  exact ⟨d, lt_of_mem_digits hd, rfl⟩

theorem isBlank_of_mem_grouped {u : Uuid} {c : Char} (h : c ∈ grouped (u.digits.map digitChar)) :
    isBlank c = false := by
  have hdigits : ∀ d < 16, isBlank (Nat.digitChar d) = false := by decide
  rcases eq_of_mem_grouped h with rfl | ⟨d, hd, rfl⟩
  · rfl
  · exact hdigits d hd

theorem utf8Size_of_mem_grouped {u : Uuid} {c : Char}
    (h : c ∈ grouped (u.digits.map digitChar)) : c.utf8Size = 1 := by
  have hdigits : ∀ d < 16, (Nat.digitChar d).utf8Size = 1 := by decide
  rcases eq_of_mem_grouped h with rfl | ⟨d, hd, rfl⟩
  · rfl
  · exact hdigits d hd

theorem ofChars_grouped (u : Uuid) : ofChars (grouped (u.digits.map digitChar)) = .ok u := by
  have hsize : byteSize (grouped (u.digits.map digitChar)) = 36 := by
    rw [byteSize_eq_length fun c hc => utf8Size_of_mem_grouped hc]
    simp [grouped]
  have hgrouped : grouped? (grouped (u.digits.map digitChar)) = some u := by
    rw [grouped?_grouped (by simp), plain?_digits]
  rw [ofChars, hsize]
  simp only [ofGrouped, hgrouped]

/-- **The text of a uuid is read as that uuid.** -/
theorem read_toText (u : Uuid) : read u.toText = .ok u := by
  rw [read, toText, String.toList_ofList,
    trimBlanks_eq_self (isBare_of_forall fun c hc => isBlank_of_mem_grouped hc), ofChars_grouped]
  rfl

end Methodology.Uuid
