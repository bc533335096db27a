import Mathlib.Data.List.Basic
import Mathlib.Tactic.IntervalCases
import Methodology.Proofs.Text.Digits
import Methodology.Uuid.Seeded

/-!
# The uuids of a seed

Every uuid takes one block of the generator, so that none is left half drawn.

* `ChaCha.Generator.nextWords_block`: **the step.** Sixteen words from a generator without words
  left are one block.
* `Uuid.after_draw`: the generator after so many uuids.
* `Uuid.bytes`, `Uuid.marked`: the sixteen bytes of a uuid, and bytes with the version 4 and the
  variant of the standard in place.
* `Uuid.bytes_ofRandomBytes`: the bytes of a random uuid.
* **`Uuid.bytes_seeded`**: the bytes of a uuid of a seed.
-/

namespace Methodology

/-! ## One block for each uuid -/

namespace ChaCha.Generator

theorem nextWords_pending (key : Key) (counter : UInt64) (words : List UInt32) :
    (⟨key, counter, words⟩ : Generator).nextWords words.length = (words, ⟨key, counter, []⟩) := by
  induction words with
  | nil => rfl
  | cons w words ih =>
    rw [List.length_cons, nextWords]
    simp only [nextWord, ih]

/-- **The step.** Sixteen words from a generator without words left are one block. -/
theorem nextWords_block (key : Key) (counter : UInt64) :
    (⟨key, counter, []⟩ : Generator).nextWords 16 =
      ((block key counter).toList, ⟨key, counter + 1, []⟩) := by
  have hlength : (block key counter).toList.length = 16 := Vector.length_toList
  obtain ⟨w, words, hwords⟩ := List.exists_cons_of_length_eq_add_one hlength
  have hrest : words.length = 15 := by simpa [hwords] using hlength
  rw [nextWords]
  simp only [nextWord, hwords, List.headD_cons, List.tail_cons]
  rw [← hrest, nextWords_pending]

end ChaCha.Generator

namespace Uuid

open ChaCha Text

theorem draw_block (key : Key) (counter : UInt64) : draw ⟨key, counter, []⟩ =
    (ofWords (block key counter).toList, ⟨key, counter + 1, []⟩) := by
  rw [draw, Generator.nextWords_block]

/-- **The generator after so many uuids**: no word is left of the last block. -/
theorem after_draw (key : Key) (counter : UInt64) (n : Nat) :
    Supply.after draw ⟨key, counter, []⟩ n = ⟨key, counter + UInt64.ofNat n, []⟩ := by
  induction n generalizing counter with
  | zero => rw [Supply.after, show UInt64.ofNat 0 = 0 from rfl, UInt64.add_zero]
  | succ n ih =>
    rw [Supply.after, draw_block, ih, UInt64.ofNat_add, UInt64.add_assoc, UInt64.add_comm 1]
    rfl

theorem seeded_eq (seed counter : UInt64) :
    seeded seed counter.toNat = ofWords (block (keyOfSeed seed) counter).toList := by
  rw [seeded, Supply.unfold, Generator.ofSeed, after_draw, draw_block, UInt64.zero_add,
    UInt64.ofNat_toNat]

/-! ## Bytes -/

/-- The sixteen bytes of a uuid, the highest first. -/
def bytes (u : Uuid) : List Nat := places 256 16 u.bits.toNat

/-- Bytes with the version 4 in the seventh and the variant of the standard in the ninth. -/
def marked (bs : List Nat) : List Nat :=
  (bs.modify 6 fun b => 0x40 + b % 16).modify 8 fun b => 0x80 + b % 64

theorem places_and (width m n : Nat) : places 256 width (m &&& n) =
    List.zipWith (· &&& ·) (places 256 width m) (places 256 width n) := by
  rw [places, places, places, List.zipWith_map, List.zipWith_self]
  refine List.map_congr_left fun i _ => ?_
  rw [show 256 = 2 ^ 8 from rfl, ← Nat.pow_mul, Nat.and_div_two_pow, Nat.and_mod_two_pow]

theorem places_or (width m n : Nat) : places 256 width (m ||| n) =
    List.zipWith (· ||| ·) (places 256 width m) (places 256 width n) := by
  rw [places, places, places, List.zipWith_map, List.zipWith_self]
  refine List.map_congr_left fun i _ => ?_
  rw [show 256 = 2 ^ 8 from rfl, ← Nat.pow_mul, Nat.or_div_two_pow, Nat.or_mod_two_pow]

theorem bytes_asRandom (bits : BitVec 128) : bytes ⟨asRandom bits⟩ =
    List.zipWith (· ||| ·) (List.zipWith (· &&& ·) (places 256 16 bits.toNat)
      [255, 255, 255, 255, 255, 255, 15, 255, 63, 255, 255, 255, 255, 255, 255, 255])
      [0, 0, 0, 0, 0, 0, 64, 0, 128, 0, 0, 0, 0, 0, 0, 0] := by
  rw [bytes, asRandom, BitVec.toNat_or, BitVec.toNat_and, places_or, places_and]
  rfl

theorem bytes_ofRandomBytes {bs : List Nat} (hlength : bs.length = 16) (hbs : ∀ b ∈ bs, b < 256) :
    (ofRandomBytes bs).bytes = marked bs := by
  have hfold : bs.foldl (fun n b => 256 * n + b % 256) 0 = bs.foldl (fun n b => 256 * n + b) 0 :=
    List.foldl_ext _ _ _ fun n b hb => by rw [Nat.mod_eq_of_lt (hbs b hb)]
  have hlt : bs.foldl (fun n b => 256 * n + b) 0 < 2 ^ 128 := by
    have := foldl_lt hbs
    rwa [hlength] at this
  have hbytes : places 256 16 (bs.foldl (fun n b => 256 * n + b) 0) = bs := by
    have := places_foldl hbs
    rwa [hlength] at this
  rw [ofRandomBytes, bytes_asRandom, hfold, BitVec.toNat_ofNat, Nat.mod_eq_of_lt hlt, hbytes]
  -- the bytes one by one: all but two are kept
  have hkept : ∀ b < 256, b &&& 255 ||| 0 = b := by decide +kernel
  have hversion : ∀ b < 256, b &&& 15 ||| 64 = 0x40 + b % 16 := by decide +kernel
  have hvariant : ∀ b < 256, b &&& 63 ||| 128 = 0x80 + b % 64 := by decide +kernel
  refine List.ext_getElem (by simp [marked, hlength]) fun i hi _ => ?_
  have hi16 : i < 16 := by simpa [hlength] using hi
  have hbyte : bs[i] < 256 := hbs _ (List.getElem_mem _)
  simp only [List.getElem_zipWith, marked, List.getElem_modify]
  interval_cases i
  case «6» => exact hversion _ hbyte
  case «8» => exact hvariant _ hbyte
  all_goals exact hkept _ hbyte

/-- **The bytes of a uuid of a seed** are the low bytes of the block whose counter is the number of
uuids that were drawn before. -/
theorem bytes_seeded (seed counter : UInt64) : (seeded seed counter.toNat).bytes =
    marked ((block (keyOfSeed seed) counter).toList.map fun w => w.toNat % 256) := by
  rw [seeded_eq, ofWords]
  refine bytes_ofRandomBytes (by rw [List.length_map, Vector.length_toList]) fun b hb => ?_
  obtain ⟨w, -, rfl⟩ := List.mem_map.mp hb
  exact Nat.mod_lt _ (by decide)

end Uuid

end Methodology
