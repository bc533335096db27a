import Methodology.Proofs.Entry.Streamed

/-!
# Types that are written as a word

A shape and a file type are each written as one word. A file type is decoded from the words that
lead to it and from nothing else. A shape has a second decoder, which also takes a mapping that has
the word as its only key and null under it.

* `MimeType.readValue_eq_ok_iff`, `MimeType.readText_eq_ok_iff`: file types from values and texts.
* `Shape.readValue_eq_ok_iff`, `Shape.readText_eq_ok_iff`: shapes; `Shape.readValue_iff_string`:
  where they are words alone.
* **`literals_decoded`**: what is decoded, from data values and from texts.
* `not_literals_alike`: not every shape that is decoded is a word.
-/

namespace Methodology

open Json Result

namespace MimeType

theorem readValue_eq_ok_iff {v : Json} {m : MimeType} :
    Model.readValue MimeType v = .ok m ↔ ∃ s, v = .string s ∧ ofContentType s = .ok m := by
  change ofValue v = .ok m ↔ _
  simp only [ofValue, bind_eq_ok, textOfValue_eq_ok, mapError_eq_ok]

theorem readText_eq_ok_iff {text : String} {m : MimeType} :
    Model.readText MimeType text = .ok m ↔
      ∃ s, written text = .ok (.string s) ∧ ofContentType s = .ok m := by
  simp only [Model.readText_eq_ok_iff, readValue_eq_ok_iff]
  constructor
  · rintro ⟨_, hv, s, rfl, hs⟩
    exact ⟨s, hv, hs⟩
  · rintro ⟨s, hv, hs⟩
    exact ⟨_, hv, s, rfl, hs⟩

end MimeType

namespace Shape

theorem ofWord_eq_ok_iff {s : String} {shape : Shape} :
    ofWord s = .ok shape ↔ read s = .ok shape := by
  rw [ofWord, read]
  cases ofWord? s with
  | none => simp only [reduceCtorEq]
  | some other => simp only [Except.ok.injEq]

theorem readValue_eq_ok_iff {v : Json} {shape : Shape} : Model.readValue Shape v = .ok shape ↔
    ∃ s, (v = .string s ∨ v = .object [(s, .null)]) ∧ read s = .ok shape := by
  change ofValue v = .ok shape ↔ _
  simp only [ofValue_eq_ok_iff, ofWord_eq_ok_iff, and_comm]

theorem readText_eq_ok_iff {text : String} {shape : Shape} :
    Model.readText Shape text = .ok shape ↔
      ∃ s, (written text = .ok (.string s) ∨ written text = .ok (.object [(s, .null)])) ∧
        read s = .ok shape := by
  simp only [Model.readText_eq_ok_iff, readValue_eq_ok_iff]
  constructor
  · rintro ⟨_, hv, s, rfl | rfl, hs⟩
    · exact ⟨s, .inl hv, hs⟩
    · exact ⟨s, .inr hv, hs⟩
  · rintro ⟨s, hv | hv, hs⟩
    · exact ⟨_, hv, s, .inl rfl, hs⟩
    · exact ⟨_, hv, s, .inr rfl, hs⟩

/-- A mapping with the word for a shape as its only key and null under it. -/
def IsKeyed (v : Json) : Prop := ∃ s shape, v = .object [(s, .null)] ∧ read s = .ok shape

/-- **Where the decoder takes words and nothing else**: on everything but such a mapping. -/
theorem readValue_iff_string {v : Json} :
    (∀ shape : Shape, Model.readValue Shape v = .ok shape ↔
      ∃ s, v = .string s ∧ read s = .ok shape) ↔ ¬ IsKeyed v := by
  constructor
  · rintro hstring ⟨word, shape, rfl, hword⟩
    have hread : Model.readValue Shape (.object [(word, .null)]) = .ok shape :=
      readValue_eq_ok_iff.mpr ⟨word, .inr rfl, hword⟩
    obtain ⟨s, hs, -⟩ := (hstring shape).mp hread
    cases hs
  · intro hkeyed shape
    rw [readValue_eq_ok_iff]
    constructor
    · rintro ⟨s, rfl | rfl, hs⟩
      · exact ⟨s, rfl, hs⟩
      · exact absurd ⟨s, shape, rfl, hs⟩ hkeyed
    · rintro ⟨s, hv, hs⟩
      exact ⟨s, .inl hv, hs⟩

end Shape

/-- **What is decoded as a file type or as a shape.** A file type is a string that leads to it. A
shape is its word, as a string or as the only key of a mapping with null under it, so that strings
alone are decoded exactly where there is no such mapping. No other value is decoded, and a text is
decoded as the value that is written in it. -/
theorem literals_decoded (v : Json) (text : String) :
    (∀ m : MimeType, Model.readValue MimeType v = .ok m ↔
      ∃ s, v = .string s ∧ MimeType.ofContentType s = .ok m) ∧
    (∀ shape : Shape, Model.readValue Shape v = .ok shape ↔
      ∃ s, (v = .string s ∨ v = .object [(s, .null)]) ∧ Shape.read s = .ok shape) ∧
    ((∀ shape : Shape, Model.readValue Shape v = .ok shape ↔
      ∃ s, v = .string s ∧ Shape.read s = .ok shape) ↔ ¬ Shape.IsKeyed v) ∧
    (∀ m : MimeType, Model.readText MimeType text = .ok m ↔
      ∃ s, written text = .ok (.string s) ∧ MimeType.ofContentType s = .ok m) ∧
    ∀ shape : Shape, Model.readText Shape text = .ok shape ↔
      ∃ s, (written text = .ok (.string s) ∨ written text = .ok (.object [(s, .null)])) ∧
        Shape.read s = .ok shape :=
  ⟨fun _ => MimeType.readValue_eq_ok_iff, fun _ => Shape.readValue_eq_ok_iff,
    Shape.readValue_iff_string, fun _ => MimeType.readText_eq_ok_iff,
    fun _ => Shape.readText_eq_ok_iff⟩

/-- A mapping with the word for a shape as its only key. -/
def keyedShape : Json := .object [("unique", .null)]

/-- **A mapping is decoded as a shape**, although it is no string. -/
theorem not_literals_alike :
    ¬ ∀ (v : Json) (shape : Shape), Model.readValue Shape v = .ok shape ↔
      ∃ s, v = .string s ∧ Shape.read s = .ok shape := by
  intro h
  have hread : Model.readValue Shape keyedShape = .ok .unique := rfl
  obtain ⟨s, hs, -⟩ := (h keyedShape .unique).mp hread
  cases hs

end Methodology
