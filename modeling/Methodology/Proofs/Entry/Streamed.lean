import Methodology.Model
import Methodology.Proofs.Entry.Grammar
import Methodology.Proofs.Entry.Leaves
import Methodology.Proofs.Record.Streamed

/-!
# Models are read from their texts as from their values

A model is read from a text as its characters go by, or from the data value that the text is read as.
Both ways take the same texts and give the same drafts, as long as the text repeats no key: only the
value hides the first of two fields with one key.

* `RepeatsNoKey`: a text whose outermost mapping repeats no key.
* `RoutesAgree`: **both ways of reading** a model give the same.
* `Shape.fromText_readsAs`: shapes; `Entry.fromText_readsAs`: entries.
* `Model.Streamed`: the kinds of models of which this holds, with an instance for each.
* **`routesAgree_models`**: every model is read alike.
-/

namespace Methodology

open Json Result

/-- A text whose outermost mapping, if it is one, repeats no key. -/
def RepeatsNoKey (text : String) : Prop :=
  ∀ fields, written text = .ok (.object fields) → (fields.map Prod.fst).Nodup

/-- A reader of data values that does not look at the order of the fields of a mapping. -/
structure IgnoresOrder {α ε : Type} (ofValue : Json → Except ε α) : Prop where
  iff {v : Json} (hdistinct : ∀ fields, v = .object fields → (fields.map Prod.fst).Nodup) {a : α} :
    ofValue v.sorted = .ok a ↔ ofValue v = .ok a

/-- **Both ways of reading a model give the same**: a draft is read from a text exactly if the text is
read as a data value and the draft is read from that. -/
def RoutesAgree (α : Type) [Model α] (text : String) : Prop :=
  ∀ d : Model.Draft α, Model.readText α text = .ok d ↔
    ∃ v, Json.read text = .ok v ∧ Model.readValue α v = .ok d

/-! ## Shapes -/

namespace Shape

theorem nullFromText_eq_ok_iff {fuel depth : Nat} {cs rest : List Char} :
    nullFromText cs = .ok rest ↔ writtenFrom (fuel + 1) depth cs = .ok (.null, rest) := by
  constructor
  · intro h
    rw [nullFromText] at h
    split at h
    · cases h
    · next more hstart => exact writtenFrom_null hstart (mapError_eq_ok.mp h)
    · cases h
  · intro h
    cases lexed_of_writtenFrom h with
    | null hstart hword =>
      rw [nullFromText, hstart]
      exact mapError_eq_ok.mpr hword

theorem wordFromText_eq_ok_iff {cs rest : List Char} {shape : Shape} :
    wordFromText cs = .ok (shape, rest) ↔
      ∃ s, stringFrom cs = .ok (s, rest) ∧ ofWord s = .ok shape := by
  rw [wordFromText]
  constructor
  · intro h
    obtain ⟨⟨s, left⟩, hs, h⟩ := bind_eq_ok.mp h
    simp only at h
    split at h
    · next hword =>
      cases h
      exact ⟨s, mapError_eq_ok.mp hs, hword⟩
    · cases h
  · rintro ⟨s, hs, hword⟩
    refine bind_eq_ok.mpr ⟨_, mapError_eq_ok.mpr hs, ?_⟩
    simp only [hword]

/-- A shape is the text of its word, or a mapping with the word as its only key and null under it. -/
theorem ofValue_eq_ok_iff {v : Json} {shape : Shape} : ofValue v = .ok shape ↔
    ∃ s, ofWord s = .ok shape ∧ (v = .string s ∨ v = .object [(s, .null)]) := by
  constructor
  · intro h
    rw [ofValue.eq_def] at h
    split at h
    · next s => exact ⟨s, h, .inl rfl⟩
    · next key value =>
      obtain ⟨shape', hword, h⟩ := bind_eq_ok.mp h
      cases value with
      | null =>
        cases h
        exact ⟨key, hword, .inr rfl⟩
      | _ => cases h
    · cases h
    · cases h
  · rintro ⟨s, hword, rfl | rfl⟩
    · exact hword
    · exact bind_eq_ok.mpr ⟨shape, hword, rfl⟩

theorem fromText_mapping_iff {cs more rest : List Char} (h : skipBlanks cs = '\x7b' :: more)
    {shape : Shape} : fromText cs = .ok (shape, rest) ↔
      ∃ inside behind colonless left, nextKey true more = .ok (some inside) ∧
        wordFromText inside = .ok (shape, behind) ∧ colon behind = .ok colonless ∧
        nullFromText colonless = .ok left ∧ skipBlanks left = '\x7d' :: rest := by
  rw [fromText, h]
  constructor
  · intro h
    obtain ⟨next, hnext, h⟩ := bind_eq_ok.mp h
    cases next with
    | none => cases h
    | some inside =>
      obtain ⟨⟨shape', behind⟩, hword, h⟩ := bind_eq_ok.mp h
      obtain ⟨colonless, hcolon, h⟩ := bind_eq_ok.mp h
      obtain ⟨left, hnull, h⟩ := bind_eq_ok.mp h
      split at h
      · cases h
      · next hleft =>
        split at h
        · next hend =>
          cases h
          exact ⟨inside, behind, colonless, left, mapError_eq_ok.mp hnext, hword,
            mapError_eq_ok.mp hcolon, hnull, hend ▸ hleft⟩
        · cases h
  · rintro ⟨inside, behind, colonless, left, hnext, hword, hcolon, hnull, hend⟩
    refine bind_eq_ok.mpr ⟨_, mapError_eq_ok.mpr hnext, bind_eq_ok.mpr ⟨_, hword, ?_⟩⟩
    refine bind_eq_ok.mpr ⟨_, mapError_eq_ok.mpr hcolon, bind_eq_ok.mpr ⟨_, hnull, ?_⟩⟩
    simp only [hend, if_true]

theorem writtenFields_single_iff {fuel depth : Nat} {more rest : List Char} {s : String} :
    writtenFields (fuel + 2) depth true more = .ok ([(s, .null)], rest) ↔
      ∃ inside behind colonless left, nextKey true more = .ok (some inside) ∧
        stringFrom inside = .ok (s, behind) ∧ colon behind = .ok colonless ∧
        nullFromText colonless = .ok left ∧ skipBlanks left = '\x7d' :: rest := by
  rw [writtenFields_succ_eq_ok_iff]
  constructor
  · rintro (⟨-, h⟩ | ⟨inside, key, behind, colonless, value, left, others, hnext, hkey, hcolon,
      hvalue, hothers, heq⟩)
    · cases h
    · cases heq
      refine ⟨inside, behind, colonless, left, hnext, hkey, hcolon,
        nullFromText_eq_ok_iff.mpr hvalue, ?_⟩
      rcases writtenFields_succ_eq_ok_iff.mp hothers with
        ⟨hend, -⟩ | ⟨_, _, _, _, _, _, _, -, -, -, -, -, h⟩
      · exact hend
      · cases h
  · rintro ⟨inside, behind, colonless, left, hnext, hkey, hcolon, hnull, hend⟩
    exact .inr ⟨inside, s, behind, colonless, .null, left, [], hnext, hkey, hcolon,
      nullFromText_eq_ok_iff.mp hnull, writtenFields_succ_eq_ok_iff.mpr (.inl ⟨hend, rfl⟩), rfl⟩

/-- **A shape** is taken from the texts in which it is written. -/
theorem fromText_readsAs : ReadsAs 2 ofValue fromText where
  iff {fuel depth cs} hfuel hdepth {shape rest} := by
    have hmapping : ∀ more, skipBlanks cs = '\x7b' :: more →
        (fromText cs = .ok (shape, rest) ↔ ∃ s, ofWord s = .ok shape ∧
          writtenFrom (fuel + 1) depth cs = .ok (.object [(s, .null)], rest)) := by
      intro more hstart
      have hmore := lt_of_skipBlanks hstart
      obtain ⟨fuel, rfl⟩ : ∃ n, fuel = n + 2 := ⟨fuel - 2, by omega⟩
      simp only [fromText_mapping_iff hstart, writtenFrom_mapping hstart hdepth,
        writtenFields_single_iff, wordFromText_eq_ok_iff]
      constructor
      · rintro ⟨inside, behind, colonless, left, hnext, ⟨s, hs, hword⟩, hrest⟩
        exact ⟨s, hword, inside, behind, colonless, left, hnext, hs, hrest⟩
      · rintro ⟨s, hword, inside, behind, colonless, left, hnext, hs, hrest⟩
        exact ⟨inside, behind, colonless, left, hnext, ⟨s, hs, hword⟩, hrest⟩
    simp only [ofValue_eq_ok_iff]
    constructor
    · intro h
      have hread := h
      rw [fromText] at hread
      split at hread
      · cases hread
      · next more hstart =>
        obtain ⟨s, hs, hword⟩ := wordFromText_eq_ok_iff.mp hread
        exact ⟨_, writtenFrom_string hstart hs, s, hword, .inl rfl⟩
      · next more hstart =>
        obtain ⟨s, hword, hv⟩ := (hmapping more hstart).mp h
        exact ⟨_, hv, s, hword, .inr rfl⟩
      · cases hread
    · rintro ⟨v, hv, s, hword, rfl | rfl⟩
      · cases lexed_of_writtenFrom hv with
        | string hstart hs =>
          rw [fromText, hstart]
          exact wordFromText_eq_ok_iff.mpr ⟨s, hs, hword⟩
      · cases lexed_of_writtenFrom hv with
        | mapping hstart => exact (hmapping _ hstart).mpr ⟨s, hword, hv⟩

theorem sortedFields_eq_single_iff {fields : List (String × Json)} {s : String} :
    sortedFields fields = [(s, .null)] ↔ fields = [(s, .null)] := by
  have hnull : ∀ v : Json, v.sorted = .null ↔ v = .null := by
    intro v
    cases v <;> simp only [sorted, reduceCtorEq]
  rw [sortedFields_eq_map, List.map_eq_singleton_iff]
  simp only [Prod.mk.injEq, hnull]
  constructor
  · rintro ⟨f, rfl, rfl, hvalue⟩
    rw [← hvalue]
  · rintro rfl
    exact ⟨_, rfl, rfl, rfl⟩

theorem ofValue_ignoresOrder : IgnoresOrder ofValue where
  iff {v} hdistinct {shape} := by
    cases v with
    | object fields =>
      have hperm := perm_sortFields (keys_sortedFields fields ▸ hdistinct fields rfl)
      have hsingle : ∀ s, sortFields (sortedFields fields) = [(s, .null)] ↔
          fields = [(s, .null)] := by
        intro s
        rw [← List.perm_singleton, hperm.congr_left, List.perm_singleton,
          sortedFields_eq_single_iff]
      rw [sorted, ofValue_eq_ok_iff, ofValue_eq_ok_iff]
      simp only [object.injEq, hsingle, reduceCtorEq, false_or]
    | _ => exact .rfl

end Shape

/-! ## Models -/

theorem Field.Kind.ofValue_ignoresOrder (k : Field.Kind) : IgnoresOrder k.ofValue where
  iff {v} _ {a} := by rw [k.ofValue_sorted]

theorem MimeType.ofValue_ignoresOrder : IgnoresOrder MimeType.ofValue where
  iff {v} _ {a} := by
    have htext : textOfValue v.sorted = textOfValue v := Field.Kind.ofValue_sorted .text v
    rw [MimeType.ofValue, MimeType.ofValue, htext]

theorem Entry.ofValue_ignoresOrder {α : Type} [Entry α] (hnodup : (Entry.schema α).names.Nodup) :
    IgnoresOrder (Entry.ofValue α) where
  iff {_} hdistinct {_} := by
    simp only [Entry.ofValue, bind_eq_ok, Record.ofValue_sorted hnodup hdistinct]

/-- **An entry** is taken from the texts in which it is written. -/
theorem Entry.fromText_readsAs (α : Type) [Entry α] :
    ReadsAs 2 (Entry.ofValue α) (Entry.fromText α) := by
  refine (Record.fromText_readsAs (Entry.schema α)).bind fun record rest d rest' => ?_
  simp only
  cases Entry.build record with
  | error e => exact ⟨fun h => (nomatch h), fun h => nomatch h.1⟩
  | ok draft =>
    constructor
    · intro h
      cases h
      exact ⟨rfl, rfl⟩
    · rintro ⟨h, rfl⟩
      cases h
      rfl

/-- **A kind of model that is streamed**: it is taken from the texts in which it is written, and the
order of fields does not matter to it. -/
class Model.Streamed (α : Type) [Model α] : Prop where
  readsAs : ReadsAs 2 (Model.readValue α) Model.fromText
  ignoresOrder : IgnoresOrder (Model.readValue α)

instance {α : Type} [Entry α] [Entry.Written α] : Model.Streamed α :=
  ⟨Entry.fromText_readsAs α, Entry.ofValue_ignoresOrder Entry.Written.nodup⟩

instance : Model.Streamed Term :=
  ⟨Term.fromText_readsAs 2, Field.Kind.ofValue_ignoresOrder .term⟩

instance : Model.Streamed Instant :=
  ⟨Field.Kind.fromText_readsAs .instant 2, Field.Kind.ofValue_ignoresOrder .instant⟩

instance : Model.Streamed MimeType :=
  ⟨checkedFromText_readsAs 2 MimeType.ofContentType .mime, MimeType.ofValue_ignoresOrder⟩

instance : Model.Streamed Shape := ⟨Shape.fromText_readsAs, Shape.ofValue_ignoresOrder⟩

instance : Model.Streamed Uuid :=
  ⟨Field.Kind.fromText_readsAs .uuid 2, Field.Kind.ofValue_ignoresOrder .uuid⟩

/-- **What is streamed is read from what is written in a text.** -/
theorem Model.readText_eq_ok_iff {α : Type} [Model α] [Model.Streamed α] {text : String}
    {d : Draft α} :
    readText α text = .ok d ↔ ∃ v, written text = .ok v ∧ readValue α v = .ok d := by
  have hfuel : 2 * text.toList.length ≤ 2 * text.length + 1 := by
    rw [String.length_toList]
    omega
  have hdepth : 2 ≤ depthLimit := by decide
  constructor
  · intro hd
    obtain ⟨⟨d', rest⟩, hd', hd⟩ := bind_eq_ok.mp hd
    obtain ⟨_, hrest, hd⟩ := bind_eq_ok.mp hd
    cases hd
    obtain ⟨v, hv, hd⟩ := (Model.Streamed.readsAs.iff hfuel hdepth).mp hd'
    have hwritten : written text = .ok v :=
      bind_eq_ok.mpr ⟨_, hv, bind_eq_ok.mpr ⟨(), mapError_eq_ok.mp hrest, rfl⟩⟩
    exact ⟨v, hwritten, hd⟩
  · rintro ⟨v, hwritten, hd⟩
    obtain ⟨⟨v', rest⟩, hv, hfinish⟩ := bind_eq_ok.mp hwritten
    obtain ⟨_, hrest, heq⟩ := bind_eq_ok.mp hfinish
    cases heq
    have hd' := (Model.Streamed.readsAs.iff hfuel hdepth).mpr ⟨v, hv, hd⟩
    exact bind_eq_ok.mpr ⟨_, hd', bind_eq_ok.mpr ⟨(), mapError_eq_ok.mpr hrest, rfl⟩⟩

theorem routesAgree_of {α : Type} [Model α] [Model.Streamed α] {text : String}
    (h : RepeatsNoKey text) : RoutesAgree α text := by
  intro d
  rw [Model.readText_eq_ok_iff, read_eq_written]
  constructor
  · rintro ⟨v, hwritten, hd⟩
    refine ⟨v.sorted, by rw [hwritten, map_ok], ?_⟩
    exact (Model.Streamed.ignoresOrder.iff fun fields heq => h fields (heq ▸ hwritten)).mpr hd
  · rintro ⟨w, hw, hd⟩
    obtain ⟨v, hwritten, rfl⟩ := map_eq_ok.mp hw
    exact ⟨v, hwritten,
      (Model.Streamed.ignoresOrder.iff fun fields heq => h fields (heq ▸ hwritten)).mp hd⟩

theorem Model.readText_iff_of_written {α : Type} [Model α] [Model.Streamed α] {text : String}
    {v : Json} (hwritten : written text = .ok v)
    (hdistinct : ∀ fields, v = .object fields → (fields.map Prod.fst).Nodup) {d : Draft α} :
    readText α text = .ok d ↔ readValue α v.sorted = .ok d := by
  have hkeys : RepeatsNoKey text := fun fields hfields =>
    hdistinct fields (Except.ok.inj (hwritten.symm.trans hfields))
  rw [routesAgree_of hkeys d, read_eq_written, hwritten, map_ok]
  simp only [Except.ok.injEq, exists_eq_left']

/-- **Every model is read alike** from a text and from the data value that the text is read as, in
whatever order the fields stand: both ways take the same texts and give the same drafts. -/
theorem routesAgree_models {text : String} (h : RepeatsNoKey text) :
    RoutesAgree Modifier text ∧ RoutesAgree Category text ∧ RoutesAgree Term text ∧
    RoutesAgree Action text ∧ RoutesAgree Script text ∧ RoutesAgree Stamp text ∧
    RoutesAgree Instant text ∧ RoutesAgree MimeType text ∧ RoutesAgree Shape text ∧
    RoutesAgree Uuid text :=
  ⟨routesAgree_of h, routesAgree_of h, routesAgree_of h, routesAgree_of h, routesAgree_of h,
    routesAgree_of h, routesAgree_of h, routesAgree_of h, routesAgree_of h, routesAgree_of h⟩

/-- A modifier with its title first, an escape and blanks. -/
def swappedText : String :=
  " \x7b \"title\" : \"M\\u0065rge\" ,\n\t\"name\":\" + \" \x7d "

theorem routesAgree_models_swappedText : RepeatsNoKey swappedText ∧
    ∃ v, Json.read swappedText = .ok v ∧ Model.readValue Modifier v = .ok ⟨"+", "Merge"⟩ := by
  have hkeys : (written swappedText).map (fun v => match v with
      | .object fields => fields.map Prod.fst
      | _ => []) = .ok ["title", "name"] := by decide +kernel
  have h : RepeatsNoKey swappedText := by
    intro fields hfields
    rw [hfields, map_ok] at hkeys
    have hkeys : fields.map Prod.fst = ["title", "name"] := Except.ok.inj hkeys
    rw [hkeys]
    decide
  have hread : (show Option Modifier from (Model.readText Modifier swappedText).toOption) =
      some ⟨"+", "Merge"⟩ := by decide +kernel
  exact ⟨h, ((routesAgree_models h).1 _).mp (toOption_eq_some.mp hread)⟩

end Methodology
