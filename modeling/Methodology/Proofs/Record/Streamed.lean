import Methodology.Proofs.Json.Steps
import Methodology.Proofs.Record.Grammar
import Methodology.Record.OfText

/-!
# Records are read as their text goes by

A reader of texts takes a record field by field, with no data value between. It takes exactly the
texts in which a data value is written that is the record, and it gives the same record.

* `ReadsAs`: a reader of texts takes what is written and read as a data value.
* `textFromText_readsAs`, `Term.fromText_readsAs`, `Field.fromText_readsAs`: **fields**.
* `Record.rowFromText_eq_ok_iff`, `Record.itemsFromText_iff`: **the two loops**, over the
  fields of a mapping and the items of a list.
* **`Record.fromText_readsAs`**: records.
-/

namespace Methodology

open Json Result

/-- **A reader of texts takes what is written and read as a data value**: it succeeds at the start of
a text exactly if a value is written there that is read, with the same result and the same rest.
Lists and mappings have to be allowed to stand `nesting` levels inside one another. -/
structure ReadsAs {α ε ε' : Type} (nesting : Nat) (ofValue : Json → Except ε α)
    (fromText : List Char → Except ε' (α × List Char)) : Prop where
  iff {fuel depth : Nat} {cs : List Char} (hfuel : 2 * cs.length ≤ fuel) (hdepth : nesting ≤ depth)
    {a : α} {rest : List Char} : fromText cs = .ok (a, rest) ↔
      ∃ v, writtenFrom (fuel + 1) depth cs = .ok (v, rest) ∧ ofValue v = .ok a

theorem ReadsAs.bind {α β ε ε' : Type} {nesting : Nat} {ofValue : Json → Except ε α}
    {fromText : List Char → Except ε' (α × List Char)} (h : ReadsAs nesting ofValue fromText)
    {f : α → Except ε β} {g : α × List Char → Except ε' (β × List Char)}
    (hg : ∀ a rest b rest', g (a, rest) = .ok (b, rest') ↔ f a = .ok b ∧ rest = rest') :
    ReadsAs nesting (fun v => ofValue v >>= f) (fun cs => fromText cs >>= g) where
  iff {_ _ _} hfuel hdepth {b rest} := by
    constructor
    · intro hb
      obtain ⟨⟨a, rest'⟩, ha, hb⟩ := bind_eq_ok.mp hb
      obtain ⟨hf, rfl⟩ := (hg a rest' b rest).mp hb
      obtain ⟨v, hv, ha⟩ := (h.iff hfuel hdepth).mp ha
      exact ⟨v, hv, bind_eq_ok.mpr ⟨a, ha, hf⟩⟩
    · rintro ⟨v, hv, hb⟩
      obtain ⟨a, ha, hb⟩ := bind_eq_ok.mp hb
      have hread := (h.iff hfuel hdepth).mpr ⟨v, hv, ha⟩
      exact bind_eq_ok.mpr ⟨(a, rest), hread, (hg a rest b rest).mpr ⟨hb, rfl⟩⟩

/-! ## Values without parts -/

theorem writtenFrom_skipBlanks (fuel depth : Nat) (cs : List Char) :
    writtenFrom (fuel + 1) depth (skipBlanks cs) = writtenFrom (fuel + 1) depth cs := by
  simp only [writtenFrom, valueFrom, skipBlanks_skipBlanks]

theorem writtenFrom_scalar {fuel depth : Nat} {cs more : List Char} {c : Char}
    (h : skipBlanks cs = c :: more) (hlist : c ≠ '[') (hmapping : c ≠ '\x7b') :
    writtenFrom (fuel + 1) depth cs = valueFrom 1 1 cs := by
  rw [writtenFrom]
  split
  · next hstart => exact absurd (List.cons.inj (h.symm.trans hstart)).1 hlist
  · next hstart => exact absurd (List.cons.inj (h.symm.trans hstart)).1 hmapping
  · rfl

theorem writtenFrom_null {fuel depth : Nat} {cs more rest : List Char}
    (h : skipBlanks cs = 'n' :: more) (hword : word ['u', 'l', 'l'] more = .ok rest) :
    writtenFrom (fuel + 1) depth cs = .ok (.null, rest) := by
  rw [writtenFrom_scalar h (by decide) (by decide), valueFrom, h]
  exact map_eq_ok.mpr ⟨rest, hword, rfl⟩

theorem writtenFrom_true {fuel depth : Nat} {cs more rest : List Char}
    (h : skipBlanks cs = 't' :: more) (hword : word ['r', 'u', 'e'] more = .ok rest) :
    writtenFrom (fuel + 1) depth cs = .ok (.bool true, rest) := by
  rw [writtenFrom_scalar h (by decide) (by decide), valueFrom, h]
  exact map_eq_ok.mpr ⟨rest, hword, rfl⟩

theorem writtenFrom_false {fuel depth : Nat} {cs more rest : List Char}
    (h : skipBlanks cs = 'f' :: more) (hword : word ['a', 'l', 's', 'e'] more = .ok rest) :
    writtenFrom (fuel + 1) depth cs = .ok (.bool false, rest) := by
  rw [writtenFrom_scalar h (by decide) (by decide), valueFrom, h]
  exact map_eq_ok.mpr ⟨rest, hword, rfl⟩

theorem writtenFrom_string {fuel depth : Nat} {cs more rest : List Char} {s : String}
    (h : skipBlanks cs = '"' :: more) (hchars : stringFrom more = .ok (s, rest)) :
    writtenFrom (fuel + 1) depth cs = .ok (.string s, rest) := by
  rw [writtenFrom_scalar h (by decide) (by decide), valueFrom, h]
  exact map_eq_ok.mpr ⟨_, hchars, rfl⟩

theorem writtenFrom_list {fuel depth : Nat} {cs more rest : List Char} {items : List Json}
    (h : skipBlanks cs = '[' :: more) (hdepth : 2 ≤ depth) :
    writtenFrom (fuel + 1) depth cs = .ok (.array items, rest) ↔
      writtenItems fuel (depth - 1) true more = .ok (items, rest) := by
  rw [writtenFrom, h]
  simp only [if_neg (Nat.not_le.mpr hdepth), map_eq_ok]
  constructor
  · rintro ⟨r, hr, heq⟩
    cases heq
    exact hr
  · exact fun h => ⟨_, h, rfl⟩

theorem writtenFrom_mapping {fuel depth : Nat} {cs more rest : List Char}
    {fields : List (String × Json)} (h : skipBlanks cs = '\x7b' :: more) (hdepth : 2 ≤ depth) :
    writtenFrom (fuel + 1) depth cs = .ok (.object fields, rest) ↔
      writtenFields fuel (depth - 1) true more = .ok (fields, rest) := by
  rw [writtenFrom, h]
  simp only [if_neg (Nat.not_le.mpr hdepth), map_eq_ok]
  constructor
  · rintro ⟨r, hr, heq⟩
    cases heq
    exact hr
  · exact fun h => ⟨_, h, rfl⟩

theorem textFromText_readsAs (nesting : Nat) : ReadsAs nesting textOfValue textFromText where
  iff {_ _ _} _ _ {s rest} := by
    constructor
    · intro h
      rw [textFromText] at h
      split at h
      · cases h
      · next more hstart =>
        exact ⟨.string s, writtenFrom_string hstart (mapError_eq_ok.mp h), rfl⟩
      · cases h
    · rintro ⟨v, hv, hs⟩
      obtain rfl := textOfValue_eq_ok.mp hs
      cases lexed_of_writtenFrom hv with
      | string hstart hchars =>
        rw [textFromText, hstart]
        exact mapError_eq_ok.mpr hchars

theorem checkedFromText_readsAs {α ε : Type} (nesting : Nat) (read : String → Except ε α)
    (misread : ε → Misread) :
    ReadsAs nesting (fun v => textOfValue v >>= fun s => (read s).mapError misread)
      (checkedFromText read misread) := by
  refine (textFromText_readsAs nesting).bind fun s rest a rest' => ?_
  cases hread : read s with
  | error e =>
    simp only [hread]
    exact ⟨fun h => (nomatch h), fun h => nomatch h.1⟩
  | ok b =>
    simp only [hread]
    constructor
    · intro h
      cases h
      exact ⟨rfl, rfl⟩
    · rintro ⟨h, rfl⟩
      cases h
      rfl

theorem Term.fromText_readsAs (nesting : Nat) : ReadsAs nesting Term.ofValue Term.fromText where
  iff {_ _ _} _ _ {t rest} := by
    constructor
    · intro h
      rw [Term.fromText] at h
      split at h
      · cases h
      · next more hstart =>
        obtain ⟨⟨s, left⟩, hchars, heq⟩ := map_eq_ok.mp (mapError_eq_ok.mp h)
        cases heq
        exact ⟨.string s, writtenFrom_string hstart hchars, rfl⟩
      · next more hstart =>
        obtain ⟨left, hword, heq⟩ := map_eq_ok.mp (mapError_eq_ok.mp h)
        cases heq
        exact ⟨.bool true, writtenFrom_true hstart hword, rfl⟩
      · next more hstart =>
        obtain ⟨left, hword, heq⟩ := map_eq_ok.mp (mapError_eq_ok.mp h)
        cases heq
        exact ⟨.bool false, writtenFrom_false hstart hword, rfl⟩
      · cases h
      · cases h
      · cases h
    · rintro ⟨v, hv, ht⟩
      cases lexed_of_writtenFrom hv with
      | yes hstart hword =>
        cases ht
        rw [Term.fromText, hstart]
        exact mapError_eq_ok.mpr (map_eq_ok.mpr ⟨rest, hword, rfl⟩)
      | no hstart hword =>
        cases ht
        rw [Term.fromText, hstart]
        exact mapError_eq_ok.mpr (map_eq_ok.mpr ⟨rest, hword, rfl⟩)
      | string hstart hchars =>
        cases ht
        rw [Term.fromText, hstart]
        exact mapError_eq_ok.mpr (map_eq_ok.mpr ⟨_, hchars, rfl⟩)
      | _ => cases ht

theorem Field.Kind.fromText_readsAs (k : Field.Kind) (nesting : Nat) :
    ReadsAs nesting k.ofValue k.fromText := by
  cases k with
  | text => exact textFromText_readsAs nesting
  | term => exact Term.fromText_readsAs nesting
  | uuid => exact checkedFromText_readsAs nesting Uuid.read .field
  | instant => exact checkedFromText_readsAs nesting Instant.read .field

theorem Field.fromText_optional {name : String} {k : Field.Kind} {cs : List Char}
    (h : ∀ more, skipBlanks cs ≠ 'n' :: more) : Field.fromText ⟨name, k, true⟩ cs =
      (k.fromText (skipBlanks cs)).map fun r => (some r.1, r.2) := by
  simp only [Field.fromText]

theorem Field.fromText_readsAs (f : Field) (nesting : Nat) :
    ReadsAs nesting f.ofValue f.fromText := by
  obtain ⟨name, k, optional⟩ := f
  cases optional with
  | false => exact k.fromText_readsAs nesting
  | true =>
    refine ⟨fun {fuel depth cs} hfuel hdepth {slot rest} => ?_⟩
    have hskip : 2 * (skipBlanks cs).length ≤ fuel := by
      have hle := length_skipBlanks_le cs
      omega
    have hkind : ∀ {c}, k.fromText (skipBlanks cs) = .ok (c, rest) ↔
        ∃ v, writtenFrom (fuel + 1) depth cs = .ok (v, rest) ∧ k.ofValue v = .ok c := by
      intro c
      rw [← writtenFrom_skipBlanks]
      exact (k.fromText_readsAs nesting).iff hskip hdepth
    constructor
    · intro h
      simp only [Field.fromText] at h
      split at h
      · next more hstart =>
        obtain ⟨left, hword, heq⟩ := map_eq_ok.mp (mapError_eq_ok.mp h)
        cases heq
        exact ⟨.null, writtenFrom_null hstart hword, rfl⟩
      · obtain ⟨⟨c, left⟩, hc, heq⟩ := map_eq_ok.mp h
        cases heq
        obtain ⟨v, hv, hc⟩ := hkind.mp hc
        have hnull : v ≠ .null := (k.ofValue_eq_ok_iff.mp hc).ne_null
        refine ⟨v, hv, ?_⟩
        rw [Field.ofValue.eq_2 _ _ _ hnull]
        exact map_eq_ok.mpr ⟨c, hc, rfl⟩
    · rintro ⟨v, hv, hslot⟩
      have hlexed := lexed_of_writtenFrom hv
      by_cases hnull : v = .null
      · subst hnull
        cases hslot
        cases hlexed with
        | null hstart hword =>
          simp only [Field.fromText, hstart]
          exact mapError_eq_ok.mpr (map_eq_ok.mpr ⟨rest, hword, rfl⟩)
      · have hstart : ∀ more, skipBlanks cs ≠ 'n' :: more := by
          intro more hmore
          rcases Field.ofValue_cases _ hslot with rfl | ⟨b, rfl⟩ | ⟨s, rfl⟩
          · exact hnull rfl
          · cases hlexed with
            | yes hstart => cases hstart.symm.trans hmore
            | no hstart => cases hstart.symm.trans hmore
          · cases hlexed with
            | string hstart => cases hstart.symm.trans hmore
        rw [Field.ofValue.eq_2 _ _ _ hnull] at hslot
        obtain ⟨c, hc, rfl⟩ := map_eq_ok.mp hslot
        rw [Field.fromText_optional hstart]
        exact map_eq_ok.mpr ⟨(c, rest), hkind.mpr ⟨v, hv, hc⟩, rfl⟩

theorem Field.lt_of_fromText (f : Field) {cs rest : List Char} {slot : f.Slot}
    (h : f.fromText cs = .ok (slot, rest)) : rest.length < cs.length := by
  obtain ⟨v, hv, hslot⟩ := ((f.fromText_readsAs 0).iff (Nat.le_refl _) (Nat.le_refl 0)).mp h
  have hlexed := lexed_of_writtenFrom hv
  rcases f.ofValue_cases hslot with rfl | ⟨b, rfl⟩ | ⟨s, rfl⟩
  · cases hlexed with
    | null hstart hword => exact Nat.lt_of_le_of_lt (le_of_word hword) (lt_of_skipBlanks hstart)
  · cases hlexed with
    | yes hstart hword => exact Nat.lt_of_le_of_lt (le_of_word hword) (lt_of_skipBlanks hstart)
    | no hstart hword => exact Nat.lt_of_le_of_lt (le_of_word hword) (lt_of_skipBlanks hstart)
  · cases hlexed with
    | string hstart hchars => exact Nat.lt_trans (lt_of_stringFrom hchars) (lt_of_skipBlanks hstart)

/-! ## Mappings -/

namespace Record

variable {s : Schema}

/-- **One field of a text** is put in its slot, or the mapping ends. -/
theorem rowFromText_succ_eq_ok_iff {fuel : Nat} {first : Bool} {row row' : Row s.fields}
    {cs left : List Char} : rowFromText s (fuel + 1) first row cs = .ok (row', left) ↔
      (nextKey first cs = .ok none ∧ row = row' ∧ skipBlanks cs = left) ∨
      ∃ inside key behind row₁ more, nextKey first cs = .ok (some inside) ∧
        stringFrom inside = .ok (key, behind) ∧
        Row.put (fun f => .loose (.duplicateField f.name) behind)
          (fun f => lift (colon behind) >>= f.fromText) key s.fields row =
            some (.ok (row₁, more)) ∧
        rowFromText s fuel false row₁ more = .ok (row', left) := by
  rw [rowFromText]
  constructor
  · intro h
    obtain ⟨next, hnext, h⟩ := bind_eq_ok.mp h
    have hnext := mapError_eq_ok.mp hnext
    cases next with
    | none =>
      cases h
      exact .inl ⟨hnext, rfl, rfl⟩
    | some inside =>
      obtain ⟨⟨key, behind⟩, hkey, h⟩ := bind_eq_ok.mp h
      simp only at h
      split at h
      · cases h
      · cases h
      · next row₁ more hput =>
        exact .inr ⟨inside, key, behind, row₁, more, hnext, mapError_eq_ok.mp hkey, hput, h⟩
  · rintro (⟨hnext, rfl, rfl⟩ | ⟨inside, key, behind, row₁, more, hnext, hkey, hput, h⟩)
    · rw [hnext]
      rfl
    · refine bind_eq_ok.mpr ⟨_, mapError_eq_ok.mpr hnext, ?_⟩
      refine bind_eq_ok.mpr ⟨_, mapError_eq_ok.mpr hkey, ?_⟩
      simp only [hput, h]

theorem fromText_iff_of_written {fuel depth : Nat} {behind colonless more : List Char} {value : Json}
    (hcolon : colon behind = .ok colonless) (hfuel : 2 * colonless.length ≤ fuel)
    (hvalue : writtenFrom (fuel + 1) depth colonless = .ok (value, more)) (f : Field) (v : f.Slot) :
    lift (colon behind) >>= f.fromText = .ok (v, more) ↔
      (f.ofValue value).map (fun v => (v, ())) = .ok (v, ()) := by
  rw [hcolon]
  refine ((f.fromText_readsAs 0).iff hfuel (Nat.zero_le depth)).trans ?_
  rw [hvalue]
  constructor
  · rintro ⟨w, hw, hv⟩
    cases hw
    exact map_eq_ok.mpr ⟨v, hv, rfl⟩
  · intro h
    obtain ⟨w, hw, heq⟩ := map_eq_ok.mp h
    cases heq
    exact ⟨value, rfl, hw⟩

/-- **The fields of a mapping**: the row of a text is the row of the fields that are written in it. -/
theorem rowFromText_eq_ok_iff {steps : Nat} {first : Bool} {row row' : Row s.fields}
    {cs left : List Char} (hsteps : cs.length < steps) {fuel depth : Nat}
    (hfuel : 2 * cs.length ≤ fuel) : rowFromText s steps first row cs = .ok (row', left) ↔
      ∃ fields rest, left = '\x7d' :: rest ∧
        writtenFields (fuel + 2) depth first cs = .ok (fields, rest) ∧
        rowOfFields s row fields = .ok row' := by
  induction steps generalizing first row cs fuel with
  | zero => exact absurd hsteps (Nat.not_lt_zero _)
  | succ steps ih =>
    rw [rowFromText_succ_eq_ok_iff]
    constructor
    · rintro (⟨hnext, rfl, rfl⟩ | ⟨inside, key, behind, row₁, more, hnext, hkey, hput, h⟩)
      · obtain ⟨rest, hrest⟩ := nextKey_eq_none_iff.mp hnext
        exact ⟨[], rest, hrest, writtenFields_succ_eq_ok_iff.mpr (.inl ⟨hrest, rfl⟩), rfl⟩
      · have hinside := lt_of_nextKey hnext
        have hbehind := lt_of_stringFrom hkey
        -- the field that is met tells what is written for it
        obtain ⟨f, -, -, v, hread⟩ := Row.exists_read_of_put hput
        obtain ⟨colonless, hcolon, hread⟩ := bind_eq_ok.mp hread
        have hcolon := mapError_eq_ok.mp hcolon
        have hcolonless := lt_of_colon hcolon
        have hmore := f.lt_of_fromText hread
        have hlen : 2 * colonless.length ≤ fuel := by omega
        obtain ⟨value, hvalue, -⟩ := ((f.fromText_readsAs 0).iff hlen (Nat.zero_le depth)).mp hread
        have hput := (Row.put_eq_ok_congr _ (fun f => Misread.duplicateField f.name)
          fun f _ _ => fromText_iff_of_written hcolon hlen hvalue f).mp hput
        obtain ⟨fuel, rfl⟩ : ∃ n, fuel = n + 1 := ⟨fuel - 1, by omega⟩
        have hfuel₁ : 2 * more.length ≤ fuel := by omega
        obtain ⟨fields, rest, rfl, hfields, hrow⟩ := (ih (by omega) hfuel₁).mp h
        refine ⟨(key, value) :: fields, rest, rfl, writtenFields_succ_eq_ok_iff.mpr (.inr ⟨inside,
          key, behind, colonless, value, more, fields, hnext, hkey, hcolon, hvalue, hfields, rfl⟩),
          ?_⟩
        rw [rowOfFields, hput]
        exact hrow
    · rintro ⟨fields, rest, rfl, hfields, hrow⟩
      rcases writtenFields_succ_eq_ok_iff.mp hfields with ⟨hend, rfl⟩ | ⟨inside, key, behind,
        colonless, value, more, others, hnext, hkey, hcolon, hvalue, hothers, rfl⟩
      · cases hrow
        exact .inl ⟨nextKey_eq_none_iff.mpr ⟨rest, hend⟩, rfl, hend⟩
      · obtain ⟨row₁, hput, hrow⟩ := rowOfFields_cons_eq_ok hrow
        have hinside := lt_of_nextKey hnext
        have hbehind := lt_of_stringFrom hkey
        have hcolonless := lt_of_colon hcolon
        have hlen : 2 * colonless.length ≤ fuel := by omega
        have hput := (Row.put_eq_ok_congr
          (fun f => TextFault.loose (.duplicateField f.name) behind) _
          fun f _ _ => fromText_iff_of_written hcolon hlen hvalue f).mpr hput
        have hmore : more.length < colonless.length := by
          obtain ⟨f, -, -, v, hread⟩ := Row.exists_read_of_put hput
          rw [hcolon] at hread
          exact f.lt_of_fromText hread
        obtain ⟨fuel, rfl⟩ : ∃ n, fuel = n + 1 := ⟨fuel - 1, by omega⟩
        have hfuel₁ : 2 * more.length ≤ fuel := by omega
        refine .inr ⟨inside, key, behind, row₁, more, hnext, hkey, hput, ?_⟩
        exact (ih (by omega) hfuel₁).mpr ⟨others, rest, rfl, hothers, hrow⟩

/-! ## Lists -/

/-- **One item of a text** fills the next slot, or the list ends in front of it. -/
theorem itemsFromText_cons_eq_ok_iff {noun : String} {place : Nat} {f : Field} {fs : List Field}
    {cs left : List Char} {slot : f.Slot} {record : Filled fs} :
    itemsFromText noun place (f :: fs) cs = .ok ((slot, record), left) ↔
      (nextItem (place == 0) cs = .ok none ∧ f.absent? = some slot ∧
        itemsFromText noun (place + 1) fs (skipBlanks cs) = .ok (record, left)) ∨
      ∃ inside behind, nextItem (place == 0) cs = .ok (some inside) ∧
        f.fromText inside = .ok (slot, behind) ∧
        itemsFromText noun (place + 1) fs behind = .ok (record, left) := by
  rw [itemsFromText]
  constructor
  · intro h
    obtain ⟨next, hnext, h⟩ := bind_eq_ok.mp h
    have hnext := mapError_eq_ok.mp hnext
    cases next with
    | none =>
      simp only at h
      split at h
      · cases h
      · next v hv =>
        obtain ⟨⟨record', left'⟩, hrecord, h⟩ := bind_eq_ok.mp h
        cases h
        exact .inl ⟨hnext, hv, hrecord⟩
    | some inside =>
      obtain ⟨⟨v, behind⟩, hv, h⟩ := bind_eq_ok.mp h
      obtain ⟨⟨record', left'⟩, hrecord, h⟩ := bind_eq_ok.mp h
      cases h
      exact .inr ⟨inside, behind, hnext, hv, hrecord⟩
  · rintro (⟨hnext, hslot, hrecord⟩ | ⟨inside, behind, hnext, hslot, hrecord⟩)
    · refine bind_eq_ok.mpr ⟨none, mapError_eq_ok.mpr hnext, ?_⟩
      simp only [hslot]
      exact bind_eq_ok.mpr ⟨_, hrecord, rfl⟩
    · refine bind_eq_ok.mpr ⟨some inside, mapError_eq_ok.mpr hnext, ?_⟩
      exact bind_eq_ok.mpr ⟨_, hslot, bind_eq_ok.mpr ⟨_, hrecord, rfl⟩⟩

theorem listEnd_eq_ok_iff {cs rest : List Char} :
    listEnd cs = .ok rest ↔ skipBlanks cs = ']' :: rest := by
  rw [listEnd]
  cases skipBlanks cs with
  | nil => exact ⟨fun h => (nomatch h), fun h => (nomatch h)⟩
  | cons c more =>
    simp only [List.cons.injEq]
    by_cases hend : c = ']'
    · rw [if_pos hend]
      exact ⟨fun h => ⟨hend, Except.ok.inj h⟩, fun h => congrArg _ h.2⟩
    · rw [if_neg hend]
      refine ⟨fun h => ?_, fun h => absurd h.1 hend⟩
      split at h
      · split at h <;> cases h
      · cases h

theorem writtenItems_end {fuel depth : Nat} {first : Bool} {cs rest rest' : List Char}
    {items : List Json} (h : skipBlanks cs = ']' :: rest) :
    writtenItems (fuel + 1) depth first cs = .ok (items, rest') ↔ items = [] ∧ rest' = rest := by
  rw [writtenItems, nextItem_eq_none_iff.mpr ⟨rest, h⟩]
  simp only [ok_bind, h, List.tail_cons]
  constructor
  · intro h
    cases h
    exact ⟨rfl, rfl⟩
  · rintro ⟨rfl, rfl⟩
    rfl

/-- **The items of a list**: the slots of a text up to its end take the items that are written. -/
theorem itemsFromText_iff {noun : String} {place : Nat} {fs : List Field} {record : Filled fs}
    {cs rest : List Char} {fuel depth : Nat} (hfuel : 2 * cs.length ≤ fuel) :
    (∃ left, itemsFromText noun place fs cs = .ok (record, left) ∧ listEnd left = .ok rest) ↔
      ∃ items, writtenItems (fuel + 2) depth (place == 0) cs = .ok (items, rest) ∧
        Filled.Takes fs record items := by
  induction fs generalizing place cs fuel with
  | nil =>
    constructor
    · rintro ⟨left, hleft, hend⟩
      cases hleft
      exact ⟨[], writtenItems_succ_eq_ok_iff.mpr (.inl ⟨listEnd_eq_ok_iff.mp hend, rfl⟩), rfl⟩
    · rintro ⟨items, hitems, htakes⟩
      obtain rfl : items = [] := htakes
      rcases writtenItems_succ_eq_ok_iff.mp hitems with ⟨hend, -⟩ | ⟨_, _, _, _, -, -, -, h⟩
      · exact ⟨cs, rfl, listEnd_eq_ok_iff.mpr hend⟩
      · cases h
  | cons f fs ih =>
    obtain ⟨slot, record⟩ := record
    have hskip : 2 * (skipBlanks cs).length ≤ fuel := by
      have hle := length_skipBlanks_le cs
      omega
    constructor
    · rintro ⟨left, hleft, hend⟩
      rcases itemsFromText_cons_eq_ok_iff.mp hleft with
        ⟨hnext, hslot, hrecord⟩ | ⟨inside, behind, hnext, hslot, hrecord⟩
      · obtain ⟨more, hmore⟩ := nextItem_eq_none_iff.mp hnext
        obtain ⟨items, hitems, htakes⟩ := (ih hskip).mp ⟨left, hrecord, hend⟩
        rw [writtenItems_end ((skipBlanks_skipBlanks cs).trans hmore)] at hitems
        obtain ⟨rfl, rfl⟩ := hitems
        exact ⟨[], (writtenItems_end hmore).mpr ⟨rfl, rfl⟩, hslot, htakes⟩
      · have hinside := le_of_nextItem hnext
        have hbehind := f.lt_of_fromText hslot
        have hlen : 2 * inside.length ≤ fuel := by omega
        obtain ⟨item, hitem, hslot⟩ := ((f.fromText_readsAs 0).iff hlen (Nat.zero_le depth)).mp hslot
        obtain ⟨fuel, rfl⟩ : ∃ n, fuel = n + 1 := ⟨fuel - 1, by omega⟩
        have hfuel₁ : 2 * behind.length ≤ fuel := by omega
        obtain ⟨items, hitems, htakes⟩ := (ih hfuel₁).mp ⟨left, hrecord, hend⟩
        exact ⟨item :: items, writtenItems_succ_eq_ok_iff.mpr (.inr ⟨inside, item, behind, items,
          hnext, hitem, hitems, rfl⟩), hslot, htakes⟩
    · rintro ⟨items, hitems, hslot, htakes⟩
      rcases writtenItems_succ_eq_ok_iff.mp hitems with
        ⟨hend, rfl⟩ | ⟨inside, item, behind, others, hnext, hitem, hothers, rfl⟩
      · have hitems₁ : writtenItems (fuel + 2) depth (place + 1 == 0) (skipBlanks cs) =
            .ok ([], rest) := (writtenItems_end ((skipBlanks_skipBlanks cs).trans hend)).mpr ⟨rfl, rfl⟩
        obtain ⟨left, hleft, hend₁⟩ := (ih hskip).mpr ⟨[], hitems₁, htakes⟩
        refine ⟨left, itemsFromText_cons_eq_ok_iff.mpr (.inl ⟨?_, hslot, hleft⟩), hend₁⟩
        exact nextItem_eq_none_iff.mpr ⟨rest, hend⟩
      · have hinside := le_of_nextItem hnext
        have hlen : 2 * inside.length ≤ fuel := by omega
        have hslot := ((f.fromText_readsAs 0).iff hlen (Nat.zero_le depth)).mpr ⟨item, hitem, hslot⟩
        have hbehind := f.lt_of_fromText hslot
        obtain ⟨fuel, rfl⟩ : ∃ n, fuel = n + 1 := ⟨fuel - 1, by omega⟩
        have hfuel₁ : 2 * behind.length ≤ fuel := by omega
        have hothers : writtenItems (fuel + 2) depth (place + 1 == 0) behind =
            .ok (others, rest) := hothers
        obtain ⟨left, hleft, hend⟩ := (ih hfuel₁).mpr ⟨others, hothers, htakes⟩
        exact ⟨left, itemsFromText_cons_eq_ok_iff.mpr
          (.inr ⟨inside, behind, hnext, hslot, hleft⟩), hend⟩

/-! ## Records -/

theorem fieldsFromText_eq_ok_iff {cs left : List Char} {record : Filled s.fields} {fuel depth : Nat}
    (hfuel : 2 * cs.length ≤ fuel) : fieldsFromText s cs = .ok (record, left) ↔
      ∃ fields rest, left = '\x7d' :: rest ∧
        writtenFields (fuel + 2) depth true cs = .ok (fields, rest) ∧
        ofFields s fields = .ok record := by
  rw [fieldsFromText]
  constructor
  · intro h
    obtain ⟨⟨row, left'⟩, hrow, h⟩ := bind_eq_ok.mp h
    simp only at h
    split at h
    · next record' hrecord =>
      cases h
      obtain ⟨fields, rest, rfl, hfields, hrow⟩ :=
        (rowFromText_eq_ok_iff (Nat.lt_succ_self _) hfuel).mp hrow
      exact ⟨fields, rest, rfl, hfields, bind_eq_ok.mpr ⟨row, hrow, hrecord⟩⟩
    · cases h
  · rintro ⟨fields, rest, rfl, hfields, h⟩
    obtain ⟨row, hrow, hrecord⟩ := bind_eq_ok.mp h
    have hrow := (rowFromText_eq_ok_iff (Nat.lt_succ_self _) hfuel).mpr
      ⟨fields, rest, rfl, hfields, hrow⟩
    refine bind_eq_ok.mpr ⟨_, hrow, ?_⟩
    simp only [hrecord]

theorem fromText_list_iff {cs more rest : List Char} (h : skipBlanks cs = '[' :: more)
    {record : Filled s.fields} : fromText s cs = .ok (record, rest) ↔
      ∃ left, itemsFromText s.listNoun 0 s.fields more = .ok (record, left) ∧
        listEnd left = .ok rest := by
  rw [fromText, h]
  constructor
  · intro h
    obtain ⟨⟨row, left⟩, hrow, h⟩ := bind_eq_ok.mp h
    obtain ⟨rest', hend, h⟩ := bind_eq_ok.mp h
    cases h
    exact ⟨left, mapError_eq_ok.mp hrow, mapError_eq_ok.mp hend⟩
  · rintro ⟨left, hrow, hend⟩
    exact bind_eq_ok.mpr ⟨_, mapError_eq_ok.mpr hrow, bind_eq_ok.mpr
      ⟨_, mapError_eq_ok.mpr hend, rfl⟩⟩

theorem fromText_mapping_iff {cs more rest : List Char} (h : skipBlanks cs = '\x7b' :: more)
    {record : Filled s.fields} : fromText s cs = .ok (record, rest) ↔
      ∃ left, fieldsFromText s more = .ok (record, left) ∧ mappingEnd left = .ok rest := by
  rw [fromText, h]
  constructor
  · intro h
    obtain ⟨⟨row, left⟩, hrow, h⟩ := bind_eq_ok.mp h
    obtain ⟨rest', hend, h⟩ := bind_eq_ok.mp h
    cases h
    exact ⟨left, mapError_eq_ok.mp hrow, mapError_eq_ok.mp hend⟩
  · rintro ⟨left, hrow, hend⟩
    exact bind_eq_ok.mpr ⟨_, mapError_eq_ok.mpr hrow, bind_eq_ok.mpr
      ⟨_, mapError_eq_ok.mpr hend, rfl⟩⟩

theorem fromText_start {cs rest : List Char} {record : Filled s.fields}
    (h : fromText s cs = .ok (record, rest)) :
    ∃ more, skipBlanks cs = '[' :: more ∨ skipBlanks cs = '\x7b' :: more := by
  rw [fromText] at h
  split at h
  · cases h
  · next more hstart => exact ⟨more, .inl hstart⟩
  · next more hstart => exact ⟨more, .inr hstart⟩
  · cases h

theorem fromText_list {fuel depth : Nat} {cs more rest : List Char} {record : Filled s.fields}
    (hfuel : 2 * cs.length ≤ fuel) (hdepth : 2 ≤ depth) (hstart : skipBlanks cs = '[' :: more) :
    fromText s cs = .ok (record, rest) ↔
      ∃ items, writtenFrom (fuel + 1) depth cs = .ok (.array items, rest) ∧
        ofValue s (.array items) = .ok record := by
  have hmore := lt_of_skipBlanks hstart
  obtain ⟨fuel, rfl⟩ : ∃ n, fuel = n + 2 := ⟨fuel - 2, by omega⟩
  have hlen : 2 * more.length ≤ fuel := by omega
  simp only [writtenFrom_list hstart hdepth, ofValue_array_eq_ok_iff]
  exact (fromText_list_iff hstart).trans (itemsFromText_iff hlen)

theorem fromText_mapping {fuel depth : Nat} {cs more rest : List Char} {record : Filled s.fields}
    (hfuel : 2 * cs.length ≤ fuel) (hdepth : 2 ≤ depth) (hstart : skipBlanks cs = '\x7b' :: more) :
    fromText s cs = .ok (record, rest) ↔
      ∃ fields, writtenFrom (fuel + 1) depth cs = .ok (.object fields, rest) ∧
        ofValue s (.object fields) = .ok record := by
  have hmore := lt_of_skipBlanks hstart
  obtain ⟨fuel, rfl⟩ : ∃ n, fuel = n + 2 := ⟨fuel - 2, by omega⟩
  have hlen : 2 * more.length ≤ fuel := by omega
  simp only [writtenFrom_mapping hstart hdepth]
  rw [fromText_mapping_iff hstart]
  constructor
  · rintro ⟨left, hrecord, hend⟩
    obtain ⟨fields, rest', rfl, hfields, hread⟩ := (fieldsFromText_eq_ok_iff hlen).mp hrecord
    cases hend
    exact ⟨fields, hfields, hread⟩
  · rintro ⟨fields, hfields, hrecord⟩
    exact ⟨_, (fieldsFromText_eq_ok_iff hlen).mpr ⟨fields, rest, rfl, hfields, hrecord⟩, rfl⟩

/-- **A record** is taken from the texts in which it is written. -/
theorem fromText_readsAs (s : Schema) : ReadsAs 2 (ofValue s) (fromText s) where
  iff {_ _ _} hfuel hdepth {_ _} := by
    constructor
    · intro h
      obtain ⟨more, hstart | hstart⟩ := fromText_start h
      · obtain ⟨items, hitems, hrecord⟩ := (fromText_list hfuel hdepth hstart).mp h
        exact ⟨_, hitems, hrecord⟩
      · obtain ⟨fields, hfields, hrecord⟩ := (fromText_mapping hfuel hdepth hstart).mp h
        exact ⟨_, hfields, hrecord⟩
    · rintro ⟨v, hv, hrecord⟩
      have hlexed := lexed_of_writtenFrom hv
      obtain ⟨items, rfl⟩ | ⟨fields, rfl⟩ := ofValue_cases hrecord
      · cases hlexed with
        | list hstart => exact (fromText_list hfuel hdepth hstart).mpr ⟨items, hv, hrecord⟩
      · cases hlexed with
        | mapping hstart => exact (fromText_mapping hfuel hdepth hstart).mpr ⟨fields, hv, hrecord⟩

end Record

end Methodology
