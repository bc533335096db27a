import Methodology.Proofs.Record.Grammar
import Methodology.Proofs.Yaml.Target
import Methodology.Record.OfYaml

/-!
# Fields of a document and of its data value

What a field holds is read from a node of a document, or from the data value that the node stands
for. The first way asks a scalar for its text wherever a text is required, the second one asks what
the scalar stands for.

* `isNullScalar_of_ne_null`, `scalarValue_of_isNullScalar`: scalars that are taken for null.
* `Field.IgnoresTag`, `Field.IsTyped`: a scalar whose tag hides nothing of what it is, and one that
  is a text where a text is required.
* `Field.Kind.fromNode_scalar_iff`, `Field.fromNode_scalar_iff`: what is read from a scalar.
* **`Field.fromNode_iff`**: the data value of a node is read exactly if the node is typed and read.
-/

namespace Methodology

open Result Yaml

/-! ## Scalars -/

section

variable {tag : Option TagText} {style : Style} {text : String}

theorem eq_null_of_toJson {v : Value} (h : scalarValue tag style text = some v)
    (hjson : v.toJson = .ok .null) : v = .null := by
  rcases scalarValue_cases h with rfl | ⟨b, rfl⟩ | ⟨x, rfl⟩ | rfl
  · rfl
  · cases hjson
  · cases x <;> cases hjson
  · cases hjson

theorem eq_string_of_toJson {v : Value} {s : String} (h : scalarValue tag style text = some v)
    (hjson : v.toJson = .ok (.string s)) : v = .string text ∧ s = text := by
  rcases scalarValue_cases h with rfl | ⟨b, rfl⟩ | ⟨x, rfl⟩ | rfl
  · cases hjson
  · cases hjson
  · cases x <;> cases hjson
  · cases hjson
    exact ⟨rfl, rfl⟩

theorem scalarValue_of_isNullScalar (h : isNullScalar tag style text = some true) :
    scalarValue tag style text = some .null := by
  cases style with
  | quoted => cases h
  | plain =>
    cases tag with
    | none =>
      have hnull : (text.isEmpty || isNullWord text.toList) = true := Option.some.inj h
      have hempty : text.toList.isEmpty = text.isEmpty := by
        rw [Bool.eq_iff_iff, List.isEmpty_iff, String.isEmpty_iff, String.toList_eq_nil_iff]
      rw [scalarValue, untaggedValue, resolve, hempty, if_pos hnull]
      rfl
    | some t =>
      rw [isNullScalar] at h
      split_ifs at h with htag hword
      · subst htag
        rw [scalarValue, if_neg (by decide), if_neg (by decide), if_neg (by decide),
          if_neg (by decide), if_pos rfl, if_pos hword]
      · cases h

theorem isNullScalar_of_ne_null {v : Value} (h : scalarValue tag style text = some v)
    (hv : v ≠ .null) : isNullScalar tag style text = some false := by
  cases hnull : isNullScalar tag style text with
  | some null =>
    cases null with
    | false => rfl
    | true =>
      have heq := (scalarValue_of_isNullScalar hnull).symm.trans h
      exact absurd (Option.some.inj heq).symm hv
  | none =>
    cases style with
    | quoted => cases hnull
    | plain =>
      cases tag with
      | none => cases hnull
      | some t =>
        rw [isNullScalar] at hnull
        split_ifs at hnull with htag hword
        subst htag
        rw [scalarValue, if_neg (by decide), if_neg (by decide), if_neg (by decide),
          if_neg (by decide), if_pos rfl, if_neg hword] at h
        cases h

end

/-! ## Fields -/

/-- **No tag hides what a scalar is for a field**: a term is under no tag of the document's own, and
what stands for null is taken for null where it may be. -/
structure Field.IgnoresTag (f : Field) (tag : Option TagText) (style : Style) (text : String) :
    Prop where
  term : f.kind = .term → localTag? tag = none
  null : f.optional = true → scalarValue tag style text = some .null →
    isNullScalar tag style text = some true

/-- **A scalar is a text where a field requires one**; where null may stand, it may be null. -/
def Field.IsTyped (f : Field) (tag : Option TagText) (style : Style) (text : String) : Prop :=
  f.kind ≠ .term → scalarValue tag style text = some (.string text) ∨
    (f.optional = true ∧ scalarValue tag style text = some .null)

section

variable {d : Document} {jumps left : Nat} {n : Node Nat}

theorem Field.Kind.fromNode_eq_some_iff {k : Field.Kind} (hk : k ≠ .term) {c : k.Carrier} :
    k.fromNode d jumps n = some (c, left) ↔
      ∃ s, textFromNode d jumps n = some (s, left) ∧ k.Spells (.string s) c := by
  cases k with
  | text =>
    constructor
    · exact fun h => ⟨c, h, .text c⟩
    · rintro ⟨s, hs, hc⟩
      cases hc
      exact hs
  | term => exact absurd rfl hk
  | uuid =>
    refine checkedFromNode_eq_some_iff.trans (exists_congr fun s => ?_)
    refine and_congr_right fun _ => ⟨.uuid, ?_⟩
    intro h
    cases h with
    | uuid h => exact h
  | instant =>
    refine checkedFromNode_eq_some_iff.trans (exists_congr fun s => ?_)
    refine and_congr_right fun _ => ⟨.instant, ?_⟩
    intro h
    cases h with
    | instant h => exact h

theorem Term.ofScalar_eq_some_iff {tag : Option TagText} {style : Style} {text : String} {v : Value}
    (h : scalarValue tag style text = some v) {t : Term} :
    Term.ofScalar v = some t ↔ ∃ j, v.toJson = .ok j ∧ Term.ofValue j = .ok t := by
  rcases scalarValue_cases h with rfl | ⟨b, rfl⟩ | ⟨x, rfl⟩ | rfl
  · simp [Term.ofScalar, Value.toJson, Term.ofValue]
  · simp [Term.ofScalar, Value.toJson, Term.ofValue]
  · cases x <;> simp [Term.ofScalar, Value.toJson, Value.numberToJson, Term.ofValue]
  · simp [Term.ofScalar, Value.toJson, Term.ofValue]

theorem Term.fromNode_eq_some_iff {t : Term} : Term.fromNode d jumps n = some (t, left) ↔
    ∃ anchor tag style text v, d.follow jumps n = some (.scalar anchor tag style text, left) ∧
      localTag? tag = none ∧ scalarValue tag style text = some v ∧ Term.ofScalar v = some t := by
  rw [Term.fromNode]
  constructor
  · intro h
    obtain ⟨⟨m, left'⟩, hm, h⟩ := Option.bind_eq_some_iff.mp h
    cases m with
    | scalar anchor tag style text =>
      simp only at h
      split_ifs at h with htag
      obtain ⟨t', ht', heq⟩ := Option.map_eq_some_iff.mp h
      cases heq
      obtain ⟨v, hv, ht⟩ := Option.bind_eq_some_iff.mp ht'
      exact ⟨anchor, tag, style, text, v, hm, Option.not_isSome_iff_eq_none.mp htag, hv, ht⟩
    | _ => cases h
  · rintro ⟨anchor, tag, style, text, v, hm, htag, hv, ht⟩
    refine Option.bind_eq_some_iff.mpr ⟨_, hm, ?_⟩
    simp only [htag, hv, ht, Option.isSome_none, Bool.false_eq_true, if_false, Option.bind_some,
      Option.map_some]

theorem Field.Kind.scalar_of_fromNode {k : Field.Kind} {c : k.Carrier}
    (h : k.fromNode d jumps n = some (c, left)) :
    ∃ anchor tag style text, d.follow jumps n = some (.scalar anchor tag style text, left) := by
  by_cases hk : k = .term
  · subst hk
    obtain ⟨anchor, tag, style, text, v, hm, -⟩ := Term.fromNode_eq_some_iff.mp h
    exact ⟨anchor, tag, style, text, hm⟩
  · obtain ⟨s, hs, -⟩ := (Field.Kind.fromNode_eq_some_iff hk).mp h
    obtain ⟨anchor, tag, style, hm⟩ := textFromNode_eq_some_iff.mp hs
    exact ⟨anchor, tag, style, s, hm⟩

theorem optionalFromNode_scalar {α : Type} {read : Reading α} {anchor : Option Nat}
    {tag : Option TagText} {style : Style} {text : String}
    (h : d.follow jumps n = some (.scalar anchor tag style text, left)) :
    optionalFromNode read d jumps n = (isNullScalar tag style text).bind fun null =>
      if null then some (none, left)
      else (read left (.scalar anchor tag style text)).map fun (a, jumps) => (some a, jumps) := by
  rw [optionalFromNode, h]
  rfl

theorem Field.scalar_of_fromNode (hd : d.IsResolved) {f : Field} {slot : f.Slot}
    (h : f.fromNode d jumps n = some (slot, left)) :
    ∃ anchor tag style text, d.follow jumps n = some (.scalar anchor tag style text, left) := by
  obtain ⟨name, k, optional⟩ := f
  cases optional with
  | false => exact Field.Kind.scalar_of_fromNode h
  | true =>
    have h : optionalFromNode (k.fromNode d) d jumps n = some (slot, left) := h
    obtain ⟨⟨m, left'⟩, hm, hread⟩ := Option.bind_eq_some_iff.mp h
    -- a node that is no reference is read where it stands
    have hstays : ∀ {c : k.Carrier} {left''}, d.follow left' m = some (m, left') →
        k.fromNode d left' m = some (c, left'') →
        left' = left'' ∧ ∃ anchor tag style text, m = .scalar anchor tag style text := by
      intro c left'' hself hc
      obtain ⟨anchor, tag, style, text, hscalar⟩ := Field.Kind.scalar_of_fromNode hc
      cases hself.symm.trans hscalar
      exact ⟨rfl, anchor, tag, style, text, rfl⟩
    cases m with
    | scalar anchor tag style text =>
      rw [optionalFromNode_scalar hm] at h
      obtain ⟨null, -, h⟩ := Option.bind_eq_some_iff.mp h
      split_ifs at h
      · cases h
        exact ⟨anchor, tag, style, text, hm⟩
      · obtain ⟨⟨c, left''⟩, hc, heq⟩ := Option.map_eq_some_iff.mp h
        cases heq
        obtain ⟨rfl, -⟩ := hstays rfl hc
        exact ⟨anchor, tag, style, text, hm⟩
    | reference name => exact absurd rfl (hd.ne_reference (Document.target?_of_follow hm) name)
    | _ =>
      obtain ⟨⟨c, left''⟩, hc, -⟩ := Option.map_eq_some_iff.mp hread
      obtain ⟨-, _, _, _, _, hm⟩ := hstays rfl hc
      cases hm

/-- A scalar stands for a value of a kind exactly if it is read as one and, unless the kind is that
of terms, is a text. -/
theorem Field.Kind.fromNode_scalar_iff {k : Field.Kind} {c : k.Carrier} {anchor : Option Nat}
    {tag : Option TagText} {style : Style} {text : String}
    (h : d.follow jumps n = some (.scalar anchor tag style text, left))
    (hterm : k = .term → localTag? tag = none) :
    (∃ v j, scalarValue tag style text = some v ∧ v.toJson = .ok j ∧ k.ofValue j = .ok c) ↔
      k.fromNode d jumps n = some (c, left) ∧
        (k ≠ .term → scalarValue tag style text = some (.string text)) := by
  by_cases hk : k = .term
  · subst hk
    constructor
    · rintro ⟨v, j, hv, hj, hc⟩
      have ht := (Term.ofScalar_eq_some_iff hv).mpr ⟨j, hj, hc⟩
      exact ⟨Term.fromNode_eq_some_iff.mpr ⟨anchor, tag, style, text, v, h, hterm rfl, hv, ht⟩,
        fun hne => absurd rfl hne⟩
    · rintro ⟨hread, -⟩
      obtain ⟨_, _, _, _, v, hm, -, hv, ht⟩ := Term.fromNode_eq_some_iff.mp hread
      cases h.symm.trans hm
      obtain ⟨j, hj, hc⟩ := (Term.ofScalar_eq_some_iff hv).mp ht
      exact ⟨v, j, hv, hj, hc⟩
  · constructor
    · rintro ⟨v, j, hv, hj, hc⟩
      have hspells := k.ofValue_eq_ok_iff.mp hc
      obtain ⟨s, rfl⟩ : ∃ s, j = .string s := by
        cases hspells with
        | flag => exact absurd rfl hk
        | _ => exact ⟨_, rfl⟩
      obtain ⟨rfl, rfl⟩ := eq_string_of_toJson hv hj
      have hs := textFromNode_eq_some_iff.mpr ⟨anchor, tag, style, h⟩
      exact ⟨(Field.Kind.fromNode_eq_some_iff hk).mpr ⟨s, hs, hspells⟩, fun _ => hv⟩
    · rintro ⟨hread, htext⟩
      obtain ⟨s, hs, hspells⟩ := (Field.Kind.fromNode_eq_some_iff hk).mp hread
      obtain ⟨_, _, _, hm⟩ := textFromNode_eq_some_iff.mp hs
      cases h.symm.trans hm
      exact ⟨_, _, htext hk, rfl, k.ofValue_eq_ok_iff.mpr hspells⟩

theorem Field.fromNode_scalar_iff {f : Field} {slot : f.Slot} {anchor : Option Nat}
    {tag : Option TagText} {style : Style} {text : String}
    (h : d.follow jumps n = some (.scalar anchor tag style text, left))
    (htag : f.IgnoresTag tag style text) :
    (∃ v j, scalarValue tag style text = some v ∧ v.toJson = .ok j ∧ f.ofValue j = .ok slot) ↔
      f.fromNode d jumps n = some (slot, left) ∧ f.IsTyped tag style text := by
  obtain ⟨name, k, optional⟩ := f
  cases optional with
  | false =>
    refine (Field.Kind.fromNode_scalar_iff h htag.term).trans (and_congr_right fun _ => ?_)
    refine forall_congr' fun _ => ⟨.inl, fun htyped => htyped.resolve_right fun hnull => ?_⟩
    cases hnull.1
  | true =>
    have hself : d.follow left (.scalar anchor tag style text) =
      some (.scalar anchor tag style text, left) := rfl
    have hkind := @Field.Kind.fromNode_scalar_iff d left left (.scalar anchor tag style text) k
    change _ ↔ optionalFromNode (k.fromNode d) d jumps n = _ ∧ _
    rw [optionalFromNode_scalar h]
    constructor
    · rintro ⟨v, j, hv, hj, hslot⟩
      by_cases hnull : v = .null
      · subst hnull
        cases hj
        cases hslot
        rw [htag.null rfl hv]
        exact ⟨rfl, fun _ => .inr ⟨rfl, hv⟩⟩
      · have hjnull : j ≠ .null := by
          rintro rfl
          exact hnull (eq_null_of_toJson hv hj)
        rw [Field.ofValue.eq_2 _ _ _ hjnull] at hslot
        obtain ⟨c, hc, rfl⟩ := map_eq_ok.mp hslot
        obtain ⟨hread, htext⟩ := (hkind hself htag.term).mp ⟨v, j, hv, hj, hc⟩
        rw [isNullScalar_of_ne_null hv hnull]
        refine ⟨?_, fun hk => .inl (htext hk)⟩
        exact Option.map_eq_some_iff.mpr ⟨_, hread, rfl⟩
    · rintro ⟨hread, htyped⟩
      obtain ⟨null, hnull, hread⟩ := Option.bind_eq_some_iff.mp hread
      cases null with
      | true =>
        cases hread
        exact ⟨.null, .null, scalarValue_of_isNullScalar hnull, rfl, rfl⟩
      | false =>
        obtain ⟨⟨c, left'⟩, hc, heq⟩ := Option.map_eq_some_iff.mp hread
        cases heq
        have htext : k ≠ .term → scalarValue tag style text = some (.string text) := by
          refine fun hk => (htyped hk).resolve_right fun hv => ?_
          cases (htag.null rfl hv.2).symm.trans hnull
        obtain ⟨v, j, hv, hj, hc⟩ := (hkind hself htag.term).mpr ⟨hc, htext⟩
        have hjnull : j ≠ .null := (k.ofValue_eq_ok_iff.mp hc).ne_null
        refine ⟨v, j, hv, hj, ?_⟩
        rw [Field.ofValue.eq_2 _ _ _ hjnull]
        exact map_eq_ok.mpr ⟨c, hc, rfl⟩

/-- **A field**: a node stands for what it may hold exactly if the node is typed and read. -/
theorem Field.fromNode_iff (hd : d.IsResolved) {f : Field} {slot : f.Slot} {depth : Nat}
    (htag : ∀ tag style text, d.IsScalar n tag style text → f.IgnoresTag tag style text) :
    (∃ w j, valueAt d depth jumps n = some (w, left) ∧ w.toJson = .ok j ∧ f.ofValue j = .ok slot) ↔
      f.fromNode d jumps n = some (slot, left) ∧
        ∀ tag style text, d.IsScalar n tag style text → f.IsTyped tag style text := by
  constructor
  · rintro ⟨w, j, hw, hj, hslot⟩
    obtain ⟨anchor, tag, style, text, hm⟩ : ∃ anchor tag style text,
        d.follow jumps n = some (.scalar anchor tag style text, left) := by
      rcases f.ofValue_cases hslot with rfl | ⟨b, rfl⟩ | ⟨s, rfl⟩ <;>
        exact scalar_of_valueAt hw hj (fun _ h => nomatch h) fun _ h => nomatch h
    have hscalar := Document.isScalar_of_follow hm
    obtain ⟨v, hv, rfl, -⟩ := (valueAt_scalar_iff hm).mp hw
    rw [v.toJson_under] at hj
    obtain ⟨hread, htyped⟩ :=
      (Field.fromNode_scalar_iff hm (htag _ _ _ hscalar)).mp ⟨v, j, hv, hj, hslot⟩
    refine ⟨hread, fun tag' style' text' h' => ?_⟩
    obtain ⟨rfl, rfl, rfl⟩ := hscalar.unique h'
    exact htyped
  · rintro ⟨hread, htyped⟩
    obtain ⟨anchor, tag, style, text, hm⟩ := Field.scalar_of_fromNode hd hread
    have hscalar := Document.isScalar_of_follow hm
    obtain ⟨v, j, hv, hj, hslot⟩ := (Field.fromNode_scalar_iff hm (htag _ _ _ hscalar)).mpr
      ⟨hread, htyped _ _ _ hscalar⟩
    refine ⟨_, j, (valueAt_scalar_iff hm).mpr ⟨v, hv, rfl, rfl⟩, ?_, hslot⟩
    rw [v.toJson_under, hj]

end

end Methodology
