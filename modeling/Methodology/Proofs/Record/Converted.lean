import Mathlib.Data.List.Nodup
import Methodology.Proofs.Record.Typed

/-!
# Records of a document and of its data value

A record is read from the nodes of a document, or from the data value that the document stands for.
Both ways give the same record if no tag hides what a scalar is; the second one takes the documents
that are typed, and no other.

* `Document.IsSimple`: a document in which no tag hides what stands for a field.
* `Document.IsTyped`: a document with a text wherever a text is required.
* `Record.put_iff`: **the step** of the loop over the entries; `Record.rowFromEntries_iff`: the loop.
* **`Record.fromNode_iff`**, **`Record.fromYaml_iff`**: a data value is read exactly if its document
  is typed and read.
-/

namespace Methodology

open Result Yaml

/-! ## Documents -/

namespace Yaml.Document

/-- An entry in which no tag hides what its value is for the field that its key names. -/
def IsSimpleEntry (d : Document) (s : Schema) (e : Node Nat × Node Nat) : Prop :=
  ∀ f ∈ s.fields, ∀ tag style, d.IsScalar e.1 tag style f.name →
    ∀ tag style text, d.IsScalar e.2 tag style text → f.IgnoresTag tag style text

/-- An entry whose key, if it names a field, stands for itself, and whose value is typed. -/
def IsTypedEntry (d : Document) (s : Schema) (e : Node Nat × Node Nat) : Prop :=
  ∀ f ∈ s.fields, ∀ tag style, d.IsScalar e.1 tag style f.name → StandsForItself tag style f.name ∧
    ∀ tag style text, d.IsScalar e.2 tag style text → f.IsTyped tag style text

/-- **A simple document** is no list, and no tag in it hides what stands for a field. -/
structure IsSimple (d : Document) (s : Schema) : Prop where
  no_list : ∀ anchor tag items, d.target? d.root ≠ some (.sequence anchor tag items)
  entries : ∀ e ∈ d.entries, d.IsSimpleEntry s e

/-- **A typed document** is not empty, and a text stands in it where a text is required. -/
structure IsTyped (d : Document) (s : Schema) : Prop where
  not_empty : ∀ anchor tag, d.target? d.root ≠ some (.scalar anchor tag .plain "")
  entries : ∀ e ∈ d.entries, d.IsTypedEntry s e

end Yaml.Document

namespace Record

variable {s : Schema} {d : Document} {jumps left : Nat}

theorem eq_of_name_eq (hnodup : s.names.Nodup) {f g : Field} (hf : f ∈ s.fields)
    (hg : g ∈ s.fields) (h : f.name = g.name) : f = g :=
  List.inj_on_of_nodup_map hnodup hf hg h

/-- **The step of the loop**: what an entry stands for is put in a slot exactly if the entry is typed
and what is read from its nodes is put there. -/
theorem put_iff (hd : d.IsResolved) (hnodup : s.names.Nodup) {depth jumps₁ jumps₂ : Nat}
    {k v : Node Nat} (hsimple : d.IsSimpleEntry s (k, v)) {key : String}
    {row row₁ : Row s.fields} :
    (valueAt d depth jumps k = some (.string key, jumps₁) ∧ ∃ value j,
      valueAt d depth jumps₁ v = some (value, jumps₂) ∧ value.toJson = .ok j ∧
        Row.put (fun f => Misread.duplicateField f.name)
          (fun f => (f.ofValue j).map fun v => (v, ())) key s.fields row =
            some (.ok (row₁, ()))) ↔
      (textFromNode d jumps k = some (key, jumps₁) ∧ Row.put (fun _ => ())
        (readNode d jumps₁ v) key s.fields row = some (.ok (row₁, jumps₂))) ∧
        d.IsTypedEntry s (k, v) := by
  constructor
  · rintro ⟨hkey, value, j, hvalue, hj, hput⟩
    obtain ⟨anchor, tag, style, hfollow, hself⟩ := valueAt_eq_string_iff.mp hkey
    have hscalar := Document.isScalar_of_follow hfollow
    have hfield : ∀ f ∈ s.fields, f.name = key → ∀ slot, f.ofValue j = .ok slot →
        f.fromNode d jumps₁ v = some (slot, jumps₂) ∧
          ∀ tag style text, d.IsScalar v tag style text → f.IsTyped tag style text := by
      intro f hf hname slot hslot
      exact (Field.fromNode_iff hd (hsimple f hf tag style (hname ▸ hscalar))).mp
        ⟨value, j, hvalue, hj, hslot⟩
    refine ⟨⟨textFromNode_eq_some_iff.mpr ⟨anchor, tag, style, hfollow⟩, ?_⟩, ?_⟩
    · refine Row.put_eq_ok_of _ _ (fun f hf hname slot hslot => ?_) hput
      obtain ⟨slot', hslot, heq⟩ := map_eq_ok.mp hslot
      cases heq
      exact readNode_eq_ok_iff.mpr (hfield f hf hname slot hslot).1
    · intro f hf tag' style' hkey'
      obtain ⟨rfl, rfl, hname⟩ := hscalar.unique hkey'
      obtain ⟨g, hg, hgname, slot, hslot⟩ := Row.exists_read_of_put hput
      obtain ⟨slot', hslot, -⟩ := map_eq_ok.mp hslot
      obtain rfl := eq_of_name_eq hnodup hf hg (hname.symm.trans hgname.symm)
      exact ⟨hname ▸ hself, (hfield f hf hgname slot' hslot).2⟩
  · rintro ⟨⟨htext, hput⟩, htyped⟩
    obtain ⟨anchor, tag, style, hfollow⟩ := textFromNode_eq_some_iff.mp htext
    have hscalar := Document.isScalar_of_follow hfollow
    have hfield : ∀ f ∈ s.fields, f.name = key → ∀ slot,
        f.fromNode d jumps₁ v = some (slot, jumps₂) → ∃ w j,
          valueAt d depth jumps₁ v = some (w, jumps₂) ∧ w.toJson = .ok j ∧
            f.ofValue j = .ok slot := by
      intro f hf hname slot hslot
      have hnamed := hname ▸ hscalar
      exact (Field.fromNode_iff hd (hsimple f hf tag style hnamed)).mpr
        ⟨hslot, (htyped f hf tag style hnamed).2⟩
    -- the field that is met tells what its value is
    obtain ⟨g, hg, rfl, slot, hslot⟩ := Row.exists_read_of_put hput
    obtain ⟨value, j, hvalue, hj, -⟩ := hfield g hg rfl slot (readNode_eq_ok_iff.mp hslot)
    refine ⟨valueAt_eq_string_iff.mpr ⟨anchor, tag, style, hfollow,
      (htyped g hg tag style hscalar).1⟩, value, j, hvalue, hj, ?_⟩
    refine Row.put_eq_ok_of _ _ (fun f hf hname slot hslot => ?_) hput
    obtain ⟨value', j', hvalue', hj', hslot⟩ :=
      hfield f hf hname slot (readNode_eq_ok_iff.mp hslot)
    cases hvalue.symm.trans hvalue'
    cases hj.symm.trans hj'
    exact map_eq_ok.mpr ⟨slot, hslot, rfl⟩

/-- The keys that are met are those of slots that are full. -/
def AreFull (row : Row s.fields) (met : List Value) : Prop :=
  ∀ w ∈ met, ∃ name, w = .string name ∧ ¬ Row.Holds s.fields row name none

theorem AreFull.of_put {row row₁ : Row s.fields} {met : List Value} (h : AreFull row met)
    {key : String} {j : Json} (hput : Row.put (fun f => Misread.duplicateField f.name)
      (fun f => (f.ofValue j).map fun v => (v, ())) key s.fields row = some (.ok (row₁, ()))) :
    met.any (Value.string key).same = false ∧ AreFull row₁ (.string key :: met) := by
  obtain ⟨hfree, hothers⟩ := Row.free_of_put hput
  refine ⟨List.any_eq_false.mpr fun w hw => ?_, List.forall_mem_cons.mpr ⟨⟨key, rfl, ?_⟩, ?_⟩⟩
  · obtain ⟨name, rfl, hname⟩ := h w hw
    rw [same_string, beq_iff_eq]
    rintro rfl
    exact hname hfree
  · exact fun hkey => (hothers key hkey).1 rfl
  · intro w hw
    obtain ⟨name, rfl, hname⟩ := h w hw
    exact ⟨name, rfl, fun hfree => hname (hothers name hfree).2⟩

/-- **The entries of a mapping**: what they stand for makes a row exactly if all of them are typed
and their nodes make it. -/
theorem rowFromEntries_iff (hd : d.IsResolved) (hnodup : s.names.Nodup) {depth : Nat}
    {entries : List (Node Nat × Node Nat)} (hsimple : ∀ e ∈ entries, d.IsSimpleEntry s e)
    {met : List Value} {row row' : Row s.fields} (hmet : AreFull row met) :
    (∃ pairs left fields, eachEntry (valueAt d depth) met jumps entries = some (pairs, left) ∧
      Value.entriesToJson pairs = .ok fields ∧ rowOfFields s row fields = .ok row') ↔
      rowFromEntries d s row jumps entries = some row' ∧ ∀ e ∈ entries, d.IsTypedEntry s e := by
  induction entries generalizing met row jumps with
  | nil =>
    constructor
    · rintro ⟨pairs, left, fields, hpairs, hfields, hrow⟩
      cases hpairs
      cases hfields
      cases hrow
      exact ⟨rfl, fun _ he => nomatch he⟩
    · rintro ⟨hrow, -⟩
      cases hrow
      exact ⟨[], jumps, [], rfl, rfl, rfl⟩
  | cons e rest ih =>
    obtain ⟨k, v⟩ := e
    obtain ⟨hfirst, hrest⟩ := List.forall_mem_cons.mp hsimple
    rw [List.forall_mem_cons, rowFromEntries_cons_eq_some_iff]
    constructor
    · rintro ⟨pairs, left, fields, hpairs, hfields, hrow⟩
      obtain ⟨_, jumps₁, value, jumps₂, others, hkey, -, hvalue, hothers, rfl⟩ :=
        eachEntry_cons_eq_some_iff.mp hpairs
      obtain ⟨key, j, others', rfl, hj, hothers', rfl⟩ := entriesToJson_cons_eq_ok_iff.mp hfields
      obtain ⟨row₁, hput, hrow⟩ := rowOfFields_cons_eq_ok hrow
      obtain ⟨⟨htext, hput'⟩, htyped⟩ :=
        (put_iff hd hnodup hfirst).mp ⟨hkey, value, j, hvalue, hj, hput⟩
      obtain ⟨hrow, hothersTyped⟩ := (ih hrest (hmet.of_put hput).2).mp
        ⟨others, left, others', hothers, hothers', hrow⟩
      exact ⟨⟨key, jumps₁, row₁, jumps₂, htext, hput', hrow⟩, htyped, hothersTyped⟩
    · rintro ⟨⟨key, jumps₁, row₁, jumps₂, htext, hput, hrow⟩, htyped, hothersTyped⟩
      obtain ⟨hkey, value, j, hvalue, hj, hput⟩ :=
        (put_iff hd hnodup hfirst).mpr ⟨⟨htext, hput⟩, htyped⟩
      obtain ⟨hnew, hfull⟩ := hmet.of_put hput
      obtain ⟨others, left, others', hothers, hothers', hrow⟩ :=
        (ih hrest hfull).mpr ⟨hrow, hothersTyped⟩
      refine ⟨_, left, (key, j) :: others', eachEntry_cons_eq_some_iff.mpr
        ⟨_, jumps₁, value, jumps₂, others, hkey, hnew, hvalue, hothers, rfl⟩,
        entriesToJson_cons_eq_ok_iff.mpr ⟨key, j, others', rfl, hj, hothers', rfl⟩, ?_⟩
      rw [rowOfFields, hput]
      exact hrow

/-! ## Records -/

theorem entriesOf_eq_some {n : Node Nat} {entries : List (Node Nat × Node Nat)}
    (h : entriesOf n = some entries) : (∃ anchor tag, n = .mapping anchor tag entries) ∨
      ∃ anchor tag, n = .scalar anchor tag .plain "" := by
  rw [entriesOf.eq_def] at h
  split at h
  · next anchor tag entries' =>
    cases h
    exact .inl ⟨anchor, tag, rfl⟩
  · next anchor tag => exact .inr ⟨anchor, tag, rfl⟩
  · cases h

/-- **A mapping**: what it stands for is a record exactly if its entries are typed and read. -/
theorem ofFields_iff (hd : d.IsResolved) (hnodup : s.names.Nodup) {depth : Nat}
    {entries : List (Node Nat × Node Nat)} (hsimple : ∀ e ∈ entries, d.IsSimpleEntry s e)
    {record : Filled s.fields} :
    (∃ pairs left fields, eachEntry (valueAt d depth) [] jumps entries = some (pairs, left) ∧
      Value.entriesToJson pairs = .ok fields ∧
        ofFields s (Json.sortFields fields) = .ok record) ↔
      ((rowFromEntries d s (Row.empty s.fields) jumps entries).bind fun row =>
        (Row.complete s.fields row).toOption) = some record ∧
          ∀ e ∈ entries, d.IsTypedEntry s e := by
  have hloop := fun row' : Row s.fields => @rowFromEntries_iff s d jumps hd hnodup depth entries
    hsimple [] (Row.empty s.fields) row' fun _ hw => nomatch hw
  constructor
  · rintro ⟨pairs, left, fields, hpairs, hfields, hrecord⟩
    have hdistinct := nodup_of_entriesToJson (pairwise_of_eachEntry hpairs).1 hfields
    have hperm := Json.perm_sortFields hdistinct
    have hrecord := (ofFields_perm hnodup hperm ((hperm.map Prod.fst).nodup_iff.mpr hdistinct)).mp
      hrecord
    obtain ⟨row, hrow, hcomplete⟩ := bind_eq_ok.mp hrecord
    obtain ⟨hread, htyped⟩ := (hloop row).mp ⟨pairs, left, fields, hpairs, hfields, hrow⟩
    refine ⟨Option.bind_eq_some_iff.mpr ⟨row, hread, ?_⟩, htyped⟩
    rw [hcomplete]
    rfl
  · rintro ⟨hread, htyped⟩
    obtain ⟨row, hread, hcomplete⟩ := Option.bind_eq_some_iff.mp hread
    obtain ⟨pairs, left, fields, hpairs, hfields, hrow⟩ := (hloop row).mpr ⟨hread, htyped⟩
    have hcomplete := toOption_eq_some.mp hcomplete
    have hrecord : ofFields s fields = .ok record := bind_eq_ok.mpr ⟨row, hrow, hcomplete⟩
    have hperm := Json.perm_sortFields (free_of_rowOfFields hrow).1
    exact ⟨pairs, left, fields, hpairs, hfields,
      (ofFields_perm hnodup hperm.symm (free_of_rowOfFields hrow).1).mp hrecord⟩

theorem ofValue_ne_ok_of_scalarValue {tag : Option TagText} {style : Style} {text : String}
    {v : Value} (h : scalarValue tag style text = some v) {j : Json} (hj : v.toJson = .ok j)
    (record : Filled s.fields) : ofValue s j ≠ .ok record := by
  rcases scalarValue_cases h with rfl | ⟨b, rfl⟩ | ⟨x, rfl⟩ | rfl
  · cases hj
    exact fun h => nomatch h
  · cases hj
    exact fun h => nomatch h
  · cases x <;> cases hj <;> exact fun h => nomatch h
  · cases hj
    exact fun h => nomatch h

/-- **A record**: the data value of a simple document is read exactly if the document is typed and
its nodes are read, and both give the same record. -/
theorem fromNode_iff (hd : d.IsResolved) (hnodup : s.names.Nodup) (hsimple : d.IsSimple s)
    {depth : Nat} {record : Filled s.fields} :
    (∃ w left j, valueAt d (depth + 1) d.jumps d.root = some (w, left) ∧ w.toJson = .ok j ∧
      ofValue s j = .ok record) ↔ fromNode d s = some record ∧ d.IsTyped s := by
  have hentries : ∀ {anchor tag entries}, d.target? d.root = some (.mapping anchor tag entries) →
      d.entries = entries := by
    intro anchor tag entries h
    rw [Document.entries, h]
  constructor
  · rintro ⟨w, left, j, hw, hj, hrecord⟩
    obtain ⟨m, jumps', v, hm, hv, rfl⟩ := valueWith_eq_some_iff.mp hw
    have htarget := Document.target?_of_follow hm
    rw [v.toJson_under] at hj
    cases m with
    | scalar anchor tag style text =>
      obtain ⟨v', hv', heq⟩ := Option.map_eq_some_iff.mp hv
      cases heq
      exact absurd hrecord (ofValue_ne_ok_of_scalarValue hv' hj record)
    | sequence anchor tag items => exact absurd htarget (hsimple.no_list anchor tag items)
    | mapping anchor tag entries =>
      obtain ⟨⟨pairs, left'⟩, hpairs, heq⟩ := Option.bind_eq_some_iff.mp hv
      cases heq
      rw [Value.toJson] at hj
      obtain ⟨fields, hfields, rfl⟩ := map_eq_ok.mp hj
      obtain ⟨hrow, htyped⟩ := (ofFields_iff hd hnodup (hentries htarget ▸ hsimple.entries)).mp
        ⟨pairs, left, fields, hpairs, hfields, hrecord⟩
      refine ⟨Option.bind_eq_some_iff.mpr ⟨_, hm, hrow⟩, fun anchor' tag' hempty => ?_, ?_⟩
      · cases htarget.symm.trans hempty
      · exact hentries htarget ▸ htyped
    | reference name => cases hv
  · rintro ⟨hread, htyped⟩
    obtain ⟨⟨m, jumps'⟩, hm, hread⟩ := Option.bind_eq_some_iff.mp hread
    obtain ⟨entries, hmapping, hread⟩ := Option.bind_eq_some_iff.mp hread
    have htarget := Document.target?_of_follow hm
    rcases entriesOf_eq_some hmapping with ⟨anchor, tag, rfl⟩ | ⟨anchor, tag, rfl⟩
    · obtain ⟨pairs, left, fields, hpairs, hfields, hrecord⟩ :=
        (@ofFields_iff s d jumps' hd hnodup depth entries (hentries htarget ▸ hsimple.entries)
          record).mpr ⟨hread, hentries htarget ▸ htyped.entries⟩
      have hcontent : contentOf (some (valueAt d depth)) jumps' (.mapping anchor tag entries) =
          some (.mapping pairs, left) := Option.bind_eq_some_iff.mpr ⟨_, hpairs, rfl⟩
      have hrecord : ofValue s (.object (Json.sortFields fields)) = .ok record := hrecord
      refine ⟨_, left, _, valueWith_eq_some_iff.mpr ⟨_, _, _, hm, hcontent, rfl⟩, ?_, hrecord⟩
      rw [Value.toJson_under, Value.toJson]
      exact map_eq_ok.mpr ⟨fields, hfields, rfl⟩
    · exact absurd htarget (htyped.not_empty anchor tag)

/-- A text whose document, if it has one, is simple. -/
def IsSimpleText (s : Schema) (text : String) : Prop :=
  ∀ d, documentOf text = some (some d) → d.IsSimple s

/-- A text with a document that is typed. -/
def IsTypedText (s : Schema) (text : String) : Prop :=
  ∃ d, documentOf text = some (some d) ∧ d.IsTyped s

/-- **The record of a text**: its data value is read exactly if the text is typed and read. -/
theorem fromYaml_iff (hnodup : s.names.Nodup) {text : String} (hsimple : IsSimpleText s text)
    {record : Filled s.fields} :
    (∃ w j, read text = some w ∧ w.toJson = .ok j ∧ ofValue s j = .ok record) ↔
      fromYaml s text = some record ∧ IsTypedText s text := by
  have hdocument : ∀ {d}, documentOf text = some (some d) →
      ((∃ w left j, valueAt d depthLimit d.jumps d.root = some (w, left) ∧ w.toJson = .ok j ∧
        ofValue s j = .ok record) ↔ fromNode d s = some record ∧ d.IsTyped s) :=
    fun hd => fromNode_iff (isResolved_of_documentOf hd) hnodup (hsimple _ hd)
  constructor
  · rintro ⟨w, j, hw, hj, hrecord⟩
    obtain ⟨found, hfound, hw⟩ := Option.bind_eq_some_iff.mp hw
    cases found with
    | none =>
      cases hw
      cases hj
      cases hrecord
    | some d =>
      obtain ⟨⟨w', left⟩, hroot, rfl⟩ := Option.map_eq_some_iff.mp hw
      obtain ⟨hread, htyped⟩ := (hdocument hfound).mp ⟨w', left, j, hroot, hj, hrecord⟩
      exact ⟨Option.bind_eq_some_iff.mpr ⟨_, hfound, hread⟩, d, hfound, htyped⟩
  · rintro ⟨hread, d, hfound, htyped⟩
    obtain ⟨found, hfound', hread⟩ := Option.bind_eq_some_iff.mp hread
    cases hfound.symm.trans hfound'
    obtain ⟨w, left, j, hw, hj, hrecord⟩ := (hdocument hfound).mpr ⟨hread, htyped⟩
    refine ⟨w, j, Option.bind_eq_some_iff.mpr ⟨_, hfound, ?_⟩, hj, hrecord⟩
    exact Option.map_eq_some_iff.mpr ⟨_, hw, rfl⟩

end Record

end Methodology
