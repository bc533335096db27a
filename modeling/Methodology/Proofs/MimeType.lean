import Methodology.Proofs.Entry.Literals
import Methodology.Proofs.Text.Case
import Methodology.Proofs.Text.Trim

/-!
# Look-up in the registry

Which texts lead to a type of the registry is said without a look-up: by what stands in a content
type in front of its parameters, or in an extension behind its dots, in any case and between blanks.

* `IsEssence`, `IsBareExtension`: **the part of a text that counts**, which is one and only one.
* `IsNamedBy`, `HasExtension`: the texts that lead to a type.
* `eq_of_contentType`, `eq_of_extensions`: content types and extensions tell types apart.
* `ofContentType_eq_ok_iff`, `ofExtension_eq_ok_iff`: the two look-ups.
* `readText_mime_eq_ok_iff`, `readYaml_mime_eq_some_iff`: types in texts.
* **`registry_lookup`**: the registry accepts its grammar and nothing else.
-/

namespace Methodology

open Json hiding isBlank
open Text Result

namespace MimeType

/-- **What a content type says**: the text in front of the first semicolon, without the blanks at
its ends. -/
def IsEssence (s t : String) : Prop :=
  ∃ front params, s.toList = front ++ params ∧ (∀ c ∈ front, c ≠ ';') ∧
    (∀ c ∈ params.head?, c = ';') ∧ IsCore front t.toList

/-- **What an extension says**: the text without the blanks around it, and then without the dots in
front. -/
def IsBareExtension (s t : String) : Prop :=
  ∃ dots, IsCore s.toList (dots ++ t.toList) ∧ (∀ c ∈ dots, c = '.') ∧
    ∀ c ∈ t.toList.head?, c ≠ '.'

/-- A content type that names a type of the registry, in any case. -/
def IsNamedBy (m : MimeType) (s : String) : Prop :=
  ∃ t, IsEssence s t ∧ SameLetters t m.contentType

/-- An extension of a type of the registry, in any case. -/
def HasExtension (m : MimeType) (s : String) : Prop :=
  ∃ t, IsBareExtension s t ∧ ∃ e ∈ m.extensions, SameLetters t e

/-! ## The part that counts -/

theorem isEssence_iff {s t : String} :
    IsEssence s t ↔ t.toList = trimBlanks (s.toList.takeWhile (· != ';')) := by
  rw [eq_comm, trimBlanks_eq_iff]
  constructor
  · rintro ⟨front, params, hs, hfront, hparams, hcore⟩
    have htake : s.toList.takeWhile (· != ';') = front :=
      takeWhile_eq_iff.mpr ⟨params, hs, by simpa using hfront, by simpa using hparams⟩
    rwa [htake]
  · intro h
    obtain ⟨params, hs, hfront, hparams⟩ := takeWhile_eq_iff.mp rfl
    exact ⟨_, params, hs, by simpa using hfront, by simpa using hparams, h⟩

theorem isBareExtension_iff {s t : String} :
    IsBareExtension s t ↔ t.toList = (trimBlanks s.toList).dropWhile (· == '.') := by
  rw [eq_comm, dropWhile_eq_iff]
  refine exists_congr fun dots => ?_
  rw [trimBlanks_eq_iff]
  simp

theorem existsUnique_isEssence (s : String) : ∃! t, IsEssence s t := by
  refine ⟨String.ofList (trimBlanks (s.toList.takeWhile (· != ';'))), ?_, fun t ht => ?_⟩
  · exact isEssence_iff.mpr String.toList_ofList
  · rw [← isEssence_iff.mp ht, String.ofList_toList]

theorem existsUnique_isBareExtension (s : String) : ∃! t, IsBareExtension s t := by
  refine ⟨String.ofList ((trimBlanks s.toList).dropWhile (· == '.')), ?_, fun t ht => ?_⟩
  · exact isBareExtension_iff.mpr String.toList_ofList
  · rw [← isBareExtension_iff.mp ht, String.ofList_toList]

theorem IsEssence.essence_eq {s t : String} (h : IsEssence s t) : essence s = foldCase t := by
  rw [essence, trim_eq, String.toList_ofList, ← isEssence_iff.mp h, String.ofList_toList]

theorem IsBareExtension.bareExtension_eq {s t : String} (h : IsBareExtension s t) :
    bareExtension s = foldCase t := by
  rw [bareExtension, ← isBareExtension_iff.mp h, String.ofList_toList]

/-! ## The registry -/

theorem mem_all (m : MimeType) : m ∈ all := by cases m <;> decide

theorem foldCase_contentType (m : MimeType) : foldCase m.contentType = m.contentType := by
  cases m <;> decide +kernel

theorem foldCase_of_mem_extensions (m : MimeType) : ∀ e ∈ m.extensions, foldCase e = e := by
  cases m <;> decide +kernel

theorem eq_of_contentType {m n : MimeType} (h : m.contentType = n.contentType) : m = n := by
  revert h
  cases m <;> cases n <;> decide

theorem eq_of_extensions {m n : MimeType} {e : String} (hm : e ∈ m.extensions)
    (hn : e ∈ n.extensions) : m = n := by
  have hdisjoint : ∀ e ∈ m.extensions, e ∈ n.extensions → m = n := by
    cases m <;> cases n <;> decide
  exact hdisjoint e hm hn

theorem find?_all_eq_some_iff {p : MimeType → Bool} (hunique : ∀ m n, p m → p n → m = n)
    {m : MimeType} : all.find? p = some m ↔ p m := by
  constructor
  · exact List.find?_some
  · intro hm
    obtain ⟨n, hn⟩ := Option.isSome_iff_exists.mp (List.find?_isSome.mpr ⟨m, mem_all m, hm⟩)
    rw [hn, hunique n m (List.find?_some hn) hm]

theorem found_eq_ok_iff {found : Option MimeType} {e : UnsupportedMime} {m : MimeType} :
    (match found with
      | some n => Except.ok n
      | none => Except.error e) = Except.ok m ↔ found = some m := by
  cases found with
  | none => exact ⟨nofun, nofun⟩
  | some n => rw [Except.ok.injEq, Option.some.injEq]

/-! ## The two look-ups -/

theorem isNamedBy_iff {m : MimeType} {s : String} : m.IsNamedBy s ↔ m.contentType = essence s := by
  obtain ⟨t, ht, hunique⟩ := existsUnique_isEssence s
  have hsame : SameLetters t m.contentType ↔ m.contentType = essence s := by
    rw [sameLetters_iff, foldCase_contentType, ht.essence_eq, eq_comm]
  rw [← hsame]
  exact ⟨fun ⟨t', ht', h⟩ => hunique t' ht' ▸ h, fun h => ⟨t, ht, h⟩⟩

theorem hasExtension_iff {m : MimeType} {s : String} :
    m.HasExtension s ↔ bareExtension s ∈ m.extensions := by
  obtain ⟨t, ht, hunique⟩ := existsUnique_isBareExtension s
  have hsame : (∃ e ∈ m.extensions, SameLetters t e) ↔ bareExtension s ∈ m.extensions := by
    rw [ht.bareExtension_eq]
    constructor
    · rintro ⟨e, he, h⟩
      rwa [sameLetters_iff.mp h, foldCase_of_mem_extensions m e he]
    · intro he
      exact ⟨_, he, sameLetters_iff.mpr (foldCase_of_mem_extensions m _ he).symm⟩
  rw [← hsame]
  exact ⟨fun ⟨t', ht', h⟩ => hunique t' ht' ▸ h, fun h => ⟨t, ht, h⟩⟩

/-- **Look-up by content type.** -/
theorem ofContentType_eq_ok_iff {s : String} {m : MimeType} :
    ofContentType s = .ok m ↔ m.IsNamedBy s := by
  have hunique : ∀ m n : MimeType, m.contentType == essence s → n.contentType == essence s →
      m = n := fun m n hm hn => eq_of_contentType ((eq_of_beq hm).trans (eq_of_beq hn).symm)
  refine found_eq_ok_iff.trans ?_
  rw [find?_all_eq_some_iff hunique, beq_iff_eq, isNamedBy_iff]

theorem ofContentType_eq_error_iff {s : String} {e : UnsupportedMime} :
    ofContentType s = .error e ↔ e = ⟨s⟩ ∧ ∀ m : MimeType, ¬ m.IsNamedBy s := by
  simp only [← ofContentType_eq_ok_iff]
  rw [ofContentType]
  split
  · exact ⟨fun h => (nomatch h), fun h => absurd rfl (h.2 _)⟩
  · rw [Except.error.injEq, eq_comm, iff_self_and]
    exact fun _ _ h => nomatch h

/-- **Look-up by extension.** -/
theorem ofExtension_eq_ok_iff {s : String} {m : MimeType} :
    ofExtension s = .ok m ↔ m.HasExtension s := by
  have hunique : ∀ m n : MimeType, m.extensions.contains (bareExtension s) →
      n.extensions.contains (bareExtension s) → m = n := fun m n hm hn =>
    eq_of_extensions (List.contains_iff_mem.mp hm) (List.contains_iff_mem.mp hn)
  refine found_eq_ok_iff.trans ?_
  rw [find?_all_eq_some_iff hunique, List.contains_iff_mem, hasExtension_iff]

/-! ## Types in texts -/

theorem readValue_mime_eq_ok_iff {v : Json} {m : MimeType} :
    Model.readValue MimeType v = .ok m ↔ ∃ s, v = .string s ∧ m.IsNamedBy s := by
  simp only [readValue_eq_ok_iff, ofContentType_eq_ok_iff]

theorem ofValue_string_eq_error {s : String} (h : ∀ m : MimeType, ¬ m.IsNamedBy s) :
    ofValue (.string s) = .error (.mime ⟨s⟩) := by
  have hlookup : ofContentType s = .error ⟨s⟩ := ofContentType_eq_error_iff.mpr ⟨rfl, h⟩
  rw [ofValue, textOfValue, ok_bind, hlookup]
  rfl

theorem read_eq_string_iff {text s : String} :
    Json.read text = .ok (.string s) ↔ written text = .ok (.string s) := by
  rw [read_eq_written, map_eq_ok]
  constructor
  · rintro ⟨v, hv, hs⟩
    cases v <;> simp only [sorted, reduceCtorEq] at hs
    rw [hv, hs]
  · exact fun h => ⟨_, h, rfl⟩

/-- **A type in a text** is a string that names it. -/
theorem readText_mime_eq_ok_iff {text : String} {m : MimeType} :
    Model.readText MimeType text = .ok m ↔
      ∃ s, Json.read text = .ok (.string s) ∧ m.IsNamedBy s := by
  simp only [readText_eq_ok_iff, read_eq_string_iff, ofContentType_eq_ok_iff]

theorem readText_mime_eq_error {text s : String} (hread : Json.read text = .ok (.string s))
    (h : ∀ m : MimeType, ¬ m.IsNamedBy s) :
    ∃ rest, Model.readText MimeType text = .error (.loose (.mime ⟨s⟩) rest) := by
  have hfuel : 2 * text.toList.length ≤ 2 * text.length + 1 := by
    rw [String.length_toList]
    omega
  obtain ⟨⟨v, rest⟩, hv, hfinish⟩ := bind_eq_ok.mp (read_eq_string_iff.mp hread)
  obtain ⟨_, -, heq⟩ := bind_eq_ok.mp hfinish
  cases heq
  have htext : textFromText text.toList = .ok (s, rest) :=
    ((textFromText_readsAs 2).iff hfuel (by decide)).mpr ⟨_, hv, rfl⟩
  have hlookup : ofContentType s = .error ⟨s⟩ := ofContentType_eq_error_iff.mpr ⟨rfl, h⟩
  have hmime : checkedFromText ofContentType .mime text.toList =
      .error (.loose (.mime ⟨s⟩) rest) := by
    rw [checkedFromText, htext, ok_bind]
    simp only [hlookup]
  refine ⟨rest, ?_⟩
  change (checkedFromText ofContentType .mime text.toList >>= _) = _
  rw [hmime]
  rfl

theorem fromRoot_eq_some_iff {α : Type} {read : Yaml.Document → Yaml.Reading α} {text : String}
    {a : α} : fromRoot read text = some a ↔ ∃ d left, Yaml.documentOf text = some (some d) ∧
      read d d.jumps d.root = some (a, left) := by
  simp only [fromRoot, Option.bind_eq_bind, Option.bind_eq_some_iff, Option.map_eq_some_iff]
  constructor
  · rintro ⟨_, hdoc, d, rfl, ⟨_, left⟩, hread, rfl⟩
    exact ⟨d, left, hdoc, hread⟩
  · rintro ⟨d, left, hdoc, hread⟩
    exact ⟨_, hdoc, d, rfl, _, hread, rfl⟩

/-- **A type in a YAML text** is a scalar that names it. -/
theorem readYaml_mime_eq_some_iff {text : String} {m : MimeType} :
    Model.readYaml MimeType text = some m ↔ ∃ s, fromRoot textFromNode text = some s ∧
      m.IsNamedBy s := by
  change fromRoot (checkedFromNode ofContentType) text = some m ↔ _
  simp only [fromRoot_eq_some_iff, checkedFromNode_eq_some_iff, ofContentType_eq_ok_iff]
  constructor
  · rintro ⟨d, left, hdoc, s, hs, hm⟩
    exact ⟨s, ⟨d, left, hdoc, hs⟩, hm⟩
  · rintro ⟨s, ⟨d, left, hdoc, hs⟩, hm⟩
    exact ⟨d, left, hdoc, s, hs, hm⟩

/-! ## The grammar of the registry -/

theorem isBlank_of_between {c : Char} (hlow : 'A' ≤ c) (hhigh : c ≤ 'z') :
    isBlank c = false ∧ c ≠ ';' :=
  of_toNat_between c hlow hhigh (by decide)

theorem contentType_plain (m : MimeType) :
    ∀ c ∈ m.contentType.toList, isBlank c = false ∧ c ≠ ';' := by
  have hall : (m.contentType.toList.all fun c => !isBlank c && c != ';') = true := by
    cases m <;> decide +kernel
  simpa using hall

/-- **A content type in any case, between blanks and in front of parameters** says what it says
alone. -/
theorem isEssence_spelled {m : MimeType} {before name behind params : String}
    (hbefore : ∀ c ∈ before.toList, isBlank c) (hname : SameLetters name m.contentType)
    (hbehind : ∀ c ∈ behind.toList, isBlank c) (hparams : ∀ c ∈ params.toList.head?, c = ';') :
    IsEssence (before ++ name ++ behind ++ params) name := by
  have hplain : ∀ c ∈ name.toList, isBlank c = false ∧ c ≠ ';' :=
    hname.forall_mem (fun _ => isBlank_of_between) (contentType_plain m)
  have hblank : ∀ c, isBlank c → c ≠ ';' := by
    rintro c hc rfl
    cases hc
  refine ⟨before.toList ++ name.toList ++ behind.toList, params.toList, ?_, fun c hc => ?_,
    hparams, before.toList, behind.toList, rfl, hbefore, hbehind, ?_⟩
  · simp only [String.toList_append]
  · simp only [List.mem_append] at hc
    rcases hc with (hc | hc) | hc
    · exact hblank c (hbefore c hc)
    · exact (hplain c hc).2
    · exact hblank c (hbehind c hc)
  · exact isBare_of_forall fun c hc => (hplain c hc).1

theorem eq_of_isNamedBy {m n : MimeType} {s : String} (hm : m.IsNamedBy s) (hn : n.IsNamedBy s) :
    m = n :=
  eq_of_contentType ((isNamedBy_iff.mp hm).trans (isNamedBy_iff.mp hn).symm)

theorem eq_of_hasExtension {m n : MimeType} {s : String} (hm : m.HasExtension s)
    (hn : n.HasExtension s) : m = n :=
  eq_of_extensions (hasExtension_iff.mp hm) (hasExtension_iff.mp hn)

/-- **The registry accepts its grammar and nothing else.** A content type, read as such, from a data
value, from its text or from a YAML text, leads to the type that it names, and a text that names
none is refused as it stands; an extension leads to the type that has it. No text leads to two
types. A content type of the registry leads back to its type in any case, between blanks and with
parameters behind it. -/
theorem registry_lookup :
    (∀ s : String, (∃! t, IsEssence s t) ∧
      (∀ m, ofContentType s = .ok m ↔ m.IsNamedBy s) ∧
      (∀ e, ofContentType s = .error e ↔ e = ⟨s⟩ ∧ ∀ m : MimeType, ¬ m.IsNamedBy s)) ∧
    (∀ v : Json, (∀ m, Model.readValue MimeType v = .ok m ↔
        ∃ s, v = .string s ∧ m.IsNamedBy s) ∧
      ∀ s, v = .string s → (∀ m : MimeType, ¬ m.IsNamedBy s) →
        Model.readValue MimeType v = .error (.mime ⟨s⟩)) ∧
    (∀ text : String, (∀ m, Model.readText MimeType text = .ok m ↔
        ∃ s, Json.read text = .ok (.string s) ∧ m.IsNamedBy s) ∧
      ∀ s, Json.read text = .ok (.string s) → (∀ m : MimeType, ¬ m.IsNamedBy s) →
        ∃ rest, Model.readText MimeType text = .error (.loose (.mime ⟨s⟩) rest)) ∧
    (∀ (text : String) (m : MimeType), Model.readYaml MimeType text = some m ↔
      ∃ s, fromRoot textFromNode text = some s ∧ m.IsNamedBy s) ∧
    (∀ s : String, (∃! t, IsBareExtension s t) ∧
      ∀ m, ofExtension s = .ok m ↔ m.HasExtension s) ∧
    (∀ (s : String) (m n : MimeType), (m.IsNamedBy s → n.IsNamedBy s → m = n) ∧
      (m.HasExtension s → n.HasExtension s → m = n)) ∧
    ∀ (m : MimeType) (before name behind params : String),
      (∀ c ∈ before.toList, isBlank c) → SameLetters name m.contentType →
      (∀ c ∈ behind.toList, isBlank c) → (∀ c ∈ params.toList.head?, c = ';') →
      ofContentType (before ++ name ++ behind ++ params) = .ok m := by
  refine ⟨fun s => ⟨existsUnique_isEssence s, fun m => ofContentType_eq_ok_iff,
    fun e => ofContentType_eq_error_iff⟩, fun v => ⟨fun m => readValue_mime_eq_ok_iff, ?_⟩,
    fun text => ⟨fun m => readText_mime_eq_ok_iff, fun s => readText_mime_eq_error⟩,
    fun text m => readYaml_mime_eq_some_iff, fun s => ⟨existsUnique_isBareExtension s,
    fun m => ofExtension_eq_ok_iff⟩, fun s m n => ⟨eq_of_isNamedBy, eq_of_hasExtension⟩,
    fun m before name behind params hbefore hname hbehind hparams => ?_⟩
  · rintro s rfl
    exact ofValue_string_eq_error
  · have hessence := isEssence_spelled hbefore hname hbehind hparams
    exact ofContentType_eq_ok_iff.mpr ⟨name, hessence, hname⟩

theorem registry_lookup_capitals :
    ofContentType ("\u3000" ++ "Text/CSV" ++ " " ++ "; charset=utf-8") = .ok csv :=
  registry_lookup.2.2.2.2.2.2 csv "\u3000" "Text/CSV" " " "; charset=utf-8"
    (List.all_eq_true.mp (by decide)) (by decide) (List.all_eq_true.mp (by decide))
    fun _ hc => (Option.some.inj hc).symm

end MimeType

end Methodology
