import Methodology.Proofs.Text.Case
import Methodology.Proofs.Text.Trim
import Methodology.Vocabulary.Format

/-!
# Paths are resolved by the name that they end in

Where a path ends is said by the path as it stands: behind its last slash, but for slashes and
single dots at the end. The directories in front are not looked at.

* `IsTrail`, `EndsIn`, `IsNameless`: **the name that a path ends in**, and paths without one.
* `getLast?_components_eq_some_iff`, `components_eq_nil_iff`: the last component is that name.
* `extensionOf?_append`: what follows the last dot of a name.
* **`resolved_by_extension`**: both look-ups go by the extension of that name.
-/

namespace Methodology

open Text

namespace FilePath

/-- Slashes at the end of a path, each with or without a dot behind it. -/
inductive IsTrail : List Char → Prop
  | nil : IsTrail []
  | slash {trail} : IsTrail trail → IsTrail ('/' :: trail)
  | dot {trail} : IsTrail trail → IsTrail ('/' :: '.' :: trail)

/-- The part of a path in front of a name: nothing, or whatever ends in a slash. -/
def IsDirectory (dir : List Char) : Prop := dir = [] ∨ ∃ path, dir = path ++ ['/']

/-- A name: it is not empty and no single dot, and no slash divides it. -/
structure IsName (name : List Char) : Prop where
  ne_nil : name ≠ []
  ne_dot : name ≠ ['.']
  not_mem : '/' ∉ name

/-- **The name that a path ends in.** -/
def EndsIn (path name : List Char) : Prop :=
  ∃ dir trail, path = dir ++ name ++ trail ∧ IsDirectory dir ∧ IsName name ∧ IsTrail trail

/-- A path without a name: slashes and single dots, or nothing at all. -/
def IsNameless (path : List Char) : Prop :=
  IsTrail path ∨ ∃ trail, path = '.' :: trail ∧ IsTrail trail

/-! ## Components -/

/-- The components of a path as a list of characters. -/
def parts (cs : List Char) : List (List Char) :=
  (cut '/' cs).filter fun c => c != [] && c != ['.']

theorem cut_ne_nil (sep : Char) (cs : List Char) : cut sep cs ≠ [] := by
  cases cs with
  | nil => exact List.cons_ne_nil _ _
  | cons c cs =>
    rw [cut]
    split
    · exact List.cons_ne_nil _ _
    · split <;> exact List.cons_ne_nil _ _

theorem cut_append (sep : Char) (cs ds : List Char) :
    cut sep (cs ++ sep :: ds) = cut sep cs ++ cut sep ds := by
  induction cs with
  | nil => simp [cut]
  | cons c cs ih =>
    rw [List.cons_append, cut, cut, ih]
    split
    · rfl
    · obtain ⟨first, more, hcut⟩ := List.exists_cons_of_ne_nil (cut_ne_nil sep cs)
      rw [hcut]
      rfl

theorem cut_of_not_mem {sep : Char} {cs : List Char} (h : sep ∉ cs) : cut sep cs = [cs] := by
  induction cs with
  | nil => rfl
  | cons c cs ih =>
    rw [List.mem_cons, not_or] at h
    rw [cut, if_neg (Ne.symm h.1), ih h.2]

theorem parts_append (cs ds : List Char) : parts (cs ++ '/' :: ds) = parts cs ++ parts ds := by
  rw [parts, cut_append, List.filter_append]
  rfl

theorem IsName.parts_eq {name : List Char} (h : IsName name) : parts name = [name] := by
  rw [parts, cut_of_not_mem h.not_mem, List.filter_cons_of_pos, List.filter_nil]
  simp [h.ne_nil, h.ne_dot]

/-- **Slashes and single dots at the end** add no component. -/
theorem IsTrail.parts_append {trail : List Char} (h : IsTrail trail) (cs : List Char) :
    parts (cs ++ trail) = parts cs := by
  induction h generalizing cs with
  | nil => rw [List.append_nil]
  | @slash trail _ ih =>
    have hrest : parts trail = [] := ih []
    rw [FilePath.parts_append, hrest, List.append_nil]
  | @dot trail _ ih =>
    have hrest : parts ('.' :: trail) = [] := ih ['.']
    rw [FilePath.parts_append, hrest, List.append_nil]

theorem IsDirectory.parts_append {dir : List Char} (h : IsDirectory dir) (cs : List Char) :
    parts (dir ++ cs) = parts dir ++ parts cs := by
  rcases h with rfl | ⟨path, rfl⟩
  · rfl
  · have hpath : parts (path ++ ['/']) = parts path := (IsTrail.slash .nil).parts_append path
    rw [hpath, List.append_assoc, List.singleton_append, FilePath.parts_append]

theorem EndsIn.getLast?_parts {path name : List Char} (h : EndsIn path name) :
    (parts path).getLast? = some name := by
  obtain ⟨dir, trail, rfl, hdir, hname, htrail⟩ := h
  rw [htrail.parts_append, hdir.parts_append, hname.parts_eq, List.getLast?_concat]

theorem IsNameless.parts_eq {path : List Char} (h : IsNameless path) : parts path = [] := by
  rcases h with h | ⟨trail, rfl, h⟩
  · exact h.parts_append []
  · exact h.parts_append ['.']

/-! ## Every path -/

theorem IsTrail.append {cs ds : List Char} (hcs : IsTrail cs) (hds : IsTrail ds) :
    IsTrail (cs ++ ds) := by
  induction hcs with
  | nil => exact hds
  | slash _ ih => exact ih.slash
  | dot _ ih => exact ih.dot

theorem exists_directory (cs : List Char) : ∃ dir last, cs = dir ++ last ∧ IsDirectory dir ∧
    '/' ∉ last := by
  induction cs with
  | nil => exact ⟨[], [], rfl, .inl rfl, List.not_mem_nil⟩
  | cons c cs ih =>
    obtain ⟨dir, last, rfl, hdir, hlast⟩ := ih
    rcases hdir with rfl | ⟨path, rfl⟩
    · by_cases hc : c = '/'
      · exact ⟨['/'], last, by rw [hc]; rfl, .inr ⟨[], rfl⟩, hlast⟩
      · exact ⟨[], c :: last, rfl, .inl rfl, fun h => (List.mem_cons.mp h).elim (hc ·.symm) hlast⟩
    · exact ⟨c :: path ++ ['/'], last, rfl, .inr ⟨c :: path, rfl⟩, hlast⟩

theorem IsNameless.append {path trail : List Char} (h : IsNameless path) (htrail : IsTrail trail) :
    IsNameless (path ++ trail) := by
  rcases h with h | ⟨front, rfl, h⟩
  · exact .inl (h.append htrail)
  · exact .inr ⟨_, rfl, h.append htrail⟩

theorem EndsIn.append {path name trail : List Char} (h : EndsIn path name)
    (htrail : IsTrail trail) : EndsIn (path ++ trail) name := by
  obtain ⟨dir, front, rfl, hdir, hname, hfront⟩ := h
  exact ⟨dir, front ++ trail, List.append_assoc .., hdir, hname, hfront.append htrail⟩

/-- **A path ends in a name or has none.** -/
theorem isNameless_or_endsIn (path : List Char) : IsNameless path ∨ ∃ name, EndsIn path name := by
  -- slashes and dots are taken from the end until a name shows
  induction hn : path.length using Nat.strongRecOn generalizing path with
  | ind n ih =>
    have hshorter : ∀ front trail : List Char, path = front ++ trail → trail ≠ [] →
        IsTrail trail → IsNameless path ∨ ∃ name, EndsIn path name := by
      rintro front trail rfl hne htrail
      have hlt : front.length < n := by
        have := List.length_pos_iff.mpr hne
        rw [← hn, List.length_append]
        omega
      rcases ih _ hlt front rfl with h | ⟨name, h⟩
      · exact .inl (h.append htrail)
      · exact .inr ⟨name, h.append htrail⟩
    obtain ⟨dir, last, hpath, hdir, hlast⟩ := exists_directory path
    by_cases hname : IsName last
    · exact .inr ⟨last, dir, [], by rw [List.append_nil, hpath], hdir, hname, .nil⟩
    · have hlast : last = [] ∨ last = ['.'] := by
        by_contra h
        rw [not_or] at h
        exact hname ⟨h.1, h.2, hlast⟩
      rcases hdir with rfl | ⟨front, rfl⟩ <;> rcases hlast with rfl | rfl
      · exact .inl (.inl (hpath ▸ .nil))
      · exact .inl (.inr ⟨[], hpath, .nil⟩)
      · exact hshorter front ['/'] (by rw [hpath, List.append_nil]) (by decide) (.slash .nil)
      · exact hshorter front ['/', '.'] (by rw [hpath, List.append_assoc]; rfl) (by decide)
          (.dot .nil)

/-- **The last component of a path is the name that it ends in.** -/
theorem getLast?_components_eq_some_iff {path : String} {name : List Char} :
    (components path).getLast? = some name ↔ EndsIn path.toList name := by
  change (parts path.toList).getLast? = some name ↔ _
  refine ⟨fun h => ?_, EndsIn.getLast?_parts⟩
  rcases isNameless_or_endsIn path.toList with hnameless | ⟨other, hother⟩
  · rw [hnameless.parts_eq] at h
    cases h
  · rw [hother.getLast?_parts] at h
    exact Option.some.inj h ▸ hother

theorem components_eq_nil_iff {path : String} : components path = [] ↔ IsNameless path.toList := by
  change parts path.toList = [] ↔ _
  refine ⟨fun h => ?_, IsNameless.parts_eq⟩
  rcases isNameless_or_endsIn path.toList with hnameless | ⟨name, hname⟩
  · exact hnameless
  · have hlast := hname.getLast?_parts
    rw [h] at hlast
    cases hlast

/-! ## Extensions -/

/-- **What follows the last dot of a name**; nothing does if the dot is its first character. -/
theorem extensionOf?_append {front ext : List Char}
    (hfront : front = [] ∨ ∃ stem, front = stem ++ ['.']) (hext : '.' ∉ ext) :
    extensionOf? (front ++ ext) = if 1 < front.length then some ext else none := by
  have htail : (front ++ ext).reverse.takeWhile (· != '.') = ext.reverse := by
    refine takeWhile_eq_iff.mpr ⟨front.reverse, List.reverse_append, fun c hc => ?_, fun c hc => ?_⟩
    · have hne : c ≠ '.' := fun h => hext (h ▸ List.mem_reverse.mp hc)
      simpa using hne
    · rcases hfront with rfl | ⟨stem, rfl⟩
      · cases hc
      · rw [List.reverse_append] at hc
        cases hc
        rfl
  simp only [extensionOf?, htail, List.length_reverse, List.length_append, List.reverse_reverse]
  have hlength : ext.length + 1 < front.length + ext.length ↔ 1 < front.length := by omega
  simp only [hlength]

/-- A name without an extension: the one that goes up, one without a dot, and one whose only dot is
its first character. -/
def HasNoExtension (name : List Char) : Prop :=
  name = ['.', '.'] ∨ '.' ∉ name ∨ ∃ rest, name = '.' :: rest ∧ '.' ∉ rest

theorem fileName?_of_endsIn {path : String} {name : List Char} (h : EndsIn path.toList name) :
    fileName? path = if name = ['.', '.'] then none else some name := by
  rw [fileName?, getLast?_components_eq_some_iff.mpr h]

theorem extension?_of_endsIn {path stem ext : String} (hstem : stem ≠ "") (hext : ext ≠ "")
    (hdot : '.' ∉ ext.toList) (h : EndsIn path.toList (stem.toList ++ '.' :: ext.toList)) :
    extension? path = some ext := by
  have hstem : 0 < stem.toList.length :=
    List.length_pos_iff.mpr fun h => hstem (String.toList_eq_nil_iff.mp h)
  have hext : 0 < ext.toList.length :=
    List.length_pos_iff.mpr fun h => hext (String.toList_eq_nil_iff.mp h)
  have hup : stem.toList ++ '.' :: ext.toList ≠ ['.', '.'] := by
    intro h
    have hlength := congrArg List.length h
    simp only [List.length_append, List.length_cons, List.length_nil] at hlength
    omega
  have hfront : 1 < (stem.toList ++ ['.']).length := by
    rw [List.length_append, List.length_singleton]
    omega
  rw [extension?, fileName?_of_endsIn h, if_neg hup, Option.bind_some,
    List.append_cons, extensionOf?_append (.inr ⟨_, rfl⟩) hdot, if_pos hfront, Option.map_some,
    String.ofList_toList]

theorem extension?_of_hasNoExtension {path : String} (h : IsNameless path.toList ∨
    ∃ name, EndsIn path.toList name ∧ HasNoExtension name) : extension? path = none := by
  rcases h with h | ⟨name, hends, hname⟩
  · rw [extension?, fileName?, components_eq_nil_iff.mpr h]
    rfl
  · rw [extension?, fileName?_of_endsIn hends]
    split
    · rfl
    · next hup =>
      have hnone : extensionOf? name = none := by
        rcases hname with h | h | ⟨rest, rfl, h⟩
        · exact absurd h hup
        · exact extensionOf?_append (.inl rfl) h
        · exact extensionOf?_append (.inr ⟨[], rfl⟩) h
      rw [Option.bind_some, hnone]
      rfl

/-! ## The two look-ups -/

theorem ofPath_of_extension? {path ext : String} (h : extension? path = some ext) :
    (Format.ofPath path = .ok .yaml ↔ SameLetters ext "yaml" ∨ SameLetters ext "yml") ∧
    (Format.ofPath path = .ok .json ↔ SameLetters ext "json") ∧
    ∀ e, Format.ofPath path = .error e ↔ e = .unsupportedFormat path ∧
      ¬ SameLetters ext "yaml" ∧ ¬ SameLetters ext "yml" ∧ ¬ SameLetters ext "json" := by
  have hsmall : foldCase "yaml" = "yaml" ∧ foldCase "yml" = "yml" ∧ foldCase "json" = "json" := by
    decide +kernel
  simp only [sameLetters_iff, hsmall, Format.ofPath, h, Option.map_some]
  split
  · next heq => simp [Option.some.inj heq]
  · next heq => simp [Option.some.inj heq]
  · next heq => simp [Option.some.inj heq]
  · next hyaml hyml hjson =>
    have hyaml : foldCase ext ≠ "yaml" := fun h => hyaml (congrArg some h)
    have hyml : foldCase ext ≠ "yml" := fun h => hyml (congrArg some h)
    have hjson : foldCase ext ≠ "json" := fun h => hjson (congrArg some h)
    simp [hyaml, hyml, hjson, eq_comm]

/-- **Paths are resolved by the extension of the name that they end in**, whatever directories stand
in front of it and whatever slashes and single dots behind it. The format is told by the extension
in any case, the file type is that of the extension. A path without a name, or whose name has no
extension, is refused as it stands. -/
theorem resolved_by_extension (path : String) :
    (∀ stem ext : String, stem ≠ "" → ext ≠ "" → '.' ∉ ext.toList →
      EndsIn path.toList (stem.toList ++ '.' :: ext.toList) →
      (Format.ofPath path = .ok .yaml ↔ SameLetters ext "yaml" ∨ SameLetters ext "yml") ∧
      (Format.ofPath path = .ok .json ↔ SameLetters ext "json") ∧
      (∀ e, Format.ofPath path = .error e ↔ e = .unsupportedFormat path ∧
        ¬ SameLetters ext "yaml" ∧ ¬ SameLetters ext "yml" ∧ ¬ SameLetters ext "json") ∧
      MimeType.ofPath path = MimeType.ofExtension ext) ∧
    ((IsNameless path.toList ∨ ∃ name, EndsIn path.toList name ∧ HasNoExtension name) →
      Format.ofPath path = .error (.unsupportedFormat path) ∧
      MimeType.ofPath path = .error ⟨path⟩) := by
  constructor
  · intro stem ext hstem hext hdot hends
    have hextension := extension?_of_endsIn hstem hext hdot hends
    obtain ⟨hyaml, hjson, herror⟩ := ofPath_of_extension? hextension
    exact ⟨hyaml, hjson, herror, by rw [MimeType.ofPath, hextension]⟩
  · intro h
    have hextension := extension?_of_hasNoExtension h
    constructor
    · rw [Format.ofPath, hextension]
      rfl
    · rw [MimeType.ofPath, hextension]

/-- A path with dots in a directory and in the stem, and with a slash and a dot at its end. -/
def dottedPath : String := "v1.2//m.old.YML/./"

theorem endsIn_dottedPath : EndsIn dottedPath.toList ("m.old".toList ++ '.' :: "YML".toList) :=
  ⟨"v1.2//".toList, ['/', '.', '/'], by decide, .inr ⟨"v1.2/".toList, by decide⟩,
    ⟨by decide, by decide, by decide⟩, .dot (.slash .nil)⟩

/-- A hidden file in a directory with a dot. -/
def hiddenPath : String := "v1.2/.csv"

theorem endsIn_hiddenPath : EndsIn hiddenPath.toList ".csv".toList :=
  ⟨"v1.2/".toList, [], by decide, .inr ⟨"v1.2".toList, by decide⟩,
    ⟨by decide, by decide, by decide⟩, .nil⟩

theorem resolved_by_extension_dottedPath :
    Format.ofPath dottedPath = .ok .yaml ∧
    MimeType.ofPath dottedPath = MimeType.ofExtension "YML" ∧
    Format.ofPath hiddenPath = .error (.unsupportedFormat hiddenPath) ∧
    MimeType.ofPath hiddenPath = .error ⟨hiddenPath⟩ := by
  obtain ⟨hyaml, -, -, hmime⟩ := (resolved_by_extension dottedPath).1 "m.old" "YML" (by decide)
    (by decide) (by decide) endsIn_dottedPath
  have hhidden := (resolved_by_extension hiddenPath).2
    (.inr ⟨_, endsIn_hiddenPath, .inr (.inr ⟨"csv".toList, by decide, by decide⟩)⟩)
  exact ⟨hyaml.mpr (.inr (by decide)), hmime, hhidden⟩

end FilePath

end Methodology
