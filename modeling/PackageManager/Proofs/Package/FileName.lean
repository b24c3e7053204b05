import PackageManager.Proofs.Files.Path
import PackageManager.Proofs.Package.Parts

/-!
# Names of package files

The name of a package file is made of the domain, with its labels in reverse, the name and the
version. None of them is changed, except that the labels trade places, so each character of the
name and of the domain is in the name of the file as well. A slash is among those that a specifier
may have in both.

The version can be told from what stands before it by the last dash, but the domain cannot be told
from the name: an underscore separates them, and both may have underscores of their own.

## Main results

* `slash_mem_fileName_iff` — which specifiers have a file name with a slash in it.
* `isName_fileName` — without a slash, a file name is one that an entry of a directory can have.
* `fileName_eq_iff_sharesFile` — which packages have the same file name.
* `ofFileName_eq_ok_iff` — which names are read as those of the file of a package.
* `fileName_roundtrip` — which packages are read from the names of their own files.
-/

namespace PackageManager

namespace Specifier

/-- Reversing the labels of a domain keeps its characters. -/
theorem mem_reverseLabels_iff {c : Char} (hc : c ≠ '.') (domain : List Char) :
    c ∈ reverseLabels domain ↔ c ∈ domain := by
  unfold reverseLabels
  rw [Text.mem_intercalate_singleton_iff hc]
  simp only [List.mem_reverse]
  rw [← Text.mem_intercalate_singleton_iff hc, List.intercalate_splitOn]

theorem slash_mem_fileName_iff (s : Specifier) :
    '/' ∈ s.fileName.toList ↔ '/' ∈ s.id.name.toList ∨ '/' ∈ s.id.domain.toList := by
  have hVersion : '/' ∉ s.version.chars := s.version.not_mem_chars (by decide) (by decide)
  have hDomain := mem_reverseLabels_iff (c := '/') (by decide) s.id.domain.toList
  simp [fileName, label, fileSuffix, hVersion, hDomain, or_comm]

/-- The ending alone is longer than the names that lead nowhere. -/
theorem length_encode_fileName (s : Specifier) : 5 ≤ (Text.encode s.fileName.toList).length := by
  have hSuffix : (Text.encode fileSuffix.toList).length = 5 := by decide
  unfold fileName
  rw [String.toList_append, Text.encode_append, List.length_append, hSuffix]
  exact Nat.le_add_left ..

theorem encode_fileName_ne (s : Specifier) {name : List UInt8} (hShort : name.length < 5) :
    Text.encode s.fileName.toList ≠ name := by
  rintro rfl
  exact absurd s.length_encode_fileName (Nat.not_le_of_lt hShort)

theorem leadsOn_fileName (s : Specifier) : FilePath.leadsOn (Text.encode s.fileName.toList) := by
  simp only [FilePath.leadsOn, decide_eq_true_eq]
  exact ⟨s.encode_fileName_ne (by decide), s.encode_fileName_ne (by decide)⟩

/-- There is no slash in a specifier. -/
def IsPlain (s : Specifier) : Prop := '/' ∉ s.id.name.toList ∧ '/' ∉ s.id.domain.toList

instance (s : Specifier) : Decidable s.IsPlain := by
  unfold IsPlain
  infer_instance

theorem isName_fileName {s : Specifier} (hPlain : s.IsPlain) :
    FilePath.IsName (Text.encode s.fileName.toList) where
  slash_not_mem := by
    rw [FilePath.slash_mem_encode_iff, slash_mem_fileName_iff, not_or]
    exact hPlain
  leadsOn := s.leadsOn_fileName
  ne_parent := s.encode_fileName_ne (by decide)

/-- The file of a package is an entry of the directory that its name is joined to exactly if the
specifier has no slash. -/
theorem isEntry_join_fileName_iff (s : Specifier) (root : FilePath) :
    (root.join (.ofText s.fileName)).IsEntry root (Text.encode s.fileName.toList) ↔
      '/' ∉ s.id.name.toList ∧ '/' ∉ s.id.domain.toList := by
  unfold FilePath.ofText
  rw [FilePath.isEntry_join_iff s.leadsOn_fileName, FilePath.slash_mem_encode_iff,
    slash_mem_fileName_iff, not_or]

theorem toList_fileName (s : Specifier) :
    s.fileName.toList = (reverseLabels s.id.domain.toList ++ '_' :: s.id.name.toList) ++
      '-' :: s.version.chars ++ fileSuffix.toList := by
  simp [fileName, label]

/-! ## The last name of a place -/

/-- Slashes in the name and the domain do not reach what stands behind them. -/
theorem exists_getLast?_names_fileName (s : Specifier) (root : FilePath) : ∃ front,
    (root.join (.ofText s.fileName)).names.getLast? =
      some (front ++ Text.encode ('-' :: s.version.chars ++ fileSuffix.toList)) := by
  have hSlash : FilePath.slash ∉ Text.encode ('-' :: s.version.chars ++ fileSuffix.toList) := by
    have hVersion : '/' ∉ s.version.chars := s.version.not_mem_chars (by decide) (by decide)
    rw [FilePath.slash_mem_encode_iff]
    simp [fileSuffix, hVersion]
  rw [FilePath.getLast?_names_join]
  unfold FilePath.names FilePath.ofText
  rw [toList_fileName, List.append_assoc, Text.encode_append]
  exact Text.exists_getLast?_splitOn_append hSlash _

/-- Wherever a package file goes, its last name is one that an entry of a directory can have. -/
theorem isName_getLast_fileName (s : Specifier) (root : FilePath) :
    FilePath.IsName ((root.join (.ofText s.fileName)).names.getLast?.getD []) := by
  obtain ⟨front, hLast⟩ := s.exists_getLast?_names_fileName root
  have hSuffix : (Text.encode fileSuffix.toList).length = 5 := by decide
  have hLong : 5 ≤ (front ++ Text.encode ('-' :: s.version.chars ++ fileSuffix.toList)).length := by
    rw [Text.encode_append, List.length_append, List.length_append, hSuffix]
    omega
  have hNe {name : List UInt8} (hShort : name.length < 5) :
      front ++ Text.encode ('-' :: s.version.chars ++ fileSuffix.toList) ≠ name := by
    rintro rfl
    exact absurd hLong (Nat.not_le_of_lt hShort)
  rw [hLast, Option.getD_some]
  refine ⟨?_, ?_, hNe (by decide)⟩
  · exact Text.not_mem_of_mem_splitOn (List.mem_of_getLast? hLast)
  · simp only [FilePath.leadsOn, decide_eq_true_eq]
    exact ⟨hNe (by decide), hNe (by decide)⟩

/-- There is a dash in that name, in front of the version. -/
theorem dash_mem_getLast_fileName (s : Specifier) (root : FilePath) :
    UInt8.ofNat '-'.toNat ∈ (root.join (.ofText s.fileName)).names.getLast?.getD [] := by
  obtain ⟨front, hLast⟩ := s.exists_getLast?_names_fileName root
  rw [hLast, Option.getD_some]
  refine List.mem_append_right _ ((Text.ofNat_mem_encode_iff (by decide) _).2 ?_)
  simp

/-! ## Packages that share a file -/

/-- Reversing the labels of a domain twice gives the domain. -/
theorem reverseLabels_reverseLabels (domain : List Char) :
    reverseLabels (reverseLabels domain) = domain := by
  have hLabels : (reverseLabels domain).splitOn '.' = (domain.splitOn '.').reverse := by
    refine List.splitOn_intercalate '.' ?_ ?_
    · intro label hLabel
      exact Text.not_mem_of_mem_splitOn (List.mem_reverse.1 hLabel)
    · simp
  unfold reverseLabels at hLabels ⊢
  rw [hLabels, List.reverse_reverse, List.intercalate_splitOn]

theorem reverseLabels_injective {d e : List Char} (hEq : reverseLabels d = reverseLabels e) :
    d = e := by
  rw [← reverseLabels_reverseLabels d, hEq, reverseLabels_reverseLabels]

/-- The domain of one package goes on with an underscore where that of the other one ends, and the
other name makes up for it. -/
def Overlaps (s t : Specifier) : Prop :=
  s.version = t.version ∧
    ∃ k, reverseLabels s.id.domain.toList = reverseLabels t.id.domain.toList ++ '_' :: k ∧
      t.id.name.toList = k ++ '_' :: s.id.name.toList

/-- Two packages are kept under one file name. -/
def SharesFile (s t : Specifier) : Prop := s = t ∨ s.Overlaps t ∨ t.Overlaps s

/-- File names are the same if what stands before the version is, and the version. -/
theorem fileName_eq_iff {s t : Specifier} :
    s.fileName = t.fileName ↔ s.version = t.version ∧
      reverseLabels s.id.domain.toList ++ '_' :: s.id.name.toList =
        reverseLabels t.id.domain.toList ++ '_' :: t.id.name.toList := by
  rw [← String.toList_inj, toList_fileName, toList_fileName, List.append_left_inj]
  constructor
  · intro hEq
    obtain ⟨hFront, hVersion⟩ :=
      Text.eq_of_append_cons_eq_last s.version.dash_not_mem_chars t.version.dash_not_mem_chars hEq
    exact ⟨Version.chars_injective hVersion, hFront⟩
  · rintro ⟨hVersion, hFront⟩
    rw [hVersion, hFront]

theorem fileName_eq_iff_sharesFile {s t : Specifier} :
    s.fileName = t.fileName ↔ s.SharesFile t := by
  rw [fileName_eq_iff, Text.append_cons_eq_append_cons_iff]
  constructor
  · rintro ⟨hVersion, ⟨hDomain, hName⟩ | ⟨k, hDomain, hName⟩ | ⟨k, hDomain, hName⟩⟩
    · left
      obtain ⟨⟨sName, sDomain⟩, sVersion⟩ := s
      obtain ⟨⟨tName, tDomain⟩, tVersion⟩ := t
      have hDomain := String.toList_inj.1 (reverseLabels_injective hDomain)
      have hName := String.toList_inj.1 hName
      simp_all
    · exact .inr (.inr ⟨hVersion.symm, k, hDomain, hName⟩)
    · exact .inr (.inl ⟨hVersion, k, hDomain, hName⟩)
  · rintro (rfl | ⟨hVersion, k, hDomain, hName⟩ | ⟨hVersion, k, hDomain, hName⟩)
    · exact ⟨rfl, .inl ⟨rfl, rfl⟩⟩
    · exact ⟨hVersion, .inr (.inr ⟨k, hDomain, hName⟩)⟩
    · exact ⟨hVersion.symm, .inr (.inl ⟨k, hDomain, hName⟩)⟩

instance (s t : Specifier) : Decidable (s.SharesFile t) :=
  decidable_of_iff _ fileName_eq_iff_sharesFile

/-- Only a domain with an underscore can go on like that. -/
theorem Overlaps.underscore_mem {s t : Specifier} (h : s.Overlaps t) :
    '_' ∈ s.id.domain.toList := by
  obtain ⟨-, k, hDomain, -⟩ := h
  rw [← mem_reverseLabels_iff (by decide), hDomain]
  simp

theorem SharesFile.eq {s t : Specifier} (h : s.SharesFile t) (hs : '_' ∉ s.id.domain.toList)
    (ht : '_' ∉ t.id.domain.toList) : s = t := by
  rcases h with hSame | hOverlaps | hOverlaps
  · exact hSame
  · exact absurd hOverlaps.underscore_mem hs
  · exact absurd hOverlaps.underscore_mem ht

/-! ## Reading the name of a file -/

/-- Where the name of a file is cut: its ending is taken away, and the first underscore is the one
behind the domain. -/
theorem cutName_eq_some_iff {cs reversed label : List Char} :
    (Text.beforeSuffix? fileSuffix.toList cs).bind (Text.cutFirst '_') = some (reversed, label) ↔
      cs = (reversed ++ '_' :: label) ++ fileSuffix.toList ∧ '_' ∉ reversed := by
  simp only [Option.bind_eq_some_iff, Text.beforeSuffix?_eq_some_iff, Text.cutFirst_eq_some_iff]
  constructor
  · rintro ⟨stem, rfl, rfl, hNone⟩
    exact ⟨rfl, hNone⟩
  · rintro ⟨rfl, hNone⟩
    exact ⟨_, rfl, rfl, hNone⟩

/-- A package is read from the name of its own file only, and not from that if its domain would be
cut. The labels of the domain, empty ones too, are put back in their order. -/
theorem ofFileName_eq_ok_iff {f : String} {s : Specifier} : ofFileName f = .ok s ↔
    f = s.fileName ∧ s.id.name ≠ "" ∧ s.id.domain ≠ "" ∧ '_' ∉ s.id.domain.toList := by
  have hUnderscore := mem_reverseLabels_iff (c := '_') (by decide) s.id.domain.toList
  have hName : s.fileName.toList =
      (reverseLabels s.id.domain.toList ++ '_' :: s.label.toList) ++ fileSuffix.toList := by
    simp [fileName]
  unfold ofFileName
  constructor
  · intro hRead
    split at hRead
    · next reversed label hCut =>
      obtain ⟨hText, hFirst⟩ := cutName_eq_some_iff.1 hCut
      obtain ⟨rfl, hReversed, hSome, hDomain⟩ := ofParts_eq_ok_iff.1 hRead
      obtain rfl : reversed = reverseLabels s.id.domain.toList := by
        rw [← hReversed, reverseLabels_reverseLabels]
      exact ⟨String.toList_inj.1 (hText.trans hName.symm), hSome, hDomain,
        fun h => hFirst (hUnderscore.2 h)⟩
    · cases hRead
  · rintro ⟨rfl, hSome, hDomain, hNone⟩
    rw [cutName_eq_some_iff.2 ⟨hName, fun h => hNone (hUnderscore.1 h)⟩]
    exact ofParts_eq_ok_iff.2 ⟨rfl, reverseLabels_reverseLabels _, hSome, hDomain⟩

/-- A file whose name is read as a package has the name of the file of that package. The name of the
file of a package is read as that package exactly if nothing in it is empty and its domain has no
underscore; the name may be any text, and so may the labels of the domain. -/
theorem fileName_roundtrip (s : Specifier) :
    (∀ f, ofFileName f = .ok s → s.fileName = f) ∧
      (ofFileName s.fileName = .ok s ↔
        s.id.name ≠ "" ∧ s.id.domain ≠ "" ∧ '_' ∉ s.id.domain.toList) := by
  refine ⟨fun f hRead => (ofFileName_eq_ok_iff.1 hRead).1.symm, ?_⟩
  rw [ofFileName_eq_ok_iff]
  exact and_iff_right rfl

/-- Points at the ends of a domain and side by side are kept, whatever the name has. An underscore
makes two packages of one name, and one of them is read. -/
theorem fileName_roundtrip_points :
    let s : Specifier := ⟨⟨"a_b.pakt-1.0.0", ".x..y."⟩, ⟨2, 0, 0⟩⟩
    let t : Specifier := ⟨⟨"a", "x_y"⟩, ⟨1, 0, 0⟩⟩
    s.fileName = ".y..x._a_b.pakt-1.0.0-2.0.0.pakt" ∧ ofFileName s.fileName = .ok s ∧
      (∀ f, ofFileName f = .ok s → s.fileName = f) ∧ ¬ofFileName t.fileName = .ok t := by
  intro s t
  obtain ⟨hWritten, hRead⟩ := fileName_roundtrip s
  obtain ⟨-, hCut⟩ := fileName_roundtrip t
  exact ⟨by decide +kernel, hRead.2 (by decide), hWritten,
    fun h => absurd (hCut.1 h).2.2 (by decide)⟩

end Specifier

end PackageManager
