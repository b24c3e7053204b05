import PackageManager.Proofs.Traversal
import PackageManager.Url.Parser

/-!
# URLs of files

The URL of a file is read by rules of its own: it has a host and neither a login nor a port, and no
empty segment comes before its first name. However such a URL has come about, it has this form, and
a path that goes on from there stays in it.

## Main results

* `IsRead.isFile` — the form of the URLs of files, once they are read.
-/

namespace PackageManager.Url

/-- The URLs that come out of the reader: those that texts spell, alone or where another such URL is
known, and the directories of these. -/
inductive IsRead : Url → Prop
  | parse {s : String} {u : Url} (h : Url.parse s = .ok u) : IsRead u
  | join {base u : Url} {s : String} (hBase : IsRead base) (h : base.join s = .ok u) : IsRead u
  | asDirectory {u : Url} (h : IsRead u) : IsRead u.asDirectory

/-- The form of the URL of a file. -/
structure IsFile (u : Url) : Prop where
  host : ∃ h, u.authority = some { host := h }
  path : ∃ l, u.path = .segments l ∧ ∀ second rest, l ≠ "" :: second :: rest

theorem withoutLeadingEmpty_ne (path : List String) (second : String) (rest : List String) :
    withoutLeadingEmpty path ≠ "" :: second :: rest := by
  unfold withoutLeadingEmpty
  split
  · simp
  · next p ps hDrop =>
    rintro hEq
    obtain ⟨rfl, -⟩ := List.cons.inj hEq
    have hHead := List.head?_dropWhile_not (fun s : String => decide (s = "")) path
    simp [hDrop] at hHead

theorem isFile_fileUrl (r : Reference) (h : Host) {path : List String}
    (hPath : ∀ second rest, path ≠ "" :: second :: rest) : (fileUrl r h path).IsFile :=
  ⟨⟨h, rfl⟩, path, rfl, hPath⟩

theorem isFile_hostedFileUrl (r : Reference) (h : Host) (cs : List Char) :
    (hostedFileUrl r h cs).IsFile := by
  unfold hostedFileUrl
  split <;> exact isFile_fileUrl r _ (withoutLeadingEmpty_ne _)

theorem isFile_single (r : Reference) (a : Char) (rest : List Char) (h : Host)
    (path : List String) : (readFile.single r a rest h path).IsFile := by
  have hExtended (h : Host) (path : List String) (cs : List Char) :
      (fileUrl r h (extendFilePath path cs)).IsFile :=
    isFile_fileUrl r h (withoutLeadingEmpty_ne _)
  unfold readFile.single
  split
  · split
    · exact hExtended _ _ _
    · split
      · split <;> exact hExtended _ _ _
      · exact hExtended _ _ _
  · split <;> exact hExtended _ _ _

theorem isFile_readFile {base? : Option Url} (hBase : ∀ b ∈ base?, b.IsFile) {r : Reference}
    {u : Url} (hRead : readFile base? r = .ok u) : u.IsFile := by
  unfold readFile at hRead
  dsimp only at hRead
  split at hRead
  · split at hRead
    · split at hRead
      · obtain rfl := Except.ok.inj hRead
        exact isFile_fileUrl r _ (withoutLeadingEmpty_ne _)
      · obtain ⟨h, -, hUrl⟩ := ok_of_bind hRead
        obtain rfl := Except.ok.inj hUrl
        exact isFile_hostedFileUrl r h _
    · obtain rfl := Except.ok.inj hRead
      exact isFile_single r _ _ _ _
  · obtain rfl := Except.ok.inj hRead
    exact isFile_single r _ _ _ _
  · obtain rfl := Except.ok.inj hRead
    cases base? with
    | none => exact isFile_fileUrl r _ (by simp)
    | some base => exact ⟨(hBase base rfl).host, (hBase base rfl).path⟩

theorem scheme_of_afterSlashes {scheme : String} {r : Reference} {body : List Char} {u : Url}
    (hRead : afterSlashes scheme r body = .ok u) : u.scheme = scheme := by
  unfold afterSlashes at hRead
  obtain ⟨a, -, hUrl⟩ := ok_of_bind hRead
  obtain rfl := Except.ok.inj hUrl
  rfl

theorem scheme_of_readRelative {base : Url} {r : Reference} {u : Url}
    (hRead : readRelative base r = .ok u) : u.scheme = base.scheme := by
  unfold readRelative at hRead
  dsimp only at hRead
  split at hRead
  · obtain rfl := Except.ok.inj hRead
    rfl
  · split at hRead
    · split at hRead
      · split at hRead
        · split at hRead <;> exact scheme_of_afterSlashes hRead
        · obtain rfl := Except.ok.inj hRead
          rfl
      · obtain rfl := Except.ok.inj hRead
        rfl
    · obtain rfl := Except.ok.inj hRead
      rfl

theorem scheme_of_readAbsolute {base? : Option Url} {scheme : String} (hFile : scheme ≠ "file")
    {rest : List Char} {u : Url} (hRead : readAbsolute base? scheme rest = .ok u) :
    u.scheme = scheme := by
  unfold readAbsolute at hRead
  simp only [if_neg hFile] at hRead
  split at hRead
  · split at hRead
    · next base hBase =>
      rw [scheme_of_readRelative hRead]
      exact (of_decide_eq_true (Option.filter_eq_some_iff.1 hBase).2).1
    · exact scheme_of_afterSlashes hRead
  · split at hRead
    · exact scheme_of_afterSlashes hRead
    · obtain rfl := Except.ok.inj hRead
      rfl
    · obtain rfl := Except.ok.inj hRead
      rfl

theorem isFile_of_read {base? : Option Url} (hBase : ∀ b ∈ base?, b.scheme = "file" → b.IsFile)
    {s : String} {u : Url} (hRead : read base? s = .ok u) (hFile : u.scheme = "file") :
    u.IsFile := by
  unfold read at hRead
  dsimp only at hRead
  split at hRead
  · next scheme rest hScheme =>
    by_cases hAbsolute : scheme = "file"
    · unfold readAbsolute at hRead
      rw [if_pos hAbsolute] at hRead
      refine isFile_readFile (fun b hb => ?_) hRead
      obtain ⟨hb, hScheme⟩ := Option.filter_eq_some_iff.1 hb
      exact hBase b hb (of_decide_eq_true hScheme)
    · exact absurd ((scheme_of_readAbsolute hAbsolute hRead).symm.trans hFile) hAbsolute
  · split at hRead
    · cases hRead
    next base =>
    split at hRead
    · obtain rfl := Except.ok.inj hRead
      exact ⟨(hBase base rfl hFile).host, (hBase base rfl hFile).path⟩
    split at hRead
    · cases hRead
    split at hRead
    · next hScheme =>
      refine isFile_readFile (fun b hb => ?_) hRead
      obtain rfl := Option.some.inj hb
      exact hBase _ rfl hScheme
    · next hOther => exact absurd ((scheme_of_readRelative hRead).symm.trans hFile) hOther

theorem scheme_asDirectory (u : Url) : u.asDirectory.scheme = u.scheme := by
  unfold asDirectory
  split <;> split <;> rfl

theorem isFile_asDirectory {u : Url} (hFile : u.IsFile) : u.asDirectory.IsFile := by
  obtain ⟨l, hPath, hNames⟩ := hFile.path
  unfold asDirectory
  rw [hPath]
  dsimp only
  split
  · exact hFile
  next hOpen =>
  refine ⟨hFile.host, _, rfl, fun second rest hEq => ?_⟩
  cases l with
  | nil => simp at hEq
  | cons first more =>
      obtain ⟨rfl, hMore⟩ := List.cons.inj hEq
      cases more with
      | nil => exact hOpen rfl
      | cons next more => exact hNames next more rfl

/-- The URL of a file has one form, once it is read. -/
theorem IsRead.isFile {u : Url} (h : u.IsRead) (hFile : u.scheme = "file") : u.IsFile := by
  induction h with
  | parse hRead => exact isFile_of_read (by simp) hRead hFile
  | join _ hRead ih =>
      refine isFile_of_read (fun b hb => ?_) hRead hFile
      obtain rfl := Option.some.inj hb
      exact ih
  | asDirectory _ ih => exact isFile_asDirectory (ih (scheme_asDirectory _ ▸ hFile))

end PackageManager.Url
