import PackageManager.Proofs.Files.Store
import PackageManager.Proofs.Registry.Downloads

/-!
# Downloads that share a file

A download stays where it is until another one takes its place. It can only be displaced by a
package with the same file name, because a download changes nothing but its own entry of the
download directory; and there are such packages, because a domain with an underscore in it can end
where another package's name goes on. Names and domains without a slash are the only ones for which
the place of a file can be read off its path.

## Main results

* `fetches_keep_packages_apart` — which downloads have the same path, and how long they stay.
* `fetch_replaces_other_package` — a download is displaced by that of another package.
-/

namespace PackageManager.Registry.Downloads

variable {ν : Type} {network : Network ν} {d : Downloads} {s₀ s : Session ν}

/-- A package file that has been fetched from a server. -/
structure Fetched where
  path : FilePath
  octets : ByteArray
  manifest : PackageManifest

/-- The package that a file says it is. -/
def Fetched.specifier (a : Fetched) : Specifier := a.manifest.specifier

/-- What has been fetched from servers so far, where fetches may have failed in between. -/
inductive Fetches (network : Network ν) (d : Downloads) (s₀ : Session ν) :
    Session ν → List Fetched → Prop
  | start : Fetches network d s₀ s₀ []
  | fetched {s s' : Session ν} {l : List Fetched} {url : Url} {a : Fetched} {status : Nat} {n : ν}
      (h : Fetches network d s₀ s l) (hScheme : url.scheme = "http" ∨ url.scheme = "https")
      (hFetch : d.fetch network url s = (.ok a.path, s'))
      (hReply : request network d.retries url s.network = (.ok ⟨status, .complete a.octets⟩, n))
      (hManifest : PackageManifest.ofOctets (d.root.join unnamedDownload) a.octets =
        .ok a.manifest) : Fetches network d s₀ s' (l ++ [a])
  | failed {s s' : Session ν} {l : List Fetched} {url : Url} {f : Fault}
      (h : Fetches network d s₀ s l) (hFetch : d.fetch network url s = (.error f, s')) :
      Fetches network d s₀ s' l

/-- Where a package goes. -/
def place (d : Downloads) (s : Specifier) : FilePath := d.root.join (.ofText s.fileName)

/-! ## One fetch -/

/-- A fetch from a server puts what it received at the place of the package. -/
theorem fetch_eq_ok {s s' : Session ν} {url : Url} {a : Fetched} {status : Nat} {n : ν}
    (hScheme : url.scheme = "http" ∨ url.scheme = "https")
    (hFetch : d.fetch network url s = (.ok a.path, s'))
    (hReply : request network d.retries url s.network = (.ok ⟨status, .complete a.octets⟩, n))
    (hManifest : PackageManifest.ofOctets (d.root.join unnamedDownload) a.octets =
      .ok a.manifest) :
    a.path = d.place a.specifier ∧
      s.files.place (d.place a.specifier) a.octets = .ok s'.files := by
  rw [fetch_eq_download hScheme] at hFetch
  obtain ⟨r, n', hRequest, files, hStore, rfl⟩ := download_eq_ok hFetch
  obtain ⟨-, octets, manifest, hBody, hManifest', hPath, hPlaced⟩ := store_eq_ok hStore
  rw [hReply] at hRequest
  obtain ⟨hResponse, -⟩ := Prod.mk.inj hRequest
  obtain rfl := Except.ok.inj hResponse
  obtain rfl := Body.complete.inj hBody
  rw [hManifest] at hManifest'
  obtain rfl := Except.ok.inj hManifest'
  have hPath : a.path = d.place a.specifier := hPath
  rw [hPath] at hPlaced
  exact ⟨hPath, hPlaced⟩

/-- A fetch that fails leaves the files alone. -/
theorem files_of_fetch_eq_error {s s' : Session ν} {url : Url} {f : Fault}
    (hFetch : d.fetch network url s = (.error f, s')) : s'.files = s.files := by
  have hDownload (h : d.download network url s = (.error f, s')) : s'.files = s.files := by
    unfold download onNetwork at h
    rcases hRequest : request network d.retries url s.network with ⟨g | r, n⟩
    · simp only [hRequest, Prod.mk.injEq] at h
      rw [← h.2]
    · simp only [hRequest] at h
      cases hStore : d.store url r s.files with
      | error g =>
          simp only [hStore, Prod.mk.injEq] at h
          rw [← h.2]
      | ok stored => simp [hStore] at h
  unfold fetch at hFetch
  split at hFetch
  · split at hFetch
    · cases hFetch
    · rw [← (Prod.mk.inj hFetch).2]
  · exact hDownload hFetch
  · exact hDownload hFetch
  · rw [← (Prod.mk.inj hFetch).2]

/-! ## Places -/

/-- Packages whose file names are alike in being absolute or not have one place exactly if they
share a file. -/
theorem place_eq_place_iff {s t : Specifier}
    (hAlike : (FilePath.ofText s.fileName).isAbsolute = (FilePath.ofText t.fileName).isAbsolute) :
    d.place s = d.place t ↔ s.SharesFile t := by
  rw [← Specifier.fileName_eq_iff_sharesFile]
  constructor
  · intro hEq
    have hOctets := FilePath.mk.inj (FilePath.eq_of_join_eq_join hAlike hEq)
    exact String.toList_inj.1 (Text.encode_injective hOctets)
  · intro hEq
    rw [place, place, hEq]

/-- The last name of the place of a package is its file name. -/
theorem getLast?_names_place {s : Specifier} (hPlain : s.IsPlain) :
    (d.place s).names.getLast?.getD [] = Text.encode s.fileName.toList := by
  obtain ⟨l, hNames⟩ := FilePath.exists_names_join d.root
  obtain ⟨hNames, -⟩ := hNames _ (Specifier.isName_fileName hPlain).slash_not_mem
  unfold place FilePath.ofText
  rw [hNames, List.getLast?_concat, Option.getD_some]

/-- The file of a package stays when that of another one is put at its place. -/
theorem lookup_place_other {files files' : FileStore} {s t : Specifier} (hs : s.IsPlain)
    (ht : t.IsPlain) (hOther : ¬ s.SharesFile t) {octets : ByteArray} {e : FileEntry}
    (hPlace : files.place (d.place t) octets = .ok files')
    (hLookup : files.lookup (d.place s) = .ok e) : files'.lookup (d.place s) = .ok e := by
  have hName : FilePath.IsName ((d.place t).names.getLast?.getD []) := by
    rw [getLast?_names_place ht]
    exact Specifier.isName_fileName ht
  refine FileStore.lookup_place_of_ne hPlace hName hLookup ?_
  intro hSame
  obtain ⟨-, -, k, hResolve, -⟩ := FileStore.place_spec hPlace hName
  have hOctets := FileStore.resolve_join_injective (Specifier.isName_fileName hs)
    (Specifier.isName_fileName ht) (hSame.trans hResolve) hResolve
  exact hOther (Specifier.fileName_eq_iff_sharesFile.1
    (String.toList_inj.1 (Text.encode_injective hOctets)))

theorem lookup_place_same {files files' : FileStore} {s : Specifier} (hs : s.IsPlain)
    {octets : ByteArray} (hPlace : files.place (d.place s) octets = .ok files') :
    files'.lookup (d.place s) = .ok (.file octets) := by
  refine FileStore.lookup_place_self hPlace ?_
  rw [getLast?_names_place hs]
  exact Specifier.isName_fileName hs

/-! ## Any number of fetches -/

theorem Fetches.path_eq {l : List Fetched} (h : Fetches network d s₀ s l) {a : Fetched}
    (ha : a ∈ l) : a.path = d.place a.specifier := by
  induction h with
  | start => cases ha
  | fetched h hScheme hFetch hReply hManifest ih =>
      rcases List.mem_append.1 ha with ha | ha
      · exact ih ha
      · obtain rfl := List.mem_singleton.1 ha
        exact (fetch_eq_ok hScheme hFetch hReply hManifest).1
  | failed h hFetch ih => exact ih ha

/-- What was fetched stays until a package is fetched that shares its file. -/
theorem Fetches.lookup_eq {l : List Fetched} (h : Fetches network d s₀ s l)
    {l₁ l₂ : List Fetched} {a : Fetched} (hl : l = l₁ ++ a :: l₂) (ha : a.specifier.IsPlain)
    (hOthers : ∀ b ∈ l₂, b.specifier.IsPlain ∧ ¬ a.specifier.SharesFile b.specifier) :
    s.files.lookup a.path = .ok (.file a.octets) := by
  induction h generalizing l₂ with
  | start => simp at hl
  | failed h hFetch ih =>
      rw [files_of_fetch_eq_error hFetch]
      exact ih hl hOthers
  | @fetched s s' l url b status n h hScheme hFetch hReply hManifest ih =>
      obtain ⟨hPath, hPlace⟩ := fetch_eq_ok hScheme hFetch hReply hManifest
      rcases List.eq_nil_or_concat l₂ with rfl | ⟨l₂, c, rfl⟩
      · obtain ⟨rfl, hLast⟩ := List.append_inj' hl rfl
        obtain rfl := List.singleton_inj.1 hLast
        rw [hPath]
        exact lookup_place_same ha hPlace
      · rw [List.concat_eq_append, ← List.cons_append, ← List.append_assoc] at hl
        obtain ⟨hFront, hLast⟩ := List.append_inj' hl rfl
        obtain rfl := List.singleton_inj.1 hLast
        obtain ⟨hb, hOther⟩ := hOthers b (by simp)
        have hBefore := ih hFront fun c hc => hOthers c (by simp [hc])
        have hMem : a ∈ l := by simp [hFront]
        rw [h.path_eq hMem] at hBefore ⊢
        exact lookup_place_other ha hb hOther hPlace hBefore

/-- Nothing that is fetched from a server is left out. -/
theorem Fetches.exists_fetched {s s' : Session ν} {l : List Fetched}
    (h : Fetches network d s₀ s l) {url : Url} {path : FilePath}
    (hScheme : url.scheme = "http" ∨ url.scheme = "https")
    (hFetch : d.fetch network url s = (.ok path, s')) :
    ∃ a, a.path = path ∧ Fetches network d s₀ s' (l ++ [a]) := by
  have hDownload := hFetch
  rw [fetch_eq_download hScheme] at hDownload
  obtain ⟨⟨status, body⟩, n, hRequest, files, hStore, -⟩ := download_eq_ok hDownload
  obtain ⟨-, octets, manifest, rfl, hManifest, -, -⟩ := store_eq_ok hStore
  exact ⟨⟨path, octets, manifest⟩, rfl, .fetched h hScheme hFetch hRequest hManifest⟩

/-- Two packages that were fetched have one path exactly if they share a file, that is if they are
one package, or the domain of one goes on with an underscore where that of the other ends; this
cannot happen to domains without underscores. And what was fetched is at its place as it was
received, until a package is fetched that shares its file. -/
theorem fetches_keep_packages_apart {l : List Fetched} (hFetches : Fetches network d s₀ s l) :
    (∀ a ∈ l, ∀ b ∈ l,
      ((FilePath.ofText a.specifier.fileName).isAbsolute =
          (FilePath.ofText b.specifier.fileName).isAbsolute →
        (a.path = b.path ↔ a.specifier.SharesFile b.specifier)) ∧
      ('_' ∉ a.specifier.id.domain.toList → '_' ∉ b.specifier.id.domain.toList →
        a.specifier.SharesFile b.specifier → a.specifier = b.specifier)) ∧
    ∀ l₁ a l₂, l = l₁ ++ a :: l₂ → a.specifier.IsPlain →
      (∀ b ∈ l₂, b.specifier.IsPlain ∧ ¬ a.specifier.SharesFile b.specifier) →
      s.files.lookup a.path = .ok (.file a.octets) := by
  refine ⟨fun a ha b hb => ⟨fun hAlike => ?_, fun hFirst hSecond hShares => ?_⟩, ?_⟩
  · rw [hFetches.path_eq ha, hFetches.path_eq hb]
    exact place_eq_place_iff hAlike
  · exact hShares.eq hFirst hSecond
  · intro l₁ a l₂ hl ha hOthers
    exact hFetches.lookup_eq hl ha hOthers

/-! ## Packages that cannot be told apart -/

/-- The file of a package without requirements. -/
def plainFile (name : String) : ByteArray :=
  ("[package]\nspecifier = \"" ++ name ++ "\"\n").toUTF8

/-- A server that has such a file under the name of every package. -/
def mirror : Network Unit where
  request u n :=
    match u.path with
    | .segments [name] => (.response ⟨200, .complete (plainFile name)⟩, n)
    | _ => (.response ⟨404, .complete .empty⟩, n)
  clock n := (⟨0, 0⟩, n)

def mirrorUrl (s : Specifier) : Url where
  scheme := "http"
  authority := some { host := .name "pkgs.test" }
  path := .segments [s.text]

/-- The files of the mirror are downloaded into an empty directory. -/
def mirrorStart : Session Unit where
  files := { entries := .ofList [(["dl"], .directory)] }
  network := ()

def mirrorDownloads : Downloads where
  root := .ofText "/dl"

/-- What is fetched from the mirror for a package. -/
def mirrored (s : Specifier) : Fetched where
  path := mirrorDownloads.place s
  octets := plainFile s.text
  manifest := { specifier := s }

/-- The session after packages have been fetched from the mirror. -/
def mirrorSession : List Specifier → Session Unit
  | [] => mirrorStart
  | s :: l => (mirrorDownloads.fetch mirror (mirrorUrl s) (mirrorSession l)).2

theorem fetches_mirrored {l : List Specifier} {fetched : List Fetched} {s : Specifier}
    (h : Fetches mirror mirrorDownloads mirrorStart (mirrorSession l) fetched)
    (hPath : (mirrorDownloads.fetch mirror (mirrorUrl s) (mirrorSession l)).1.toOption =
      some (mirrored s).path)
    (hManifest : (PackageManifest.ofOctets (mirrorDownloads.root.join unnamedDownload)
      (mirrored s).octets).toOption = some (mirrored s).manifest) :
    Fetches mirror mirrorDownloads mirrorStart (mirrorSession (s :: l))
      (fetched ++ [mirrored s]) := by
  have hFetch : mirrorDownloads.fetch mirror (mirrorUrl s) (mirrorSession l) =
      (.ok (mirrored s).path, mirrorSession (s :: l)) := by
    rw [mirrorSession]
    exact Prod.ext (ok_of_toOption hPath) rfl
  have hReply : request mirror mirrorDownloads.retries (mirrorUrl s) (mirrorSession l).network =
      (.ok ⟨200, .complete (mirrored s).octets⟩, ()) := by
    simp [mirrored, request, attempts, mirrorDownloads, mirror, mirrorUrl, isServerFailure]
  have hScheme : (mirrorUrl s).scheme = "http" ∨ (mirrorUrl s).scheme = "https" := .inl rfl
  exact .fetched h hScheme hFetch hReply (ok_of_toOption hManifest)

/-- Three packages, of which the last two share a file. -/
def alpha : Specifier := ⟨⟨"a", "x"⟩, ⟨1, 0, 0⟩⟩

def beta : Specifier := ⟨⟨"c", "a_b"⟩, ⟨1, 0, 0⟩⟩

def gamma : Specifier := ⟨⟨"b_c", "a"⟩, ⟨1, 0, 0⟩⟩

theorem fetches_alpha_beta : Fetches mirror mirrorDownloads mirrorStart
    (mirrorSession [beta, alpha]) [mirrored alpha, mirrored beta] := by
  have hAlpha : Fetches mirror mirrorDownloads mirrorStart (mirrorSession [alpha])
      ([] ++ [mirrored alpha]) :=
    fetches_mirrored .start (by decide +kernel) (by decide +kernel)
  exact fetches_mirrored hAlpha (by decide +kernel) (by decide +kernel)

theorem fetches_alpha_beta_gamma : Fetches mirror mirrorDownloads mirrorStart
    (mirrorSession [gamma, beta, alpha]) [mirrored alpha, mirrored beta, mirrored gamma] :=
  fetches_mirrored fetches_alpha_beta (by decide +kernel) (by decide +kernel)

theorem fetches_keep_packages_apart_short :
    Fetches mirror mirrorDownloads mirrorStart (mirrorSession [gamma, beta, alpha])
      [mirrored alpha, mirrored beta, mirrored gamma] ∧
    ((mirrored alpha).path = (mirrored beta).path ↔ alpha.SharesFile beta) ∧
    ((mirrored beta).path = (mirrored gamma).path ↔ beta.SharesFile gamma) ∧
    ¬ alpha.SharesFile beta ∧ beta.SharesFile gamma ∧
    (mirrorSession [gamma, beta, alpha]).files.lookup (mirrored alpha).path =
      .ok (.file (mirrored alpha).octets) := by
  obtain ⟨hPaths, hFiles⟩ := fetches_keep_packages_apart fetches_alpha_beta_gamma
  refine ⟨fetches_alpha_beta_gamma, ?_, ?_, by decide +kernel, by decide +kernel, ?_⟩
  · exact (hPaths (mirrored alpha) (by simp) (mirrored beta) (by simp)).1 (by decide +kernel)
  · exact (hPaths (mirrored beta) (by simp) (mirrored gamma) (by simp)).1 (by decide +kernel)
  · refine hFiles [] (mirrored alpha) [mirrored beta, mirrored gamma] rfl (by decide +kernel) ?_
    intro b hb
    rcases List.mem_pair.1 hb with rfl | rfl
    · exact ⟨by decide +kernel, by decide +kernel⟩
    · exact ⟨by decide +kernel, by decide +kernel⟩

/-- The file of one package takes the place of that of another one. -/
theorem fetch_replaces_other_package :
    Fetches mirror mirrorDownloads mirrorStart (mirrorSession [gamma, beta, alpha])
      [mirrored alpha, mirrored beta, mirrored gamma] ∧
    Specifier.parse "c-1.0.0@a_b" = .ok (mirrored beta).specifier ∧
    Specifier.parse "b_c-1.0.0@a" = .ok (mirrored gamma).specifier ∧
    (mirrored beta).specifier ≠ (mirrored gamma).specifier ∧
    (mirrored beta).path = (mirrored gamma).path ∧
    (mirrorSession [beta, alpha]).files.lookup (mirrored beta).path =
      .ok (.file (mirrored beta).octets) ∧
    (mirrorSession [gamma, beta, alpha]).files.lookup (mirrored beta).path ≠
      .ok (.file (mirrored beta).octets) := by
  have hPath : (mirrored beta).path = (mirrored gamma).path := by decide +kernel
  have hBefore : (mirrorSession [beta, alpha]).files.lookup (mirrored beta).path =
      .ok (.file (mirrored beta).octets) :=
    fetches_alpha_beta.lookup_eq (show _ = [mirrored alpha] ++ mirrored beta :: [] from rfl)
      (by decide +kernel) (by simp)
  have hAfter : (mirrorSession [gamma, beta, alpha]).files.lookup (mirrored gamma).path =
      .ok (.file (mirrored gamma).octets) :=
    fetches_alpha_beta_gamma.lookup_eq
      (show _ = [mirrored alpha, mirrored beta] ++ mirrored gamma :: [] from rfl)
      (by decide +kernel) (by simp)
  refine ⟨fetches_alpha_beta_gamma, ok_of_toOption (by decide +kernel),
    ok_of_toOption (by decide +kernel), by decide +kernel, hPath, hBefore, ?_⟩
  rw [hPath, hAfter]
  intro hSame
  have hOctets : (mirrored gamma).octets = (mirrored beta).octets :=
    FileEntry.file.inj (Except.ok.inj hSame)
  exact absurd hOctets (by decide +kernel)

end PackageManager.Registry.Downloads
