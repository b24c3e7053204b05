import PackageManager.Registry.Download
import PackageManager.Proofs.Package.FileName
import PackageManager.Proofs.Traversal

/-!
# Where downloads go

A download is named by its own manifest. Its place is the name of the package file, joined to the
download directory, and whoever serves the file chooses that name: a specifier may have any
characters in its name and its domain, the slash among them. The directory therefore holds exactly
the downloads whose specifiers have no slash. With one, the place can be in a directory below, and
with a domain that starts with a slash it is wherever the domain says.

## Main results

* `fetch_places_download` — where a download is, and when that is in the download directory.
* `fetch_escapes` — a download can end up anywhere.
-/

namespace PackageManager.Registry

variable {ν : Type} {network : Network ν} {url : Url}

namespace Downloads

variable {d : Downloads}

/-- What has been put at its place was complete, and named its place itself. -/
theorem store_eq_ok {r : Response} {files files' : FileStore} {path : FilePath}
    (hStore : d.store url r files = .ok (path, files')) :
    r.status < 300 ∧ ∃ octets manifest, r.body = .complete octets ∧
      PackageManifest.ofOctets (d.root.join unnamedDownload) octets = .ok manifest ∧
      path = d.root.join (.ofText manifest.specifier.fileName) ∧
      files.place path octets = .ok files' := by
  obtain ⟨status, body⟩ := r
  unfold store at hStore
  by_cases hStatus : 300 ≤ status
  · simp only [hStatus, if_true] at hStore
    obtain ⟨u, hRefused, hRest⟩ := ok_of_bind hStore
    cases hRefused
  · simp only [hStatus, if_false] at hStore
    obtain ⟨u, hRoot, hBody⟩ := ok_of_bind hStore
    cases body with
    | cut => cases hBody
    | complete octets =>
        obtain ⟨manifest, hManifest, hRest⟩ := ok_of_bind hBody
        obtain ⟨placed, hPlaced, hAnswer⟩ := ok_of_bind hRest
        obtain ⟨rfl, rfl⟩ := Prod.mk.inj (Except.ok.inj hAnswer)
        exact ⟨Nat.lt_of_not_le hStatus, octets, manifest, rfl, hManifest, rfl,
          ok_of_mapError hPlaced⟩

/-- A download that succeeds got a response, and put it at its place. -/
theorem download_eq_ok {s s' : Session ν} {path : FilePath}
    (hDownload : d.download network url s = (.ok path, s')) :
    ∃ r n, request network d.retries url s.network = (.ok r, n) ∧
      ∃ files, d.store url r s.files = .ok (path, files) ∧
        s' = { s with files, network := n } := by
  unfold download onNetwork at hDownload
  rcases hRequest : request network d.retries url s.network with ⟨f | r, n⟩
  · simp [hRequest] at hDownload
  · simp only [hRequest] at hDownload
    cases hStore : d.store url r s.files with
    | error f => simp [hStore] at hDownload
    | ok stored =>
        obtain ⟨place, files⟩ := stored
        simp only [hStore, Prod.mk.injEq, Except.ok.injEq] at hDownload
        obtain ⟨rfl, rfl⟩ := hDownload
        exact ⟨r, n, rfl, files, hStore, rfl⟩

theorem fetch_eq_download (hScheme : url.scheme = "http" ∨ url.scheme = "https")
    (s : Session ν) : d.fetch network url s = d.download network url s := by
  unfold fetch
  rcases hScheme with hScheme | hScheme <;> simp [hScheme]

/-- What is fetched from a server is a complete file with a manifest, and it is placed under the
name of the package in that manifest. This is in the download directory itself exactly if the
specifier of the package has no slash. -/
theorem fetch_places_download (hScheme : url.scheme = "http" ∨ url.scheme = "https")
    {s s' : Session ν} {path : FilePath} (hFetch : d.fetch network url s = (.ok path, s')) :
    ∃ status octets n manifest,
      request network d.retries url s.network = (.ok ⟨status, .complete octets⟩, n) ∧
      status < 300 ∧
      PackageManifest.ofOctets (d.root.join unnamedDownload) octets = .ok manifest ∧
      path = d.root.join (.ofText manifest.specifier.fileName) ∧
      (∃ files, s.files.place path octets = .ok files ∧
        s' = { s with files, network := n }) ∧
      (path.IsEntry d.root (Text.encode manifest.specifier.fileName.toList) ↔
        '/' ∉ manifest.specifier.id.name.toList ∧ '/' ∉ manifest.specifier.id.domain.toList) := by
  rw [fetch_eq_download hScheme] at hFetch
  obtain ⟨⟨status, body⟩, n, hRequest, files, hStore, hSession⟩ := download_eq_ok hFetch
  obtain ⟨hStatus, octets, manifest, rfl, hManifest, hPath, hPlaced⟩ := store_eq_ok hStore
  refine ⟨status, octets, n, manifest, hRequest, hStatus, hManifest, hPath,
    ⟨files, hPlaced, hSession⟩, ?_⟩
  rw [hPath]
  exact manifest.specifier.isEntry_join_fileName_iff d.root

/-! ## A download that goes elsewhere -/

/-- A server whose only file names a place of its own. -/
def strayServer : Network Unit where
  request _ n :=
    (.response ⟨200, .complete "[package]\nspecifier = \"a-1.0.0@/tmp/x\"\n".toUTF8⟩, n)
  clock n := (⟨0, 0⟩, n)

/-- There are two directories, of which the first one is for downloads. -/
def strayStart : Session Unit where
  files := { entries := .ofList [(["dl"], .directory), (["tmp"], .directory)] }
  network := ()

def strayUrl : Url where
  scheme := "http"
  authority := some { host := .name "pkgs.test" }
  path := .segments ["a.pakt"]

def strayDownloads : Downloads where
  root := .ofText "/dl"

/-- The file ends up in the second directory. -/
theorem stray_fetch : ∃ s,
    strayDownloads.fetch strayServer strayUrl strayStart =
      (.ok (.ofText "/tmp/x_a-1.0.0.pakt"), s) := by
  have hAnswer : (strayDownloads.fetch strayServer strayUrl strayStart).1.toOption =
      some (.ofText "/tmp/x_a-1.0.0.pakt") := by decide +kernel
  rcases hFetch : strayDownloads.fetch strayServer strayUrl strayStart with ⟨f | path, s⟩
  · rw [hFetch] at hAnswer
    cases hAnswer
  · rw [hFetch] at hAnswer
    cases hAnswer
    exact ⟨s, rfl⟩

theorem fetch_places_download_elsewhere : ∃ s,
    strayUrl.scheme = "http" ∧
    strayDownloads.fetch strayServer strayUrl strayStart =
      (.ok (.ofText "/tmp/x_a-1.0.0.pakt"), s) ∧
    ∃ status octets n manifest,
      request strayServer strayDownloads.retries strayUrl strayStart.network =
        (.ok ⟨status, .complete octets⟩, n) ∧
      status < 300 ∧
      PackageManifest.ofOctets (strayDownloads.root.join unnamedDownload) octets = .ok manifest ∧
      .ofText "/tmp/x_a-1.0.0.pakt" =
        strayDownloads.root.join (.ofText manifest.specifier.fileName) ∧
      (∃ files, strayStart.files.place (.ofText "/tmp/x_a-1.0.0.pakt") octets = .ok files ∧
        s = { strayStart with files, network := n }) ∧
      ((FilePath.ofText "/tmp/x_a-1.0.0.pakt").IsEntry strayDownloads.root
          (Text.encode manifest.specifier.fileName.toList) ↔
        '/' ∉ manifest.specifier.id.name.toList ∧
          '/' ∉ manifest.specifier.id.domain.toList) := by
  obtain ⟨s, hFetch⟩ := stray_fetch
  exact ⟨s, rfl, hFetch, fetch_places_download (.inl rfl) hFetch⟩

/-- A file can be fetched from a server and end up outside of the download directory, so that it
is an entry of that directory under no name. -/
theorem fetch_escapes : ∃ s,
    strayUrl.scheme = "http" ∧
    strayDownloads.fetch strayServer strayUrl strayStart =
      (.ok (.ofText "/tmp/x_a-1.0.0.pakt"), s) ∧
    ∀ name, ¬ (FilePath.ofText "/tmp/x_a-1.0.0.pakt").IsEntry strayDownloads.root name := by
  obtain ⟨s, hFetch⟩ := stray_fetch
  refine ⟨s, rfl, hFetch, ?_⟩
  intro name hEntry
  have hComponents : (FilePath.ofText "/tmp/x_a-1.0.0.pakt").components =
      [[], Text.encode "tmp".toList, Text.encode "x_a-1.0.0.pakt".toList] := by decide +kernel
  have hRoot : strayDownloads.root.components = [[], Text.encode "dl".toList] := by decide +kernel
  unfold FilePath.IsEntry at hEntry
  rw [hComponents, hRoot] at hEntry
  cases hEntry

end Downloads

end PackageManager.Registry
