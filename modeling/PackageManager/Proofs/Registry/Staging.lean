import PackageManager.Proofs.Files.Temporary
import PackageManager.Proofs.Registry.SharedFiles
import PackageManager.Registry.Staging

/-!
# What downloads leave behind

Between the request and the move to its place a download can fail at six steps, and at most of them
the temporary file is already there. What it contains by then does not matter: the file stands alone
under a name that was not there before, so that its removal gives back the very store that the
download started with. If no step fails, the move takes the temporary file away from where no
package file can be, because the name of a package file has a dash in it and that of a temporary
file has none.

The steps and `Downloads.fetch` come to the same, so all that is said about the one is true of the
other.

## Main results

* `storeInSteps_eq_ok_iff`, `files_of_storeInSteps_eq_error` — when the steps succeed, and what is
  left behind if they do not.
* `fetchInSteps_outcome` — a fetch in steps comes to what a fetch at once comes to.
* `fetch_leaves_no_trace` — failed downloads change no file, successful ones change one.
-/

namespace PackageManager

namespace PackageManifest

variable {fs : FileStore} {p q : FilePath} {content : ByteArray} {manifest : PackageManifest}

/-- A package that is a file is read as its manifest. -/
theorem load_of_lookup (hLookup : fs.lookup p = .ok (.file content)) :
    load fs p = ofOctets p content := by
  unfold load FileStore.isDirectory
  simp only [hLookup, Bool.false_eq_true, if_false]
  unfold FileStore.readText
  rw [hLookup]
  rfl

/-- Where a manifest is read from shows in messages only. -/
theorem ofOctets_eq_ok_congr (p q : FilePath) :
    ofOctets p content = .ok manifest ↔ ofOctets q content = .ok manifest := by
  unfold ofOctets
  cases FileStore.textOf content with
  | error f => simp
  | ok s =>
      simp only [parse]
      cases Toml.parse? s with
      | none => simp
      | some datum => rw [mapError_eq_ok_iff, mapError_eq_ok_iff]

end PackageManifest

namespace Registry

/-- Nothing is refused but by the files themselves. -/
structure Mishaps.Harmless (m : Mishaps) : Prop where
  create : m.create = none
  write : m.write = none
  flush : m.flush = none
  read : m.read = none
  rename : m.rename = none

theorem refuse_eq_ok_iff {fault? : Option Fault} {u : Unit} :
    refuse fault? = .ok u ↔ fault? = none := by
  cases fault? <;> simp [refuse]

namespace Downloads

variable {d : Downloads} {m : Mishaps} {random : String} {files files' : FileStore}
  {path : FilePath} {url : Url}

/-! ## The name of a temporary file -/

/-- A part of a name that was drawn at random, and for which there is no file yet. -/
structure IsFresh (d : Downloads) (random : String) (files : FileStore) : Prop where
  alphanumeric : ∀ c ∈ random.toList, c.isAlphanum
  absent : ∀ e, files.lookup (d.temporary random) ≠ .ok e

/-- Other characters than letters and digits do not get into the name. -/
theorem IsFresh.not_mem (hFresh : d.IsFresh random files) {c : Char} (hc : c ∉ "fetch.".toList)
    (hOther : c.isAlphanum = false) : c ∉ ("fetch." ++ random).toList := by
  rw [String.toList_append, List.mem_append, not_or]
  refine ⟨hc, fun h => ?_⟩
  rw [hFresh.alphanumeric c h] at hOther
  cases hOther

theorem IsFresh.getLast_temporary (hFresh : d.IsFresh random files) :
    (d.temporary random).names.getLast?.getD [] = Text.encode ("fetch." ++ random).toList := by
  have hSlash : FilePath.slash ∉ Text.encode ("fetch." ++ random).toList := by
    rw [FilePath.slash_mem_encode_iff]
    exact hFresh.not_mem (by decide) (by decide)
  unfold temporary FilePath.ofText
  rw [FilePath.getLast?_names_join, FilePath.names_eq_singleton hSlash]
  rfl

theorem IsFresh.isName (hFresh : d.IsFresh random files) :
    FilePath.IsName ((d.temporary random).names.getLast?.getD []) := by
  have hLong : 6 ≤ (Text.encode ("fetch." ++ random).toList).length := by
    have hPrefix : (Text.encode "fetch.".toList).length = 6 := by decide
    rw [String.toList_append, Text.encode_append, List.length_append, hPrefix]
    exact Nat.le_add_right ..
  have hNe {name : List UInt8} (hShort : name.length < 6) :
      Text.encode ("fetch." ++ random).toList ≠ name := by
    rintro rfl
    exact absurd hLong (Nat.not_le_of_lt hShort)
  rw [hFresh.getLast_temporary]
  refine ⟨?_, ?_, hNe (by decide)⟩
  · rw [FilePath.slash_mem_encode_iff]
    exact hFresh.not_mem (by decide) (by decide)
  · simp only [FilePath.leadsOn, decide_eq_true_eq]
    exact ⟨hNe (by decide), hNe (by decide)⟩

/-- No package file has such a name, as there is a dash in front of a version. -/
theorem IsFresh.getLast_fileName_ne (hFresh : d.IsFresh random files) (s : Specifier) :
    (d.root.join (.ofText s.fileName)).names.getLast?.getD [] ≠
      (d.temporary random).names.getLast?.getD [] := by
  intro hSame
  have hDash := s.dash_mem_getLast_fileName d.root
  rw [hSame, hFresh.getLast_temporary, Text.ofNat_mem_encode_iff (by decide)] at hDash
  exact hFresh.not_mem (by decide) (by decide) hDash

/-! ## From the temporary file to the place -/

/-- A response is complete, and what it contains has been put where its manifest says. -/
def Places (d : Downloads) (r : Response) (files : FileStore) (path : FilePath)
    (files' : FileStore) : Prop :=
  r.status < 300 ∧ ∃ octets manifest, r.body = .complete octets ∧
    PackageManifest.ofOctets (d.root.join unnamedDownload) octets = .ok manifest ∧
    path = d.root.join (.ofText manifest.specifier.fileName) ∧
    files.place path octets = .ok files'

section

variable {here : List String} {name : String}
  (hFresh : d.IsFresh random files) (hLeads : files.Leads (d.temporary random) here name)
  (hNew : files.entry? (here ++ [name]) = none)

include hFresh hLeads hNew

/-- What has been written is put where its manifest says. -/
theorem settle_eq_ok_iff {octets : ByteArray} :
    d.settle m (d.temporary random) (files.write (here ++ [name]) octets) = .ok (path, files') ↔
      m.flush = none ∧ m.read = none ∧ m.rename = none ∧
      ∃ manifest, PackageManifest.ofOctets (d.root.join unnamedDownload) octets = .ok manifest ∧
        path = d.root.join (.ofText manifest.specifier.fileName) ∧
        files.place path octets = .ok files' := by
  have hLoad : PackageManifest.load (files.write (here ++ [name]) octets) (d.temporary random) =
      PackageManifest.ofOctets (d.temporary random) octets :=
    PackageManifest.load_of_lookup (FileStore.lookup_write hLeads hFresh.isName hNew)
  have hRename (s : Specifier) {moved : FileStore} :
      (files.write (here ++ [name]) octets).rename (d.temporary random)
          (d.root.join (.ofText s.fileName)) = .ok moved ↔
        files.place (d.root.join (.ofText s.fileName)) octets = .ok moved :=
    FileStore.rename_write_eq_ok_iff hLeads hFresh.isName hNew (s.isName_getLast_fileName d.root)
      (hFresh.getLast_fileName_ne s)
  unfold settle
  rw [hLoad]
  constructor
  · intro hSettle
    obtain ⟨_, hFlush, hSettle⟩ := ok_of_bind hSettle
    obtain ⟨_, hRead, hSettle⟩ := ok_of_bind hSettle
    obtain ⟨manifest, hManifest, hSettle⟩ := ok_of_bind hSettle
    obtain ⟨_, hMove, hSettle⟩ := ok_of_bind hSettle
    obtain ⟨moved, hMoved, hSettle⟩ := ok_of_bind hSettle
    obtain ⟨rfl, rfl⟩ := Prod.mk.inj (Except.ok.inj hSettle)
    rw [mapError_eq_ok_iff, hRename] at hMoved
    exact ⟨refuse_eq_ok_iff.1 hFlush, refuse_eq_ok_iff.1 hRead, refuse_eq_ok_iff.1 hMove, manifest,
      (PackageManifest.ofOctets_eq_ok_congr _ _).1 hManifest, rfl, hMoved⟩
  · rintro ⟨hFlush, hRead, hMove, manifest, hManifest, hPath, hPlace⟩
    rw [PackageManifest.ofOctets_eq_ok_congr _ (d.temporary random)] at hManifest
    rw [hPath] at hPlace ⊢
    have hMoved := (mapError_eq_ok_iff (f := Fault.io)).2 ((hRename manifest.specifier).2 hPlace)
    simp only [hFlush, hRead, hMove, hManifest, hMoved, refuse, Option.elim_none, bind, Except.bind]
    rfl

end

/-- Before a download is at its place, it is in the temporary file only. -/
theorem exists_of_receive_eq_error {body : Body} {temp : FilePath} {names : List String} {f : Fault}
    (hReceive : d.receive m url body temp names (files.write names .empty) = (.error f, files')) :
    ∃ content, files' = files.write names content := by
  unfold receive at hReceive
  cases body with
  | cut =>
      obtain ⟨-, rfl⟩ := Prod.mk.inj hReceive
      exact ⟨m.arrived, FileStore.write_write ..⟩
  | complete octets =>
      cases hWrite : m.write with
      | some reason =>
          rw [hWrite] at hReceive
          obtain ⟨-, rfl⟩ := Prod.mk.inj hReceive
          exact ⟨m.arrived, FileStore.write_write ..⟩
      | none =>
          simp only [hWrite] at hReceive
          split at hReceive
          · cases hReceive
          · obtain ⟨-, rfl⟩ := Prod.mk.inj hReceive
            exact ⟨octets, FileStore.write_write ..⟩

theorem receive_eq_ok_iff {body : Body} {temp : FilePath} {names : List String} :
    d.receive m url body temp names (files.write names .empty) = (.ok path, files') ↔
      m.write = none ∧ ∃ octets, body = .complete octets ∧
        d.settle m temp (files.write names octets) = .ok (path, files') := by
  unfold receive
  cases body with
  | cut => simp
  | complete octets =>
      cases hWrite : m.write with
      | some reason => simp
      | none =>
          simp only [FileStore.write_write, true_and, Body.complete.injEq, exists_eq_left']
          cases d.settle m temp (files.write names octets) with
          | error f => simp
          | ok settled => simp [Prod.ext_iff]

/-! ## The whole way -/

/-- A download that is given up leaves the files as they were. -/
theorem files_of_storeInSteps_eq_error {r : Response} {f : Fault} (hFresh : d.IsFresh random files)
    (hStore : d.storeInSteps m random url r files = (.error f, files')) : files' = files := by
  unfold storeInSteps at hStore
  split at hStore
  · exact (Prod.mk.inj hStore).2.symm
  · dsimp only at hStore
    split at hStore
    · exact (Prod.mk.inj hStore).2.symm
    · next names created hCreate =>
      obtain ⟨-, -, hCreate⟩ := ok_of_bind hCreate
      obtain ⟨here, name, hLeads, hNew, rfl, rfl⟩ :=
        FileStore.exists_of_create hFresh.isName hFresh.absent (ok_of_mapError hCreate)
      split at hStore
      · cases hStore
      · next f' left hReceive =>
        obtain ⟨content, rfl⟩ := exists_of_receive_eq_error hReceive
        rw [FileStore.remove_write hLeads hFresh.isName hNew] at hStore
        exact (Prod.mk.inj hStore).2.symm

theorem storeInSteps_eq_ok_iff {r : Response} (hFresh : d.IsFresh random files) :
    d.storeInSteps m random url r files = (.ok path, files') ↔
      m.Harmless ∧ (∃ created, files.place (d.temporary random) .empty = .ok created) ∧
        d.Places r files path files' := by
  constructor
  · intro hStore
    unfold storeInSteps at hStore
    split at hStore
    · cases hStore
    · next hStatus =>
      dsimp only at hStore
      split at hStore
      · cases hStore
      · next names created hCreate =>
        obtain ⟨_, hAllowed, hCreate⟩ := ok_of_bind hCreate
        have hCreate := ok_of_mapError hCreate
        obtain ⟨placed, hPlaced, -⟩ := ok_of_bind hCreate
        obtain ⟨here, name, hLeads, hNew, rfl, rfl⟩ :=
          FileStore.exists_of_create hFresh.isName hFresh.absent hCreate
        split at hStore
        · next path' put hReceive =>
          obtain ⟨hPath, hPut⟩ := Prod.mk.inj hStore
          obtain rfl := Except.ok.inj hPath
          obtain rfl := hPut
          obtain ⟨hWrite, octets, hBody, hSettle⟩ := receive_eq_ok_iff.1 hReceive
          obtain ⟨hFlush, hRead, hRename, manifest, hManifest, hPath, hPut⟩ :=
            (settle_eq_ok_iff hFresh hLeads hNew).1 hSettle
          exact ⟨⟨refuse_eq_ok_iff.1 hAllowed, hWrite, hFlush, hRead, hRename⟩, ⟨placed, hPlaced⟩,
            Nat.lt_of_not_le hStatus, octets, manifest, hBody, hManifest, hPath, hPut⟩
        · cases hStore
  · rintro ⟨hHarmless, ⟨created, hCreated⟩, hStatus, octets, manifest, hBody, hManifest, hPath,
      hPut⟩
    obtain ⟨here, name, hLeads, -, -⟩ := FileStore.place_eq_ok_iff.1 hCreated
    have hNew := FileStore.absent_of_lookup hLeads hFresh.isName hFresh.absent
    have hCreate := (mapError_eq_ok_iff (f := Fault.io)).2
      (FileStore.create_eq_ok hLeads hFresh.isName hNew)
    have hSettle := (settle_eq_ok_iff (m := m) hFresh hLeads hNew).2
      ⟨hHarmless.flush, hHarmless.read, hHarmless.rename, manifest, hManifest, hPath, hPut⟩
    have hReceive : d.receive m url r.body (d.temporary random) (here ++ [name])
        (files.write (here ++ [name]) .empty) = (.ok path, files') :=
      receive_eq_ok_iff.2 ⟨hHarmless.write, octets, hBody, hSettle⟩
    unfold storeInSteps
    simp only [Nat.not_le.2 hStatus, if_false, hHarmless.create, refuse, Option.elim_none, bind,
      Except.bind, hCreate, hReceive]

theorem store_eq_ok_iff {r : Response} {names : List String}
    (hRoot : files.resolve d.root = .ok names) :
    d.store url r files = .ok (path, files') ↔ d.Places r files path files' := by
  constructor
  · exact store_eq_ok
  · rintro ⟨hStatus, octets, manifest, hBody, hManifest, hPath, hPut⟩
    obtain ⟨status, body⟩ := r
    obtain rfl : body = .complete octets := hBody
    have hRoot := (mapError_eq_ok_iff (f := Fault.io)).2 hRoot
    have hPut := (mapError_eq_ok_iff (f := Fault.io)).2 hPut
    rw [hPath] at hPut ⊢
    unfold store
    simp only [Nat.not_le.2 hStatus, if_false, bind, Except.bind, hRoot, hManifest, hPut]
    rfl

/-- What has been put at its place is there, and nothing else has changed. -/
theorem Places.spec {r : Response} (h : d.Places r files path files') :
    ∃ octets, r.body = .complete octets ∧ files'.lookup path = .ok (.file octets) ∧
      files'.workingDirectory = files.workingDirectory ∧
      ∀ names, files'.resolve path ≠ .ok names → files'.entry? names = files.entry? names := by
  obtain ⟨-, octets, manifest, hBody, -, hPath, hPlace⟩ := h
  have hName := manifest.specifier.isName_getLast_fileName d.root
  rw [← hPath] at hName
  obtain ⟨-, hSame, names, hResolve, hEntry⟩ := FileStore.place_spec hPlace hName
  refine ⟨octets, hBody, FileStore.lookup_place_self hPlace hName, hSame, fun other hOther => ?_⟩
  rw [hEntry, if_neg]
  rintro rfl
  exact hOther hResolve

/-! ## Sessions -/

variable {ν : Type} {network : Network ν} {s s' : Session ν}

theorem fetchInSteps_eq_downloadInSteps (hScheme : url.scheme = "http" ∨ url.scheme = "https") :
    d.fetchInSteps m network random url = d.downloadInSteps m network random url := by
  unfold fetchInSteps
  rcases hScheme with hScheme | hScheme <;> simp [hScheme]

/-- What is not on a server is not downloaded. -/
theorem fetchInSteps_eq_fetch (hScheme : ¬(url.scheme = "http" ∨ url.scheme = "https")) :
    d.fetchInSteps m network random url = d.fetch network url := by
  unfold fetchInSteps
  split
  · next h => exact absurd (.inl h) hScheme
  · next h => exact absurd (.inr h) hScheme
  · rfl

/-- What is not on a server changes nothing. -/
theorem session_of_fetch (hScheme : ¬(url.scheme = "http" ∨ url.scheme = "https")) :
    (d.fetch network url s).2 = s := by
  unfold fetch
  split
  · split <;> rfl
  · next h => exact absurd (.inl h) hScheme
  · next h => exact absurd (.inr h) hScheme
  · rfl

theorem downloadInSteps_eq {r : Response} {n : ν}
    (hRequest : request network d.retries url s.network = (.ok r, n)) :
    d.downloadInSteps m network random url s =
      ((d.storeInSteps m random url r s.files).1,
        { s with files := (d.storeInSteps m random url r s.files).2, network := n }) := by
  unfold downloadInSteps onNetwork
  simp only [hRequest]

theorem downloadInSteps_eq_of_error {f : Fault} {n : ν}
    (hRequest : request network d.retries url s.network = (.error f, n)) :
    d.downloadInSteps m network random url s = (.error f, { s with network := n }) := by
  unfold downloadInSteps onNetwork
  simp only [hRequest]

theorem files_of_fetchInSteps_eq_error {f : Fault} (hFresh : d.IsFresh random s.files)
    (hFetch : d.fetchInSteps m network random url s = (.error f, s')) : s'.files = s.files := by
  by_cases hScheme : url.scheme = "http" ∨ url.scheme = "https"
  · rw [fetchInSteps_eq_downloadInSteps hScheme] at hFetch
    rcases hRequest : request network d.retries url s.network with ⟨g | r, n⟩
    · rw [downloadInSteps_eq_of_error hRequest] at hFetch
      rw [← (Prod.mk.inj hFetch).2]
    · rw [downloadInSteps_eq hRequest] at hFetch
      obtain ⟨hAnswer, hSession⟩ := Prod.mk.inj hFetch
      rw [← hSession]
      exact files_of_storeInSteps_eq_error hFresh (Prod.ext hAnswer rfl)
  · rw [fetchInSteps_eq_fetch hScheme] at hFetch
    exact files_of_fetch_eq_error hFetch

/-- What is fetched from a server, at once or step by step, has been put at its place. -/
theorem places_of_fetch (hScheme : url.scheme = "http" ∨ url.scheme = "https")
    (hFetch : d.fetch network url s = (.ok path, s') ∨
      d.IsFresh random s.files ∧ d.fetchInSteps m network random url s = (.ok path, s')) :
    ∃ r n, request network d.retries url s.network = (.ok r, n) ∧
      d.Places r s.files path s'.files ∧ s' = { s with files := s'.files, network := n } := by
  rw [fetch_eq_download hScheme, fetchInSteps_eq_downloadInSteps hScheme] at hFetch
  rcases hFetch with hFetch | ⟨hFresh, hFetch⟩
  · obtain ⟨r, n, hRequest, files, hStore, rfl⟩ := download_eq_ok hFetch
    exact ⟨r, n, hRequest, store_eq_ok hStore, rfl⟩
  · rcases hRequest : request network d.retries url s.network with ⟨f | r, n⟩
    · rw [downloadInSteps_eq_of_error hRequest] at hFetch
      cases hFetch
    · rw [downloadInSteps_eq hRequest] at hFetch
      obtain ⟨hAnswer, rfl⟩ := Prod.mk.inj hFetch
      have hStore := (storeInSteps_eq_ok_iff hFresh).1 (Prod.ext hAnswer rfl)
      exact ⟨r, n, rfl, hStore.2.2, rfl⟩

/-- If nothing is refused but by the files, the steps come to the same as a fetch at once. Only
messages are different, as they name the temporary file. -/
theorem fetchInSteps_outcome (hHarmless : m.Harmless) (hFresh : d.IsFresh random s.files)
    {names : List String} (hRoot : s.files.resolve d.root = .ok names) {created : FileStore}
    (hRoom : s.files.place (d.temporary random) .empty = .ok created) :
    (d.fetchInSteps m network random url s).1.toOption = (d.fetch network url s).1.toOption ∧
      (d.fetchInSteps m network random url s).2 = (d.fetch network url s).2 := by
  by_cases hScheme : url.scheme = "http" ∨ url.scheme = "https"
  · rw [fetch_eq_download hScheme, fetchInSteps_eq_downloadInSteps hScheme]
    rcases hRequest : request network d.retries url s.network with ⟨f | r, n⟩
    · rw [downloadInSteps_eq_of_error hRequest]
      unfold download onNetwork
      simp only [hRequest, and_self]
    · rw [downloadInSteps_eq hRequest]
      unfold download onNetwork
      simp only [hRequest]
      cases hStore : d.store url r s.files with
      | ok stored =>
          obtain ⟨path, files⟩ := stored
          have hPlaces := (store_eq_ok_iff hRoot).1 hStore
          rw [(storeInSteps_eq_ok_iff hFresh).2 ⟨hHarmless, ⟨created, hRoom⟩, hPlaces⟩]
          exact ⟨rfl, rfl⟩
      | error f =>
          rcases hSteps : d.storeInSteps m random url r s.files with ⟨g | path, files⟩
          · rw [files_of_storeInSteps_eq_error hFresh hSteps]
            exact ⟨rfl, rfl⟩
          · have hPlaces := ((storeInSteps_eq_ok_iff hFresh).1 hSteps).2.2
            rw [(store_eq_ok_iff hRoot).2 hPlaces] at hStore
            cases hStore
  · rw [fetchInSteps_eq_fetch hScheme]
    exact ⟨rfl, rfl⟩

/-- A fetch that fails leaves the files as they were, whatever goes wrong at which step. If it
succeeds, what is on this machine stays where it is, and what comes from a server is at its place,
octet for octet, where nothing else has changed. -/
theorem fetch_leaves_no_trace {answer : Except Fault FilePath}
    (hFetch : d.fetch network url s = (answer, s') ∨
      d.IsFresh random s.files ∧ d.fetchInSteps m network random url s = (answer, s')) :
    (url.scheme = "file" → s' = s) ∧
    (∀ f, answer = .error f → s'.files = s.files) ∧
    ∀ path, answer = .ok path → url.scheme = "http" ∨ url.scheme = "https" →
      ∃ status octets n,
        request network d.retries url s.network = (.ok ⟨status, .complete octets⟩, n) ∧
        s' = { s with files := s'.files, network := n } ∧
        s'.files.lookup path = .ok (.file octets) ∧
        s'.files.workingDirectory = s.files.workingDirectory ∧
        ∀ names, s'.files.resolve path ≠ .ok names →
          s'.files.entry? names = s.files.entry? names := by
  refine ⟨fun hFile => ?_, ?_, ?_⟩
  · have hScheme : ¬(url.scheme = "http" ∨ url.scheme = "https") := by simp [hFile]
    have hSame : (d.fetch network url s).2 = s := session_of_fetch hScheme
    rw [fetchInSteps_eq_fetch hScheme] at hFetch
    rcases hFetch with hFetch | ⟨-, hFetch⟩ <;> rw [← hSame, hFetch]
  · rintro f rfl
    rcases hFetch with hFetch | ⟨hFresh, hFetch⟩
    · exact files_of_fetch_eq_error hFetch
    · exact files_of_fetchInSteps_eq_error hFresh hFetch
  · rintro path rfl hScheme
    obtain ⟨⟨status, body⟩, n, hRequest, hPlaces, hSession⟩ := places_of_fetch hScheme hFetch
    obtain ⟨octets, rfl, hFound, hSame, hOthers⟩ := hPlaces.spec
    exact ⟨status, octets, n, hRequest, hSession, hFound, hSame, hOthers⟩

/-- The download that ends up in the second directory: once, its last step is refused, and once it
is not. -/
theorem stray_fetch_leaves_no_trace : ∃ f octets s s',
    strayDownloads.fetchInSteps { rename := some (.generic "Permission denied (os error 13)") }
      strayServer "a1B2c3" strayUrl strayStart = (.error f, s) ∧
    s.files = strayStart.files ∧
    strayDownloads.fetch strayServer strayUrl strayStart =
      (.ok (.ofText "/tmp/x_a-1.0.0.pakt"), s') ∧
    s'.files.lookup (.ofText "/tmp/x_a-1.0.0.pakt") = .ok (.file octets) := by
  have hFresh : strayDownloads.IsFresh "a1B2c3" strayStart.files := by
    refine ⟨List.all_eq_true.1 (by decide +kernel), fun e hFound => ?_⟩
    have hNone : (strayStart.files.lookup (strayDownloads.temporary "a1B2c3")).toOption.isNone := by
      decide +kernel
    rw [hFound] at hNone
    cases hNone
  have hRefused : (strayDownloads.fetchInSteps
      { rename := some (.generic "Permission denied (os error 13)") }
      strayServer "a1B2c3" strayUrl strayStart).1.toOption = none := by decide +kernel
  rcases hSteps : strayDownloads.fetchInSteps
      { rename := some (.generic "Permission denied (os error 13)") }
      strayServer "a1B2c3" strayUrl strayStart with ⟨f | path, s⟩
  · obtain ⟨s', hFetch⟩ := stray_fetch
    obtain ⟨-, hLeft, -⟩ := fetch_leaves_no_trace (.inr ⟨hFresh, hSteps⟩)
    have hEither : strayDownloads.fetch strayServer strayUrl strayStart =
          (.ok (.ofText "/tmp/x_a-1.0.0.pakt"), s') ∨
        strayDownloads.IsFresh "a1B2c3" strayStart.files ∧
          strayDownloads.fetchInSteps {} strayServer "a1B2c3" strayUrl strayStart =
            (.ok (.ofText "/tmp/x_a-1.0.0.pakt"), s') := .inl hFetch
    obtain ⟨-, -, hPut⟩ := fetch_leaves_no_trace hEither
    obtain ⟨status, octets, n, -, -, hFound, -⟩ := hPut _ rfl (.inl rfl)
    exact ⟨f, octets, s, s', rfl, hLeft f rfl, hFetch, hFound⟩
  · rw [hSteps] at hRefused
    cases hRefused

end Downloads

end Registry

end PackageManager
