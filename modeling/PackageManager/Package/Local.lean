import PackageManager.Document.Decode
import PackageManager.Document.Toml
import PackageManager.Fault
import PackageManager.Url.FilePath

/-!
# Packages in files

A package carries a manifest of its own, which names the package and the versions of other
packages that it requires. A package that has been unpacked is a directory with that manifest in
it; a package that has not been is read as the manifest itself.
-/

namespace PackageManager

/-- What a package says about itself. -/
structure PackageManifest where
  specifier : Specifier
  requirements : OrderedMap PackageId Version := ∅
deriving DecidableEq

namespace PackageManifest

/-- The name of the manifest in the directory of a package. -/
def fileName : FilePath := .ofText "package.toml"

/-- The package manifest that a document describes. -/
def decode (format : Format) (d : Datum) : Decode.Result PackageManifest := do
  let field ← Decode.record format ["package", "requirements"] d
  let specifier ← Decode.required (fun d => do
    let field ← Decode.record format ["specifier"] d
    Decode.required (Decode.asText Decode.specifier) (field "specifier"))
    (field "package")
  let requirements ← Decode.withDefault ∅
    (Decode.map Decode.packageId (Decode.asText Decode.version)) (field "requirements")
  return { specifier, requirements }

/-- The package manifest that a text spells, where `p` is where the text comes from. -/
def parse (p : FilePath) (s : String) : Except Fault PackageManifest :=
  match Toml.parse? s with
  | none => .error (.resolution (.malformedPackage p .form))
  | some d => (decode .toml d).mapError fun f => .resolution (.malformedPackage p f)

/-- The package manifest that octets spell, where `p` is where the octets come from. -/
def ofOctets (p : FilePath) (content : ByteArray) : Except Fault PackageManifest :=
  match FileStore.textOf content with
  | .ok s => parse p s
  | .error f => .error (.resolution (.unreadablePackage p f))

/-- The manifest of the package at a path. -/
def load (fs : FileStore) (p : FilePath) : Except Fault PackageManifest :=
  let p := if fs.isDirectory p then p.join fileName else p
  match fs.readText p with
  | .ok s => parse p s
  | .error f => .error (.resolution (.unreadablePackage p f))

/-- The required versions of other packages, in the order of their ids. -/
def required (m : PackageManifest) : List Specifier :=
  m.requirements.entries.map fun e => ⟨e.1, e.2⟩

/-- They are the entries of the requirements, neither more nor less. -/
theorem eq_required_iff {m : PackageManifest} {l : List Specifier} :
    l = m.required ↔ l.map (fun d => (d.id, d.version)) = m.requirements.entries := by
  unfold required
  constructor
  · rintro rfl
    rw [List.map_map]
    exact List.map_id _
  · intro hEntries
    rw [← hEntries, List.map_map]
    exact (List.map_id l).symm

end PackageManifest

/-- A package in the files, and the URL of the place where it is. -/
structure LocalPackage where
  manifest : PackageManifest
  url : Url
deriving DecidableEq

/-- The package at a path. -/
def LocalPackage.load (fs : FileStore) (p : FilePath) : Except Fault LocalPackage := do
  let manifest ← PackageManifest.load fs p
  match fs.resolve p with
  | .ok names => return { manifest, url := .ofFileNames names }
  | .error f => throw (.io f)

end PackageManager
