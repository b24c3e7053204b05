import PackageManager.Registry.Session

/-!
# Downloads

A package file is fetched into a download directory. It is not known before the end which package
it is, so it is kept aside until its manifest has been read, and then put under the name of that
package. A download that fails on the way leaves nothing behind. A file that is on this machine is
used where it is.
-/

namespace PackageManager.Registry

/-- Where downloads go. -/
structure Downloads where
  root : FilePath
  retries : Nat := 3

/-- Downloads into a directory, which must exist. -/
def Downloads.create (files : FileStore) (root : FilePath) (retries : Nat) :
    Except Fault Downloads :=
  if files.isDirectory root then .ok { root, retries }
  else .error (.download (.invalidRoot root))

/-- What a download is called in messages while it is kept aside. -/
def unnamedDownload : FilePath := .ofText "fetch.*"

namespace Downloads

/-- Puts a response at its place in the download directory. -/
def store (d : Downloads) (url : Url) (r : Response) (files : FileStore) :
    Except Fault (FilePath × FileStore) := do
  if 300 ≤ r.status then throw (.network (.downloadStatus (statusText r.status) url))
  let _ ← (files.resolve d.root).mapError .io
  match r.body with
  | .cut => throw (.network (.brokenDownload url "request or response body error"))
  | .complete octets =>
    let manifest ← PackageManifest.ofOctets (d.root.join unnamedDownload) octets
    let path := d.root.join (.ofText manifest.specifier.fileName)
    let files ← (files.place path octets).mapError .io
    return (path, files)

variable {ν : Type} (network : Network ν) (d : Downloads)

/-- Downloads what is at a URL. -/
def download (url : Url) : Attempt (Session ν) FilePath := fun s =>
  match onNetwork (request network d.retries url) s with
  | (.error f, s) => (.error f, s)
  | (.ok r, s) =>
    match d.store url r s.files with
    | .error f => (.error f, s)
    | .ok (path, files) => (.ok path, { s with files })

/-- The path of what is at a URL, which is downloaded if it is not a file already. -/
def fetch (url : Url) : Attempt (Session ν) FilePath := fun s =>
  match url.scheme with
  | "file" =>
    match url.toFilePath? with
    | some p => (.ok p, s)
    | none => (.error (.parse (.noFilePath url)), s)
  | "http" | "https" => d.download network url s
  | _ => (.error (.download (.unsupportedScheme url)), s)

end Downloads

end PackageManager.Registry
