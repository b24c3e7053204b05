import PackageManager.Files.Temporary
import PackageManager.Registry.Download

/-!
# Downloads in steps

`Downloads.store` says what becomes of a download, and not how. Here are its steps: a temporary file
is created in the download directory and written, the manifest is read from it, and it is moved to
its place. Each step can be refused, by the files that are there or by the system that keeps them,
and then the temporary file has to go. It is removed in one place, whichever step was the last.

What the system refuses is not known beforehand, and neither is the name of the temporary file, of
which one part is drawn at random.
-/

namespace PackageManager.Registry

/-- What the system refuses of a download for reasons that the files do not show, such as a full
disk or a missing permission. -/
structure Mishaps where
  /-- There is no temporary file. -/
  create : Option Fault := none
  /-- Not everything that arrives can be written. -/
  write : Option String := none
  /-- What has been written when a download breaks off. -/
  arrived : ByteArray := .empty
  flush : Option Fault := none
  read : Option Fault := none
  rename : Option Fault := none

/-- A step that is refused, if there is a fault. -/
def refuse (fault? : Option Fault) : Except Fault Unit := fault?.elim (.ok ()) .error

namespace Downloads

/-- Where a download is kept aside, with a part of its name that was drawn at random. -/
def temporary (d : Downloads) (random : String) : FilePath :=
  d.root.join (.ofText ("fetch." ++ random))

variable (d : Downloads) (m : Mishaps)

/-- Moves what has been written to its place. -/
def settle (temp : FilePath) (files : FileStore) : Except Fault (FilePath × FileStore) := do
  refuse m.flush
  refuse m.read
  let manifest ← PackageManifest.load files temp
  let path := d.root.join (.ofText manifest.specifier.fileName)
  refuse m.rename
  let files ← (files.rename temp path).mapError .io
  return (path, files)

/-- Writes a body to the file with the given names, and moves the file to its place. -/
def receive (url : Url) (body : Body) (temp : FilePath) (names : List String) :
    Attempt FileStore FilePath := fun files =>
  match body, m.write with
  | .cut, _ =>
    (.error (.network (.brokenDownload url "request or response body error")),
      files.write names m.arrived)
  | .complete _, some reason =>
    (.error (.network (.brokenDownload url reason)), files.write names m.arrived)
  | .complete octets, none =>
    let files := files.write names octets
    match d.settle m temp files with
    | .ok (path, files) => (.ok path, files)
    | .error f => (.error f, files)

/-- Puts a response at its place in the download directory, step by step. -/
def storeInSteps (random : String) (url : Url) (r : Response) : Attempt FileStore FilePath :=
  fun files =>
  if 300 ≤ r.status then (.error (.network (.downloadStatus (statusText r.status) url)), files)
  else
    let temp := d.temporary random
    match refuse m.create >>= fun _ => (files.create temp).mapError .io with
    | .error f => (.error f, files)
    | .ok (names, files) =>
      match d.receive m url r.body temp names files with
      | (.ok path, files) => (.ok path, files)
      | (.error f, files) => (.error f, files.remove temp)

variable {ν : Type} (network : Network ν)

/-- Downloads what is at a URL, step by step. -/
def downloadInSteps (random : String) (url : Url) : Attempt (Session ν) FilePath := fun s =>
  match onNetwork (request network d.retries url) s with
  | (.error f, s) => (.error f, s)
  | (.ok r, s) =>
    let (answer, files) := d.storeInSteps m random url r s.files
    (answer, { s with files })

/-- The path of what is at a URL, which is downloaded step by step if it is on a server. -/
def fetchInSteps (random : String) (url : Url) : Attempt (Session ν) FilePath :=
  match url.scheme with
  | "http" | "https" => d.downloadInSteps m network random url
  | _ => d.fetch network url

end Downloads

end PackageManager.Registry
