import PackageManager.Registry.Location

/-!
# Looking packages up

A repository keeps its documents at fixed places below its base. Looking something up finds the
base, then the document, and reads it. `Registry.source` is the catalog that this makes of a
registry.
-/

namespace PackageManager.Registry

/-- Where the list of packages is. -/
def repositoryPath : String := "repository.json"

/-- Where the list of the versions of a package is. -/
def collectionPath (id : PackageId) : String := "collections/" ++ id.text ++ "/collection.json"

/-- Where the description of a version is. -/
def packagePath (v : Specifier) : String :=
  "collections/" ++ v.id.text ++ "/versions/" ++ v.version.text ++ "/package.json"

section Lookup

variable {ν α : Type} (network : Network ν) (r : Registry)

/-- The URL of a document in the repository of a domain. -/
def documentUrl (domain path : String) : Attempt (Session ν) Url := fun s =>
  match baseUri network r domain s with
  | (.error f, s) => (.error f, s)
  | (.ok base, s) =>
    ((base.join path).mapError fun flaw => .parse (.repositoryPath path base flaw), s)

/-- What is read from a document in the repository of a domain. -/
def lookUp (domain path : String) (read : Url → String → Except Fault α) :
    Attempt (Session ν) α := fun s =>
  match documentUrl network r domain path s with
  | (.error f, s) => (.error f, s)
  | (.ok url, s) =>
    match onNetwork (requestText network r.retries url) s with
    | (.error f, s) => (.error f, s)
    | (.ok body, s) => (read url body, s)

/-- The repository of a domain. -/
def repository (domain : String) : Attempt (Session ν) Repository :=
  lookUp network r domain repositoryPath (readDocument decodeRepository)

/-- The published versions of a package. -/
def collection (id : PackageId) : Attempt (Session ν) Collection :=
  lookUp network r id.domain (collectionPath id) fun url body => do
    return { id, versions := ← readDocument decodeVersions url body }

/-- What is known about a version of a package. -/
def package (v : Specifier) : Attempt (Session ν) PackageRecord :=
  lookUp network r v.id.domain (packagePath v) fun url body => do
    (← readDocument PackageDocument.decode url body).toRecord v url

/-- The registry as a source, beside the files of the session. -/
def source : PackageSource (Session ν) where
  collection := collection network r
  package := package network r
  packageAt p s := (LocalPackage.load s.files p, s)

end Lookup

end PackageManager.Registry
