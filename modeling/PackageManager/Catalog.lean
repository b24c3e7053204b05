import PackageManager.Ordered.Map
import PackageManager.Package.Local
import PackageManager.Timestamp

/-!
# Catalogs

What there is to choose from is known in three parts: the repository of a domain lists its
packages, a collection the versions of a package, and a record says where a version is and what it
depends on. They are asked for one at a time, and whoever answers may fail, may look at the network
and the files, and may answer differently the next time. A `PackageSource` is such a respondent,
over any state that it may read and change.
-/

namespace PackageManager

/-- What a collection says about a version. -/
structure PublishedVersion where
  uploadedAt : Option Timestamp := none
  /-- Whether the version has been withdrawn. -/
  pruned : Bool := false
deriving DecidableEq

/-- The published versions of a package. -/
structure Collection where
  id : PackageId
  versions : OrderedMap Version PublishedVersion := ∅
deriving DecidableEq

/-- The greatest version that has not been withdrawn. -/
def Collection.latest (c : Collection) : Option Version :=
  (c.versions.entries.reverse.find? fun e => !e.2.pruned).map (·.1)

/-- A version of a package, where it is and what it depends on. -/
structure PackageRecord where
  id : PackageId
  version : Version
  dependencies : OrderedSet Specifier := ∅
  url : Url
  uploadedAt : Option Timestamp := none
  pruned : Bool := false
deriving DecidableEq

/-- What names the version that a record describes. -/
def PackageRecord.specifier (r : PackageRecord) : Specifier := ⟨r.id, r.version⟩

/-- The packages of a domain, each with its description if it has one. -/
abbrev Repository := OrderedMap PackageId (Option String)

/-- Something that may fail, and that leaves a state behind either way. -/
abbrev Attempt (σ α : Type) := σ → Except Fault α × σ

/-- Where package versions are looked up, with a state of type `σ`. -/
structure PackageSource (σ : Type) where
  /-- The published versions of a package. -/
  collection : PackageId → Attempt σ Collection
  /-- What is known about a version of a package. -/
  package : Specifier → Attempt σ PackageRecord
  /-- The package at a path. -/
  packageAt : FilePath → Attempt σ LocalPackage

end PackageManager
