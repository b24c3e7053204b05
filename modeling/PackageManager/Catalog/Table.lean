import PackageManager.Catalog

/-!
# Catalogs in memory

A `PackageTable` is a catalog that is known completely. It is made of records, of which the later
one for a version counts, and it keeps two indexes: the records by what names their versions, and
for each package a collection of its versions, none of them withdrawn. The second index is made of
the keys of the first. They are gone through one by one, and nothing is said about their order.
-/

namespace PackageManager

/-- Package records by what names their versions, and the versions of each package. -/
structure PackageTable where
  records : OrderedMap Specifier PackageRecord := ∅
  collections : OrderedMap PackageId Collection := ∅
deriving DecidableEq

namespace PackageTable

/-- Puts a version into the collection of its package, which is a new one if there is none yet. -/
def collect (collections : OrderedMap PackageId Collection) (v : Specifier) :
    OrderedMap PackageId Collection :=
  let c := (collections.get? v.id).getD { id := v.id }
  collections.insert v.id { c with versions := c.versions.insert v.version {} }

/-- The table of some records whose keys come in the given order. -/
def ofMap (records : OrderedMap Specifier PackageRecord) (keys : List Specifier) : PackageTable :=
  { records, collections := keys.foldl collect ∅ }

/-- Records by what names their versions. -/
def byName (records : List PackageRecord) : OrderedMap Specifier PackageRecord :=
  .ofList (records.map fun r => (r.specifier, r))

/-- The table of some records. -/
def ofRecords (records : List PackageRecord) : PackageTable :=
  ofMap (byName records) (byName records).keys

/-- The versions of a package. There must be one. -/
def collection (t : PackageTable) (id : PackageId) : Except Fault Collection :=
  match t.collections.get? id with
  | some c => .ok c
  | none => .error (.resolution (.missingCollection id))

/-- The record of a version. -/
def package (t : PackageTable) (s : Specifier) : Except Fault PackageRecord :=
  match t.records.get? s with
  | some r => .ok r
  | none => .error (.resolution (.missingPackage s))

/-- The table as a source, beside files that are found in the state and never changed. -/
def source {σ : Type} (t : PackageTable) (files : σ → FileStore) : PackageSource σ where
  collection id w := (t.collection id, w)
  package s w := (t.package s, w)
  packageAt p w := (LocalPackage.load (files w) p, w)

end PackageTable

end PackageManager
