import PackageManager.Catalog
import PackageManager.Document.Json

/-!
# Documents of repositories

A repository answers with JSON documents: where it is, which packages it has, which versions a
package has, and what a version depends on. Each of them is read into the part of a catalog that it
describes.
-/

namespace PackageManager.Registry

/-- Where the repository of a domain is. -/
structure LocationDocument where
  /-- The base of the repository, perhaps relative to the document. -/
  baseUri : String
  /-- Until when it is there. -/
  expires : Option Timestamp := none
deriving DecidableEq

/-- What a document says about a version, beside what it is asked for by. -/
structure PackageDocument where
  dependencies : OrderedMap PackageId Version := ∅
  /-- Where the package is, perhaps relative to the document. -/
  url : String
  uploadedAt : Option Timestamp := none
  pruned : Bool := false
deriving DecidableEq

/-- A timestamp. -/
def decodeTimestamp : Datum → Decode.Result Timestamp :=
  Decode.asText fun s => (Timestamp.parse? s).elim (.error .form) .ok

/-- A record with one field, which has to be there. -/
def decodeOnly {α : Type} (name : String) (read : Datum → Decode.Result α) (d : Datum) :
    Decode.Result α := do
  let field ← Decode.record .json [name] d
  Decode.required read (field name)

/-- The location that a document describes. -/
def LocationDocument.decode (d : Datum) : Decode.Result LocationDocument := do
  let field ← Decode.record .json ["baseUri", "expires"] d
  return {
    baseUri := ← Decode.required Decode.text (field "baseUri")
    expires := ← Decode.optional decodeTimestamp (field "expires") }

/-- The description of a package in the document of a repository. -/
def decodeDescription (d : Datum) : Decode.Result (Option String) := do
  let field ← Decode.record .json ["description"] d
  Decode.optional Decode.text (field "description")

/-- The repository that a document describes. -/
def decodeRepository : Datum → Decode.Result Repository :=
  decodeOnly "repository" fun d => do
    let field ← Decode.record .json ["collections"] d
    Decode.withDefault ∅ (Decode.map Decode.packageId decodeDescription) (field "collections")

/-- What a document says about a version in a collection. -/
def decodePublished (d : Datum) : Decode.Result PublishedVersion := do
  let field ← Decode.record .json ["uploadedAt", "pruned"] d
  return {
    uploadedAt := ← Decode.optional decodeTimestamp (field "uploadedAt")
    pruned := ← Decode.withDefault false Decode.bool (field "pruned") }

/-- The versions that a document describes. -/
def decodeVersions : Datum → Decode.Result (OrderedMap Version PublishedVersion) :=
  decodeOnly "collection" fun d => do
    let field ← Decode.record .json ["versions"] d
    Decode.withDefault ∅ (Decode.map Decode.version decodePublished) (field "versions")

/-- The package that a document describes. -/
def PackageDocument.decode : Datum → Decode.Result PackageDocument :=
  decodeOnly "package" fun d => do
    let field ← Decode.record .json ["dependencies", "url", "uploadedAt", "pruned"] d
    return {
      dependencies :=
        ← Decode.withDefault ∅ (Decode.map Decode.packageId (Decode.asText Decode.version))
          (field "dependencies")
      url := ← Decode.required Decode.text (field "url")
      uploadedAt := ← Decode.optional decodeTimestamp (field "uploadedAt")
      pruned := ← Decode.withDefault false Decode.bool (field "pruned") }

/-- What is read from the text of the document at a URL. -/
def readDocument {α : Type} (read : Datum → Decode.Result α) (source : Url) (body : String) :
    Except Fault α :=
  match Json.parse? body with
  | none => .error (.parse (.document source .form))
  | some d => (read d).mapError fun f => .parse (.document source f)

/-- The record of the version that a document describes. -/
def PackageDocument.toRecord (d : PackageDocument) (v : Specifier) (source : Url) :
    Except Fault PackageRecord :=
  match source.join d.url with
  | .error flaw => .error (.parse (.packageUrl d.url source flaw))
  | .ok url => .ok {
      id := v.id
      version := v.version
      dependencies := .ofList (d.dependencies.entries.map fun e => ⟨e.1, e.2⟩)
      url
      uploadedAt := d.uploadedAt
      pruned := d.pruned }

end PackageManager.Registry
