import PackageManager.Document.Toml
import PackageManager.Fault
import PackageManager.Project.Import
import PackageManager.Project.Target

/-!
# Manifests

The manifest of a project describes the project, its targets and its imports. It is a TOML
document; the same description can be written as JSON.
-/

namespace PackageManager

/-- What a project says about itself. -/
structure ProjectInfo where
  name : String
  description : Option String := none
deriving DecidableEq

/-- The description of a project. -/
structure Manifest where
  project : Option ProjectInfo := none
  targets : TargetStore := ∅
  imports : ImportStore := ∅
deriving DecidableEq

/-- What a document says about a project. -/
def ProjectInfo.decode (format : Format) (d : Datum) : Decode.Result ProjectInfo := do
  let field ← Decode.record format ["name", "description"] d
  return {
    name := ← Decode.required Decode.text (field "name")
    description := ← Decode.optional Decode.text (field "description") }

/-- The description of what a project says about itself. -/
def ProjectInfo.encode (p : ProjectInfo) : Datum :=
  .table [("name", .text p.name), ("description", .ofText? p.description)]

namespace Manifest

/-- The name of the file in which a directory has its manifest. -/
def fileName : FilePath := .ofText "pakt.toml"

/-- The manifest that a document describes. -/
def decode (format : Format) (d : Datum) : Decode.Result Manifest := do
  let field ← Decode.record format ["project", "targets", "imports"] d
  return {
    project := ← Decode.optional (ProjectInfo.decode format) (field "project")
    targets := ← Decode.withDefault ∅ (Decode.map .ok (Target.decode format)) (field "targets")
    imports := ← Decode.withDefault ∅ (Decode.map .ok Import.decode) (field "imports") }

/-- The description of a manifest. -/
def encode (m : Manifest) : Datum :=
  .table [
    ("project", m.project.elim .null ProjectInfo.encode),
    ("targets", .table (m.targets.entries.map fun e => (e.1, e.2.encode))),
    ("imports", .table (m.imports.entries.map fun e => (e.1, e.2.encode)))]

/-- The manifest that a TOML text spells. -/
def parse (s : String) : Except Fault Manifest :=
  match Toml.parse? s with
  | none => .error (.config (.malformedManifest .form))
  | some d => (decode .toml d).mapError fun f => .config (.malformedManifest f)

/-- The manifest at a path, which leads to the file or to the directory that has it. -/
def load (fs : FileStore) (p : FilePath) : Except Fault Manifest :=
  let p := if fs.isDirectory p then p.join fileName else p
  match fs.readText p with
  | .ok s => parse s
  | .error f => .error (.config (.unreadableManifest p f))

end Manifest

end PackageManager
