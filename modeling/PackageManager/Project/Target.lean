import PackageManager.Document.Decode

/-!
# Targets

A target is a program, a library or an archive that a project builds. It depends on other targets
by their names and uses imports by theirs. The targets of a project are kept by name.
-/

namespace PackageManager

/-- What a target is built into. -/
inductive TargetKind
  | program
  | library
  | archive
deriving DecidableEq

/-- The word for a kind of target. -/
def TargetKind.word : TargetKind → String
  | .program => "Program"
  | .library => "Library"
  | .archive => "Archive"

/-- The kind of target that a word stands for. -/
def TargetKind.ofWord? (s : String) : Option TargetKind :=
  [TargetKind.program, .library, .archive].find? fun k => k.word = s

/-- Something that a project builds. -/
structure Target where
  kind : TargetKind
  specifier : Specifier
  version : Option Version := none
  /-- The names of the targets it depends on. -/
  depends : OrderedSet String := ∅
  /-- The names of the imports it uses. -/
  imports : OrderedSet String := ∅
  programMain : Option String := none
  programModules : List String := []
  libraryModules : List String := []
  archiveModules : List String := []
deriving DecidableEq

/-- The targets of a project by their names. -/
abbrev TargetStore := OrderedMap String Target

namespace Target

/-- The modules that a target of this kind is built from. -/
def modules (t : Target) : List String :=
  match t.kind with
  | .program => t.programModules
  | .library => t.libraryModules
  | .archive => t.archiveModules

/-- The kind of a target, written as a word. A document may also write the word as the only key of
a table, with nothing under it. -/
def decodeKind (format : Format) (d : Datum) : Decode.Result TargetKind :=
  let ofWord := fun s => (TargetKind.ofWord? s).elim (.error .form) .ok
  match format, d with
  | _, .text s => ofWord s
  | .json, .table [(s, .null)] => ofWord s
  | .toml, .table [(s, .table [])] => ofWord s
  | .toml, .table [(s, .list [])] => ofWord s
  | _, _ => .error .form

/-- The names of the fields of a target, in their order. -/
def fieldNames : List String :=
  ["type", "specifier", "version", "depends", "imports", "program-main", "program-modules",
   "library-modules", "archive-modules"]

/-- The target that a document describes. -/
def decode (format : Format) (d : Datum) : Decode.Result Target := do
  let field ← Decode.record format fieldNames d
  return {
    kind := ← Decode.required (decodeKind format) (field "type")
    specifier := ← Decode.required (Decode.asText Decode.specifier) (field "specifier")
    version := ← Decode.optional (Decode.asText Decode.version) (field "version")
    depends := ← Decode.withDefault ∅ Decode.textSet (field "depends")
    imports := ← Decode.withDefault ∅ Decode.textSet (field "imports")
    programMain := ← Decode.optional Decode.text (field "program-main")
    programModules := ← Decode.withDefault [] Decode.texts (field "program-modules")
    libraryModules := ← Decode.withDefault [] Decode.texts (field "library-modules")
    archiveModules := ← Decode.withDefault [] Decode.texts (field "archive-modules") }

/-- The description of a target. -/
def encode (t : Target) : Datum :=
  .table [
    ("type", .text t.kind.word),
    ("specifier", .text t.specifier.text),
    ("version", .ofText? (t.version.map Version.text)),
    ("depends", .ofTexts t.depends.toList),
    ("imports", .ofTexts t.imports.toList),
    ("program-main", .ofText? t.programMain),
    ("program-modules", .ofTexts t.programModules),
    ("library-modules", .ofTexts t.libraryModules),
    ("archive-modules", .ofTexts t.archiveModules)]

end Target

end PackageManager
