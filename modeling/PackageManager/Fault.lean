import PackageManager.Fault.Document
import PackageManager.Files.Store

/-!
# Failures

Every operation of the library that can fail says why with a `Fault`. A fault records its cause;
`Fault.kind` and `Fault.message` are the only places where causes are sorted and put into words.
-/

namespace PackageManager

/-- Failures of texts and documents. -/
inductive ParseFault
  | value (f : ValueFault)
  /-- A document of a repository is malformed. -/
  | document (source : Url) (f : DocumentFault)
  /-- There can be no repository at a domain. -/
  | domain (domain : String) (flaw : Url.Flaw)
  /-- A location names no base of a repository. -/
  | baseUri (written : String) (source : Url) (flaw : Url.Flaw)
  /-- A path leads nowhere in a repository. -/
  | repositoryPath (path : String) (base : Url) (flaw : Url.Flaw)
  /-- A package is said to be where nothing can be. -/
  | packageUrl (written : String) (source : Url) (flaw : Url.Flaw)
  /-- A file URL stands for no path. -/
  | noFilePath (url : Url)
deriving DecidableEq

/-- Failures of what a project or its user has written. -/
inductive ConfigFault
  | unreadableManifest (path : FilePath) (f : FileFault)
  | malformedManifest (f : DocumentFault)
  | unreadableSettings (f : FileFault)
  | malformedSettings (f : DocumentFault)
  | defaultLocation (written : String) (flaw : Url.Flaw)
  /-- An import stands for a target that is not there. -/
  | importWithoutTarget (importName target : String)
  /-- A target depends on a target that is not there. -/
  | targetWithoutTarget (target dependency : String)
  /-- A target uses an import that is not there. -/
  | targetWithoutImport (target importName : String)
  /-- A package is imported from a URL without hierarchy. -/
  | opaqueImport (importName : String)
  /-- A package is imported under a name that is taken. -/
  | takenImport (importName : String)
deriving DecidableEq

/-- Failures of graphs. The project at the root may have no id. -/
inductive GraphFault
  | alreadyDeclared (dependency : PackageId) (dependent : Option PackageId)
  | missingDependent (id : PackageId)
  | dependencyCycle (at_ : Option PackageId)
  | unpinned (id : PackageId)
  | withoutUrl (specifier : Specifier)
  | unknownTarget (name : String)
deriving DecidableEq

/-- Failures to find packages. -/
inductive ResolutionFault
  | missingCollection (id : PackageId)
  | missingPackage (specifier : Specifier)
  | noUsableVersion (id : PackageId)
  | noRepository (domain : String)
  | unreadablePackage (path : FilePath) (f : FileFault)
  | malformedPackage (path : FilePath) (f : DocumentFault)
deriving DecidableEq

/-- Failures of the network. -/
inductive NetworkFault
  /-- No attempt was answered, or each was answered with a failure of the server. -/
  | exhausted (attempts : Nat) (url : Url) (last : String)
  /-- A request was not even attempted. -/
  | refused (url : Url) (reason : String)
  /-- A text was answered with something else. -/
  | unexpectedStatus (status : String) (url : Url)
  /-- A download was answered with something else. -/
  | downloadStatus (status : String) (url : Url)
  /-- The answer to a request for a text broke off. -/
  | brokenText (url : Url) (reason : String)
  /-- A download broke off. -/
  | brokenDownload (url : Url) (reason : String)
deriving DecidableEq

/-- Failures of downloads. -/
inductive DownloadFault
  | invalidRoot (root : FilePath)
  | unsupportedScheme (url : Url)
  | incomplete
deriving DecidableEq

/-- Failures of all kinds. -/
inductive Fault
  | io (f : FileFault)
  | config (f : ConfigFault)
  | graph (f : GraphFault)
  | parse (f : ParseFault)
  | resolution (f : ResolutionFault)
  | network (f : NetworkFault)
  | download (f : DownloadFault)
  /-- A failure outside the library, in its own words. -/
  | generic (words : String)
deriving DecidableEq

/-- The wording of a failure of a text or document. -/
def ParseFault.detail : ParseFault → String
  | .value f => f.detail
  | .document source f => "invalid document at " ++ source.text ++ ": " ++ f.detail .json
  | .domain name flaw => "invalid package domain '" ++ name ++ "': " ++ flaw.message
  | .baseUri written source flaw =>
    "invalid baseUri '" ++ written ++ "' in " ++ source.text ++ ": " ++ flaw.message
  | .repositoryPath path base flaw =>
    "invalid repository path '" ++ path ++ "' under " ++ base.text ++ ": " ++ flaw.message
  | .packageUrl written source flaw =>
    "invalid package url '" ++ written ++ "' in " ++ source.text ++ ": " ++ flaw.message
  | .noFilePath url => "cannot express " ++ url.text ++ " as a local path"

/-- The wording of a failure of a project's files. -/
def ConfigFault.detail : ConfigFault → String
  | .unreadableManifest path f => "Failed to read " ++ path.text ++ ": " ++ f.message
  | .malformedManifest f => "Failed to parse pakt.toml: " ++ f.detail .toml
  | .unreadableSettings f => "Failed to read global config: " ++ f.message
  | .malformedSettings f => "Failed to parse global config: " ++ f.detail .toml
  | .defaultLocation written flaw =>
    "invalid default-location '" ++ written ++ "': " ++ flaw.message
  | .importWithoutTarget name target =>
    "import '" ++ name ++ "' refers to nonexistent target '" ++ target ++ "'"
  | .targetWithoutTarget name dependency =>
    "target '" ++ name ++ "' refers to nonexistent target dependency '" ++ dependency ++ "'"
  | .targetWithoutImport name importName =>
    "target '" ++ name ++ "' refers to nonexistent import '" ++ importName ++ "'"
  | .opaqueImport name =>
    "cannot import '" ++ name ++ "'; package must refer to an absolute url"
  | .takenImport name => "import already defined for '" ++ name ++ "'"

/-- What a package is called in a message, where the project at the root may have no id. -/
def GraphFault.label (id? : Option PackageId) : String := id?.elim "the root project" PackageId.text

/-- The wording of a failure of a graph. -/
def GraphFault.detail : GraphFault → String
  | .alreadyDeclared dependency dependent =>
    "dependency " ++ dependency.text ++ " was already declared for " ++ label dependent
  | .missingDependent id => "missing dependency target " ++ id.text
  | .dependencyCycle place => "dependency cycle detected at " ++ label place
  | .unpinned id => "no version was pinned for " ++ id.text
  | .withoutUrl specifier => "missing package url for " ++ specifier.text
  | .unknownTarget name => "unknown build target '" ++ name ++ "'"

/-- The wording of a failure to find a package. -/
def ResolutionFault.detail : ResolutionFault → String
  | .missingCollection id => "missing collection " ++ id.text
  | .missingPackage specifier => "missing package " ++ specifier.text
  | .noUsableVersion id => "no usable version found for '" ++ id.text ++ "'"
  | .noRepository domain => "repository location not found for " ++ domain
  | .unreadablePackage path f =>
    "Failed to read package manifest " ++ path.text ++ ": " ++ f.message
  | .malformedPackage path f =>
    "Failed to parse package manifest " ++ path.text ++ ": " ++ f.detail .toml

/-- The wording of a failure of the network. -/
def NetworkFault.detail : NetworkFault → String
  | .exhausted attempts url last =>
    "Failed after " ++ Text.decimal attempts ++ " retries for " ++ url.text ++ ": " ++ last
  | .refused url reason => "Request to " ++ url.text ++ " failed: " ++ reason
  | .unexpectedStatus status url =>
    "unexpected " ++ status ++ " response code from " ++ url.text
  | .downloadStatus status url =>
    "encountered " ++ status ++ " status code during fetch of " ++ url.text
  | .brokenText url reason => "Failed to read response from " ++ url.text ++ ": " ++ reason
  | .brokenDownload url reason => "Failed to read " ++ url.text ++ ": " ++ reason

/-- The wording of a failure of a download. -/
def DownloadFault.detail : DownloadFault → String
  | .invalidRoot root => "download root " ++ root.text ++ " is not a valid directory"
  | .unsupportedScheme url => "unsupported scheme '" ++ url.scheme ++ "' for " ++ url.text
  | .incomplete => "not all requested packages could be downloaded"

namespace Fault

/-- The kind of a fault. -/
def kind : Fault → FaultKind
  | .io _ => .io
  | .config _ => .config
  | .graph _ => .graph
  | .parse _ => .parse
  | .resolution _ => .resolution
  | .network _ => .network
  | .download _ => .download
  | .generic _ => .generic

/-- The wording of a fault, without the heading of its kind. -/
def detail : Fault → String
  | .io f => f.message
  | .config f => f.detail
  | .graph f => f.detail
  | .parse f => f.detail
  | .resolution f => f.detail
  | .network f => f.detail
  | .download f => f.detail
  | .generic words => words

/-- The message of a fault. -/
def message (f : Fault) : String := f.kind.message f.detail

/-- A refused value as a fault. -/
def ofValue (f : ValueFault) : Fault := .parse (.value f)

end Fault

end PackageManager
