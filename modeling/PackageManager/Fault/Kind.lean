/-!
# Kinds of failures

Every failure is of one of a few kinds. The kind decides how a message starts and whether there is
a hint that helps in all failures of the kind.
-/

namespace PackageManager

/-- The kinds of failures. -/
inductive FaultKind
  | io
  | config
  | graph
  | parse
  | resolution
  | network
  | download
  | generic
deriving DecidableEq

namespace FaultKind

/-- What messages of a kind start with. -/
def heading : FaultKind → String
  | .io => "I/O error: "
  | .config => "Configuration error: "
  | .graph => "Graph error: "
  | .parse => "Parse error: "
  | .resolution => "Dependency resolution failed: "
  | .network => "Network error: "
  | .download => "Download failed: "
  | .generic => ""

/-- The message of a failure of a kind. -/
def message (k : FaultKind) (detail : String) : String := k.heading ++ detail

/-- What to do about a failure of a kind. -/
def help : FaultKind → Option String
  | .config => some "Check the [targets] and [imports] tables of your pakt.toml"
  | .download => some "Re-run with RUST_LOG=debug to see which package URLs failed"
  | _ => none

end FaultKind

end PackageManager
