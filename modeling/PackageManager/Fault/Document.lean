import PackageManager.Document.Datum
import PackageManager.Fault.Kind
import PackageManager.Package.Specifier
import PackageManager.Requirement

/-!
# Failures inside documents

A document can be refused for two reasons: it does not have the form of what is read from it, or
one of the texts in it is not the version, id, specifier or requirement that it should be. The
message of the second says why; that of the first only names the format.
-/

namespace PackageManager

/-- A text that is not the value it should be. -/
inductive ValueFault
  | version (m : Version.Malformed)
  | requirement (m : Requirement.Malformed)
  | id (m : PackageId.Malformed)
  | specifier (m : Specifier.Malformed)
deriving DecidableEq

/-- The wording of a refused value. -/
def ValueFault.detail : ValueFault → String
  | .version m => m.message
  | .requirement m => m.message
  | .id m => m.message
  | .specifier m => m.message

/-- Why nothing can be read from a document. -/
inductive DocumentFault
  /-- The document does not have the form of what is read from it. -/
  | form
  /-- A text in the document is refused. -/
  | value (f : ValueFault)
deriving DecidableEq

/-- The wording of a refused document. Only the first line of a refused text is shown. -/
def DocumentFault.detail (format : Format) : DocumentFault → String
  | .form => format.marker
  | .value f => format.marker ++ " " ++ Text.firstLine (FaultKind.parse.message f.detail)

end PackageManager
