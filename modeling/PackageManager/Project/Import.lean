import PackageManager.Document.Decode

/-!
# Imports

An import gives a name to something that targets use: another target of the project, a package
that is required from its repository, or a package file at a URL. The imports of a project are kept
by name.
-/

namespace PackageManager

/-- What an import stands for. -/
inductive Import
  | target (name : String)
  | requirement (specifier : Specifier)
  | package (url : Url)
deriving DecidableEq

/-- The imports of a project by their names. -/
abbrev ImportStore := OrderedMap String Import

namespace Import

/-- The word for what an import stands for. -/
def word : Import → String
  | .target _ => "Target"
  | .requirement _ => "Requirement"
  | .package _ => "Package"

/-- The name of the field beside the word. -/
def fieldName (word : String) : Option String :=
  match word with
  | "Target" => some "target-name"
  | "Requirement" => some "requirement-spec"
  | "Package" => some "package-url"
  | _ => none

/-- The import with the given word and the given text beside it. -/
def ofField (word s : String) : Decode.Result Import :=
  match word with
  | "Target" => .ok (.target s)
  | "Requirement" => (Decode.specifier s).map .requirement
  | "Package" => (Decode.url s).map .package
  | _ => .error .form

/-- The import that a document describes. The word may stand anywhere in a table; in a list the
word and the field are the only items. -/
def decode (d : Datum) : Decode.Result Import :=
  match d with
  | .table entries =>
    match Datum.valuesOf entries "type" with
    | [.text word] =>
      match (fieldName word).map (Datum.valuesOf entries) with
      | some [.text s] => ofField word s
      | _ => .error .form
    | _ => .error .form
  | .list [.text word, .text s] => ofField word s
  | _ => .error .form

/-- The text beside the word of an import. -/
def fieldText : Import → String
  | .target name => name
  | .requirement specifier => specifier.text
  | .package url => url.text

/-- The description of an import. -/
def encode (i : Import) : Datum :=
  .table [("type", .text i.word), ((fieldName i.word).getD "", .text i.fieldText)]

end Import

end PackageManager
