import PackageManager.Package.Id
import PackageManager.Url.Parser
import PackageManager.Version.Parser

/-!
# Package specifiers

A specifier names one version of a package. It has three written forms: the text
`name-1.2.3@domain`, a file name in which the labels of the domain come first and in reverse
(`domain` read from the top level down, then `_`, then `name-1.2.3` and a suffix), and a URL with
the name and version as its user and the domain as its host.

Names may contain every separator again. The text is therefore cut from its end, where the domain
and the version are, and the file name from its beginning, where the domain is.
-/

namespace PackageManager

/-- A version of a package. -/
structure Specifier where
  id : PackageId
  version : Version
deriving DecidableEq

namespace Specifier

/-- The scheme of the URLs that name packages. -/
def urlScheme : String := "pakt-pkg"

/-- How the names of package files end. -/
def fileSuffix : String := ".pakt"

/-- Specifiers compare by their domains, then by their names, then by their versions. -/
instance : Ord Specifier where
  compare := compareLex (compareOn fun s => s.id.domain)
    (compareLex (compareOn fun s => s.id.name) (compareOn version))

instance : Std.TransOrd Specifier :=
  inferInstanceAs (Std.TransCmp (compareLex (compareOn fun s : Specifier => s.id.domain)
    (compareLex (compareOn fun s : Specifier => s.id.name) (compareOn version))))

instance : Std.LawfulEqOrd Specifier where
  eq_of_compare {a b} h := by
    have h : compareLex (compareOn fun s : Specifier => s.id.domain)
      (compareLex (compareOn fun s : Specifier => s.id.name) (compareOn version)) a b = .eq := h
    simp only [compareLex_eq_eq, compareOn, Std.LawfulEqCmp.compare_eq_iff_eq] at h
    obtain ⟨⟨an, ad⟩, av⟩ := a
    obtain ⟨⟨bn, bd⟩, bv⟩ := b
    simp_all

/-- The name and version of a specifier, as they stand in all of its forms. -/
def label (s : Specifier) : String := s.id.name ++ "-" ++ s.version.text

/-- The text of a specifier. -/
def text (s : Specifier) : String := s.label ++ "@" ++ s.id.domain

/-- What is missing in the parts of a specifier. -/
inductive Missing
  | domain
  | version
  | name
deriving DecidableEq

/-- The wording of what is missing. -/
def Missing.message : Missing → String
  | .domain => "missing domain"
  | .version => "missing version"
  | .name => "missing name"

/-- Why something is no specifier, or a specifier is no URL. -/
inductive Malformed
  /-- The text has no `@`. -/
  | text (text : String)
  /-- One of the parts is missing. -/
  | parts (label domain : String) (missing : Missing)
  /-- The version is malformed. -/
  | version (m : Version.Malformed)
  /-- The name is not that of a package file. -/
  | fileName (name : String)
  /-- The URL has another scheme. -/
  | scheme (url : String)
  /-- The specifier is no URL when it is written as one. -/
  | inexpressible (specifier : String) (flaw : Url.Flaw)
deriving DecidableEq

/-- The wording of a refused specifier. -/
def Malformed.message : Malformed → String
  | .text s => "invalid package specifier '" ++ s ++ "', expected 'name-1.2.3@domain'"
  | .parts label domain missing =>
    "invalid package specifier '" ++ label ++ "@" ++ domain ++ "': " ++ missing.message
  | .version m => m.message
  | .fileName name => "invalid package file name '" ++ name ++ "'"
  | .scheme url => "'" ++ url ++ "' is not a " ++ urlScheme ++ " url"
  | .inexpressible s flaw => "cannot express " ++ s ++ " as a url: " ++ flaw.message

/-- The specifier with the given name and version, which the last dash separates, and domain. -/
def ofParts (label domain : List Char) : Except Malformed Specifier :=
  let missing := fun m => .error (.parts (String.ofList label) (String.ofList domain) m)
  if domain.isEmpty then missing .domain
  else
    match Text.cutLast '-' label with
    | none => missing .version
    | some (name, version) =>
      if name.isEmpty then missing .name
      else
        match Version.parse (String.ofList version) with
        | .ok v => .ok ⟨⟨String.ofList name, String.ofList domain⟩, v⟩
        | .error m => .error (.version m)

/-- The specifier that a text spells. -/
def parse (s : String) : Except Malformed Specifier :=
  match Text.cutLast '@' s.toList with
  | some (label, domain) => ofParts label domain
  | none => .error (.text s)

/-- A domain with its labels in reverse. -/
def reverseLabels (domain : List Char) : List Char :=
  ['.'].intercalate (domain.splitOn '.').reverse

/-- The name of the file that holds a package. -/
def fileName (s : Specifier) : String :=
  String.ofList (reverseLabels s.id.domain.toList) ++ "_" ++ s.label ++ fileSuffix

/-- The specifier whose package a file of the given name holds. -/
def ofFileName (name : String) : Except Malformed Specifier :=
  match (Text.beforeSuffix? fileSuffix.toList name.toList).bind (Text.cutFirst '_') with
  | some (reversed, label) => ofParts label (reverseLabels reversed)
  | none => .error (.fileName name)

/-- The URL that names a package version. -/
def toUrl (s : Specifier) : Except Malformed Url :=
  (Url.parse (urlScheme ++ "://" ++ s.text)).mapError (.inexpressible s.text)

/-- The specifier that a URL names. Only its user and its host matter. -/
def ofUrl (u : Url) : Except Malformed Specifier :=
  if u.scheme = urlScheme then ofParts u.user.toList u.hostText.toList
  else .error (.scheme u.text)

end Specifier

end PackageManager
