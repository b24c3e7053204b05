import PackageManager.Files.Path
import PackageManager.Url.Basic

/-!
# File URLs and paths

A file URL stands for an absolute path, and an absolute path for a file URL. A segment of the URL
may hide a slash behind a percent sign, and then stands for more than one name.
-/

namespace PackageManager.Url

/-- The file URL of the absolute path with the given names. -/
def ofFileNames (names : List String) : Url where
  scheme := "file"
  authority := some { host := .name "" }
  path := .segments <|
    if names.isEmpty then [""]
    else names.map fun n => String.ofList (percentEncode inSegmentSet n.toList)

/-- Whether the octets of a path end in a letter and a colon or a bar, after something else. -/
def endsInDrive (octets : List UInt8) : Bool :=
  match octets.reverse with
  | mark :: letter :: _ :: _ =>
    (Char.ofNat letter.toNat).isAlpha && (mark = 0x3A || mark = 0x7C)
  | _ => false

/-- The path that a file URL stands for. There is none on another host. -/
def toFilePath? (u : Url) : Option FilePath :=
  match u.path with
  | .opaqueText _ => none
  | .segments names =>
    if u.hostText ≠ "" ∧ u.hostText ≠ "localhost" then none
    else
      let octets := names.flatMap fun n => FilePath.slash :: percentDecode n.toList
      some ⟨if endsInDrive octets then octets ++ [FilePath.slash] else octets⟩

end PackageManager.Url
