import PackageManager.Text.Utf8

/-!
# Paths

A path is a sequence of octets, in which nothing but the slash has a meaning; it need not be text,
and shows what is not with replacements. A path is kept as it was written: joining two paths puts
a slash between them where none is, and an absolute path joined to another replaces it.
-/

namespace PackageManager

/-- The path of a file or a directory. -/
structure FilePath where
  octets : List UInt8
deriving DecidableEq, Inhabited

namespace FilePath

/-- The path that a text spells. -/
def ofText (s : String) : FilePath := ⟨Text.encode s.toList⟩

/-- The text of a path as messages show it. -/
def text (p : FilePath) : String := Text.decodeLossy p.octets

/-- What stands between the names of a path. -/
def slash : UInt8 := 0x2F

/-- Whether the path starts at the root. -/
def isAbsolute (p : FilePath) : Bool := p.octets.head? = some slash

/-- The path of `q` from where `p` leads. -/
def join (p q : FilePath) : FilePath :=
  if q.isAbsolute then q
  else if p.octets.isEmpty ∨ p.octets.getLast? = some slash then ⟨p.octets ++ q.octets⟩
  else ⟨p.octets ++ slash :: q.octets⟩

/-- The names between the slashes of a path; a name may be empty. -/
def names (p : FilePath) : List (List UInt8) := p.octets.splitOn slash

/-- The absolute path with the given names. -/
def ofNames (names : List String) : FilePath :=
  if names.isEmpty then ⟨[slash]⟩ else ⟨names.flatMap fun n => slash :: Text.encode n.toList⟩

end FilePath

end PackageManager
