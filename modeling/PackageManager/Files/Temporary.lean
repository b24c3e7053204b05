import PackageManager.Files.Store

/-!
# Temporary files

A file whose place is not known yet is written to a temporary one, which is moved to its place in
the end or else removed. The steps in between are here one by one. Writing goes through the names
that a file had when it was created, the other steps through its path. Moving a file puts it at its
new place and takes it away from the old one, or changes nothing.
-/

namespace PackageManager.FileStore

/-- The store with a new file without octets at a path, and the names of that file. -/
def create (fs : FileStore) (p : FilePath) : Except FileFault (List String × FileStore) := do
  let fs ← fs.place p .empty
  let names ← fs.resolve p
  return (names, fs)

/-- The store with the given octets in the file under the given names. -/
def write (fs : FileStore) (names : List String) (content : ByteArray) : FileStore :=
  { fs with entries := fs.entries.insert names (.file content) }

/-- The store without what is under the given names. -/
def erase (fs : FileStore) (names : List String) : FileStore :=
  { fs with entries := fs.entries.erase names }

/-- The store without the file at a path. If there is none, nothing is removed. -/
def remove (fs : FileStore) (p : FilePath) : FileStore :=
  match fs.resolve p with
  | .ok names => if fs.isFile p then fs.erase names else fs
  | .error _ => fs

/-- The store with the file from one path at another one, in place of a file that may be there. -/
def rename (fs : FileStore) (p q : FilePath) : Except FileFault FileStore := do
  let names ← fs.resolve p
  match fs.entry? names with
  | some (.file content) =>
    let moved ← fs.place q content
    let there ← moved.resolve q
    return if there = names then moved else moved.erase names
  | some .directory => throw .isADirectory
  | none => throw .notFound

end PackageManager.FileStore
