import PackageManager.Files.Path
import PackageManager.Ordered.Map

/-!
# Stores of files

A `FileStore` is a tree of directories with files of octets at its leaves. Looking a path up goes
through its names one by one, as the dots in it require, and fails at the first name that is not
there or does not lead on. Everything in a store has a text as its name, so that octets which are
not text lead nowhere. Reading, and putting a finished file at its place, are all that the
library does with files; both say exactly why they fail.
-/

namespace PackageManager

/-- Why something cannot be done with a path. -/
inductive FileFault
  | notFound
  | notADirectory
  | isADirectory
  | nameTooLong
  | nulInPath
  | notText
deriving DecidableEq

/-- The wording of a failure. -/
def FileFault.message : FileFault → String
  | .notFound => "No such file or directory (os error 2)"
  | .notADirectory => "Not a directory (os error 20)"
  | .isADirectory => "Is a directory (os error 21)"
  | .nameTooLong => "File name too long (os error 36)"
  | .nulInPath => "file name contained an unexpected NUL byte"
  | .notText => "stream did not contain valid UTF-8"

/-- What is found at a place in a store. -/
inductive FileEntry
  | file (content : ByteArray)
  | directory

/-- Files and directories by the names on the way to them from the root, which is always there. -/
structure FileStore where
  entries : OrderedMap (List String) FileEntry := ∅
  /-- Where paths that are not absolute start. -/
  workingDirectory : List String := []

namespace FileStore

/-- What is found under the given names. -/
def entry? (fs : FileStore) (names : List String) : Option FileEntry :=
  if names.isEmpty then some .directory else fs.entries.get? names

/-- The names on the way to what a list of further names leads to from `here`. -/
def walk (fs : FileStore) (here : List String) :
    List (List UInt8) → Except FileFault (List String)
  | [] => .ok here
  | name :: rest =>
    match fs.entry? here with
    | some .directory =>
      if name = [] ∨ name = Text.encode ['.'] then fs.walk here rest
      else if name = Text.encode ['.', '.'] then fs.walk here.dropLast rest
      else if 255 < name.length then .error .nameTooLong
      else
        match Text.decode? name with
        | some name =>
          if (fs.entry? (here ++ [name])).isSome then fs.walk (here ++ [name]) rest
          else .error .notFound
        | none => .error .notFound
    | some (.file _) => .error .notADirectory
    | none => .error .notFound

/-- The names on the way to what a path leads to. -/
def resolve (fs : FileStore) (p : FilePath) : Except FileFault (List String) :=
  if p.octets.isEmpty then .error .notFound
  else if p.octets.contains 0 then .error .nulInPath
  else if 4096 ≤ p.octets.length then .error .nameTooLong
  else fs.walk (if p.isAbsolute then [] else fs.workingDirectory) p.names

/-- What a path leads to. -/
def lookup (fs : FileStore) (p : FilePath) : Except FileFault FileEntry := do
  let names ← fs.resolve p
  match fs.entry? names with
  | some e => .ok e
  | none => .error .notFound

/-- Whether a path leads to a directory. -/
def isDirectory (fs : FileStore) (p : FilePath) : Bool :=
  match fs.lookup p with
  | .ok .directory => true
  | _ => false

/-- Whether a path leads to a file. -/
def isFile (fs : FileStore) (p : FilePath) : Bool :=
  match fs.lookup p with
  | .ok (.file _) => true
  | _ => false

/-- The octets as text, if they are UTF-8. -/
def textOf (content : ByteArray) : Except FileFault String :=
  match String.fromUTF8? content with
  | some s => .ok s
  | none => .error .notText

/-- The text of the file that a path leads to. -/
def readText (fs : FileStore) (p : FilePath) : Except FileFault String := do
  match ← fs.lookup p with
  | .file content => textOf content
  | .directory => .error .isADirectory

/-- The store with a file at the given path, in place of a file that may be there. The directory
it goes to must exist. -/
def place (fs : FileStore) (p : FilePath) (content : ByteArray) : Except FileFault FileStore := do
  if p.octets.contains 0 then throw .nulInPath
  if 4096 ≤ p.octets.length then throw .nameTooLong
  let names := p.names
  let last := names.getLast?.getD []
  let here ← fs.walk (if p.isAbsolute then [] else fs.workingDirectory) names.dropLast
  match fs.entry? here with
  | some .directory =>
    if 255 < last.length then throw .nameTooLong
    let some name := Text.decode? last | throw .notFound
    match fs.entry? (here ++ [name]) with
    | some .directory => throw .isADirectory
    | _ => return { fs with entries := fs.entries.insert (here ++ [name]) (.file content) }
  | some (.file _) => throw .notADirectory
  | none => throw .notFound

end FileStore

end PackageManager
