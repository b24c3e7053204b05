import PackageManager.Document.Toml
import PackageManager.Document.Decode
import PackageManager.Fault

/-!
# Settings of the user

A user may set how repositories are reached and where downloads are kept, in a file below the home
directory. Nothing has to be set.
-/

namespace PackageManager

/-- How repositories are reached. -/
structure NetworkSettings where
  /-- Where the location of repositories is asked for when their own domain does not say. -/
  defaultLocation : Option String := none
  timeoutSeconds : Nat := 60
  retries : Nat := 3
deriving DecidableEq

/-- The settings of a user. -/
structure Settings where
  network : NetworkSettings := {}
  /-- Where downloads are kept, as it was written. -/
  cacheDirectory : String := "~/.pakt/downloads"
deriving DecidableEq

/-- The variables of the environment that say where the home directory is. -/
structure Environment where
  home : Option String := none
  userProfile : Option String := none

namespace Environment

/-- The home directory of the user. -/
def homeDirectory (e : Environment) : FilePath :=
  .ofText ((e.home.orElse fun _ => e.userProfile).getD ".")

/-- The directory with the files of the user. -/
def userDirectory (e : Environment) : FilePath := e.homeDirectory.join (.ofText ".pakt")

/-- Where settings are unless it is said otherwise. -/
def settingsPath (e : Environment) : FilePath :=
  e.userDirectory.join (.ofText "config.toml")

end Environment

/-- The network settings that a document describes. -/
def NetworkSettings.decode (format : Format) (d : Datum) : Decode.Result NetworkSettings := do
  let field ← Decode.record format ["default-location", "timeout-secs", "retries"] d
  return {
    defaultLocation := ← Decode.optional Decode.text (field "default-location")
    timeoutSeconds := ← Decode.withDefault 60 (Decode.below UInt64.size) (field "timeout-secs")
    retries := ← Decode.withDefault 3 (Decode.below UInt32.size) (field "retries") }

namespace Settings

/-- The directory for downloads that a document describes. -/
def decodeCache (format : Format) (d : Datum) : Decode.Result String := do
  let field ← Decode.record format ["dir"] d
  Decode.withDefault "~/.pakt/downloads" Decode.text (field "dir")

/-- The settings that a document describes. -/
def decode (format : Format) (d : Datum) : Decode.Result Settings := do
  let field ← Decode.record format ["resolver", "cache"] d
  return {
    network := ← Decode.withDefault {} (NetworkSettings.decode format) (field "resolver")
    cacheDirectory :=
      ← Decode.withDefault "~/.pakt/downloads" (decodeCache format) (field "cache") }

/-- The description of settings. -/
def encode (s : Settings) : Datum :=
  .table [
    ("resolver", .table [
      ("default-location", .ofText? s.network.defaultLocation),
      ("timeout-secs", .integer s.network.timeoutSeconds),
      ("retries", .integer s.network.retries)]),
    ("cache", .table [("dir", .text s.cacheDirectory)])]

/-- The settings that a TOML text spells. -/
def parse (s : String) : Except Fault Settings :=
  match Toml.parse? s with
  | none => .error (.config (.malformedSettings .form))
  | some d => (decode .toml d).mapError fun f => .config (.malformedSettings f)

/-- The settings in the file at a path. Where there is no file nothing is set. -/
def load (fs : FileStore) (p : FilePath) : Except Fault Settings :=
  if fs.isFile p then
    match fs.readText p with
    | .ok s => parse s
    | .error f => .error (.config (.unreadableSettings f))
  else .ok {}

/-- The directory for downloads; a tilde at its beginning stands for the home directory. -/
def cachePath (s : Settings) (e : Environment) : FilePath :=
  match Text.afterPrefix? ['~', '/'] s.cacheDirectory.toList with
  | some rest => e.homeDirectory.join ⟨Text.encode rest⟩
  | none => .ofText s.cacheDirectory

end Settings

end PackageManager
