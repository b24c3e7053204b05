import PackageManager.Text.Utf8
import PackageManager.Url.Host

/-!
# URLs

A URL is kept in its parts, percent-encoded as they are written. Its path is a list of segments,
or one opaque text when the URL has no hierarchy (`mailto:a@b`). `Url.text` is its only written
form, and URLs compare by it.
-/

namespace PackageManager

/-- A user, a host and a port. -/
structure Url.Authority where
  user : String := ""
  password : Option String := none
  host : Url.Host
  port : Option Nat := none
deriving DecidableEq

/-- A path. -/
inductive Url.Path
  /-- The path of a URL without hierarchy. -/
  | opaqueText (text : String)
  /-- Segments, each of them written after a slash. -/
  | segments (list : List String)
deriving DecidableEq

/-- A URL. -/
structure Url where
  scheme : String
  authority : Option Url.Authority := none
  path : Url.Path
  query : Option String := none
  fragment : Option String := none
deriving DecidableEq

namespace Url

/-- The schemes of the web, whose URLs always have a host and a path. -/
def isWebScheme (scheme : String) : Bool := ["http", "https", "ws", "wss", "ftp"].contains scheme

/-- The schemes whose URLs may be written with backslashes and whose hosts are names. -/
def isSpecialScheme (scheme : String) : Bool := isWebScheme scheme || scheme = "file"

/-- The port that need not be written. -/
def defaultPort (scheme : String) : Option Nat :=
  match scheme with
  | "http" | "ws" => some 80
  | "https" | "wss" => some 443
  | "ftp" => some 21
  | _ => none

/-- The characters of an authority. -/
def Authority.chars (a : Authority) : List Char :=
  let login := a.user.toList ++ (a.password.elim [] fun p => ':' :: p.toList)
  (if login.isEmpty then [] else login ++ ['@']) ++ a.host.chars ++
    a.port.elim [] fun n => ':' :: Text.digits n

/-- The characters of a path. -/
def Path.chars : Path → List Char
  | .opaqueText t => t.toList
  | .segments l => l.flatMap fun s => '/' :: s.toList

/-- Whether a path would be read as an authority if nothing stood between it and the scheme. -/
def Path.startsWithEmpty : Path → Bool
  | .segments ("" :: _ :: _) => true
  | _ => false

/-- The characters of a URL. -/
def chars (u : Url) : List Char :=
  u.scheme.toList ++ [':'] ++
    (match u.authority with
      | some a => ['/', '/'] ++ a.chars
      | none => if u.path.startsWithEmpty then ['/', '.'] else []) ++
    u.path.chars ++ (u.query.elim [] fun q => '?' :: q.toList) ++
    u.fragment.elim [] fun f => '#' :: f.toList

/-- The text of a URL. -/
def text (u : Url) : String := String.ofList u.chars

/-- URLs compare by their texts. -/
instance : Ord Url where
  compare := compareOn text

instance : Std.TransOrd Url := inferInstanceAs (Std.TransCmp (compareOn text))

theorem text_eq_of_compare {u v : Url} (h : compare u v = .eq) : u.text = v.text := by
  have h : compareOn text u v = .eq := h
  simpa only [compareOn, Std.LawfulEqCmp.compare_eq_iff_eq] using h

/-- Whether the URL has no hierarchy, so that nothing can be found relative to it. -/
def isOpaque (u : Url) : Bool :=
  match u.path with
  | .opaqueText _ => true
  | .segments _ => false

/-- The user name of a URL, empty where it has none. -/
def user (u : Url) : String := u.authority.elim "" Authority.user

/-- The text of the host of a URL, empty where it has none. -/
def hostText (u : Url) : String := u.authority.elim "" fun a => a.host.text

/-- Whether an authority holds a login that can be taken out of it: a user name that is not empty,
or a password that decodes to text. The user name has to decode to text in any case. -/
def Authority.hasLogin (a : Authority) : Bool :=
  let isText := fun s : String => (Text.decode? (percentDecode s.toList)).isSome
  isText a.user && (a.user ≠ "" || a.password.any isText)

/-- The URL without its user name and its password. A login that does not decode to text is left
where it is. -/
def withoutLogin (u : Url) : Url :=
  { u with
    authority := u.authority.map fun a =>
      if a.hasLogin then { a with user := "", password := none } else a }

/-- The URL with a path that ends in a slash. -/
def asDirectory (u : Url) : Url :=
  match u.path with
  | .segments l => if l.getLast? = some "" then u else { u with path := .segments (l ++ [""]) }
  | .opaqueText t =>
    if t.toList.getLast? = some '/' then u else { u with path := .opaqueText (t ++ "/") }

end Url

end PackageManager
