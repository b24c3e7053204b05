import PackageManager.Project.Settings
import PackageManager.Registry.Documents
import PackageManager.Registry.Session

/-!
# Locations of repositories

The domain of a package says where its repository is, in a document at a well-known place. If it
has no such document, a default location may say it instead. An answer is kept until the time that
the document names, or for an hour if it names none, and until then the domain is not asked again.
-/

namespace PackageManager

/-- How repositories are reached. -/
structure Registry where
  /-- The document to look at for domains that have none of their own. -/
  defaultLocation : Option Url := none
  /-- The scheme of well-known places. -/
  scheme : String := "https"
  retries : Nat := 3

namespace Registry

/-- The registry that a user has set up. -/
def ofSettings (s : NetworkSettings) : Except Fault Registry :=
  match s.defaultLocation.map fun written => (written, Url.parse written) with
  | some (written, .error flaw) => .error (.config (.defaultLocation written flaw))
  | some (_, .ok url) => .ok { defaultLocation := some url, retries := s.retries }
  | none => .ok { retries := s.retries }

/-- Where the location of repositories is within a domain. -/
def wellKnownPath : String := ".well-known/pakt-pkgs/location.json"

/-- How many hours a location is known for if it does not say. -/
def defaultHours : Nat := 1

/-- The well-known place of a domain. -/
def wellKnownUrl (r : Registry) (domain : String) : Except Fault Url :=
  (Url.parse (r.scheme ++ "://" ++ domain ++ "/" ++ wellKnownPath)).mapError fun flaw =>
    .parse (.domain domain flaw)

section Lookup

variable {ν : Type} (network : Network ν) (r : Registry)

/-- The text of a location document, if there is one at a URL. -/
def locationText (url : Url) : Attempt ν (Option String) := fun w =>
  match request network r.retries url w with
  | (.ok response, w) =>
    if response.status = 200 then ((response.body.text url).map some, w) else (.ok none, w)
  | (.error f, w) => (.error f, w)

/-- The text of the location document for a domain, and where it is. -/
def findLocation (domain : String) : Attempt ν (Url × String) := fun w =>
  match r.wellKnownUrl domain with
  | .error f => (.error f, w)
  | .ok wellKnown =>
    match locationText network r wellKnown w with
    | (.error f, w) => (.error f, w)
    | (.ok (some body), w) => (.ok (wellKnown, body), w)
    | (.ok none, w) =>
      match r.defaultLocation with
      | none => (.error (.resolution (.noRepository domain)), w)
      | some url =>
        match locationText network r url w with
        | (.error f, w) => (.error f, w)
        | (.ok (some body), w) => (.ok (url, body), w)
        | (.ok none, w) => (.error (.resolution (.noRepository domain)), w)

/-- The location that a document describes, which was looked up at the given time. -/
def readLocation (now : Timestamp) (source : Url) (body : String) : Except Fault Location := do
  let d ← readDocument LocationDocument.decode source body
  match source.join d.baseUri with
  | .error flaw => throw (.parse (.baseUri d.baseUri source flaw))
  | .ok base => return {
      base := base.asDirectory
      expires := d.expires.getD (now.plusHours defaultHours) }

/-- What is known about a domain and can still be relied on. -/
def Session.known (s : Session ν) (now : Timestamp) (domain : String) : Option Url :=
  match s.locations.get? domain with
  | some l => if now.before l.expires then some l.base else none
  | none => none

/-- The base of the repository of a domain. -/
def baseUri (domain : String) : Attempt (Session ν) Url := fun s =>
  let (now, s) := s.now network
  match s.known now domain with
  | some base => (.ok base, s)
  | none =>
    match onNetwork (findLocation network r domain) s with
    | (.error f, s) => (.error f, s)
    | (.ok (source, body), s) =>
      match readLocation now source body with
      | .error f => (.error f, s)
      | .ok l => (.ok l.base, { s with locations := s.locations.insert domain l })

end Lookup

end Registry

end PackageManager
