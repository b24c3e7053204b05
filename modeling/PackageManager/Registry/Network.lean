import PackageManager.Catalog

/-!
# Networks

Repositories are reached over a network, and downloads come from it. A `Network` answers one
request at a time and knows what time it is; its answers may depend on a state and change it, so
nothing can be taken for granted about two requests for the same URL.
-/

namespace PackageManager.Registry

/-- What arrives of the body of a response. -/
inductive Body
  | complete (octets : ByteArray)
  /-- The connection broke off before the end. -/
  | cut

/-- A response of a server. -/
structure Response where
  status : Nat
  body : Body

/-- What becomes of a request. -/
inductive Reply
  | response (r : Response)
  /-- No connection came about, or it took too long; another attempt may succeed. -/
  | unreachable (reason : String)
  /-- There is no point in another attempt. -/
  | failed (reason : String)

/-- What answers requests, with a state of type `ν`. -/
structure Network (ν : Type) where
  request : Url → ν → Reply × ν
  clock : ν → Timestamp × ν

/-- The characters that a host may have in a URL, but not where a request is sent. -/
def barredFromRequest (c : Char) : Bool := ['"', '\x60', '\x7b', '\x7d'].contains c

/-- The most octets that a URL may have for a request to be sent to it. -/
def longestRequest : Nat := 65534

/-- Whether a request can be sent to a URL at all. -/
def isRequestable (u : Url) : Bool :=
  (u.scheme = "http" || u.scheme = "https") && !u.hostText.toList.any barredFromRequest &&
    u.chars.length ≤ longestRequest

/-- The network without any server. A request that cannot be sent to its URL is not even
attempted. -/
def Network.offline (ν : Type) (now : Timestamp) : Network ν where
  request u w :=
    let u := u.withoutLogin
    let target := " for url (" ++ u.text ++ ")"
    if isRequestable u then (.unreachable ("error sending request" ++ target), w)
    else (.failed ("builder error" ++ target), w)
  clock w := (now, w)

end PackageManager.Registry
