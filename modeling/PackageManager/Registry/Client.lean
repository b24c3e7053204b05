import PackageManager.Registry.Network
import PackageManager.Registry.Status

/-!
# Requests that are tried again

A server that cannot be reached, or that says it failed, may answer the next time. `request` tries
a bounded number of times, and takes the first answer for which trying again would be no use.
-/

namespace PackageManager.Registry

variable {ν : Type} (network : Network ν)

/-- Tries a request as often as is left of `total` attempts, where `last` is what became of the
attempt before. -/
def attempts (total : Nat) (url : Url) : Nat → String → Attempt ν Response
  | 0, last, w => (.error (.network (.exhausted total url last)), w)
  | left + 1, _, w =>
    match network.request url w with
    | (.response r, w) =>
      if isServerFailure r.status then
        attempts total url left ("HTTP " ++ statusText r.status ++ " from " ++ url.text) w
      else (.ok r, w)
    | (.unreachable reason, w) => attempts total url left reason w
    | (.failed reason, w) => (.error (.network (.refused url reason)), w)

/-- The response to a request, which is tried as often as asked and at least once. -/
def request (retries : Nat) (url : Url) : Attempt ν Response :=
  attempts network (max 1 retries) url (max 1 retries) ""

/-- The text of a body. -/
def Body.text (url : Url) : Body → Except Fault String
  | .complete octets => .ok (Text.decodeLossy octets.toList)
  | .cut => .error (.network (.brokenText url "error decoding response body"))

/-- The text at a URL. -/
def requestText (retries : Nat) (url : Url) : Attempt ν String := fun w =>
  match request network retries url w with
  | (.ok r, w) =>
    if 400 ≤ r.status then
      (.error (.network (.unexpectedStatus (statusText r.status) url)), w)
    else (r.body.text url, w)
  | (.error f, w) => (.error f, w)

end PackageManager.Registry
