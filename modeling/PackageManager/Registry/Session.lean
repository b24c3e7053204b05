import PackageManager.Registry.Client

/-!
# Sessions

While packages are looked up and downloaded, three things can change: the files, what is known
about where repositories are, and whatever the answers of the network depend on. A `Session` holds
all three, and every operation of a registry is an attempt on it.
-/

namespace PackageManager.Registry

/-- Where the repository of a domain is. -/
structure Location where
  base : Url
  /-- When that has to be asked again. -/
  expires : Timestamp
deriving DecidableEq

/-- What may change while packages are looked up and downloaded. -/
structure Session (ν : Type) where
  files : FileStore
  /-- Where the repositories of domains are. -/
  locations : OrderedMap String Location := ∅
  network : ν

variable {ν α : Type}

/-- An attempt on the network alone, as part of a session. -/
def onNetwork (a : Attempt ν α) : Attempt (Session ν) α := fun s =>
  let (answer, n) := a s.network
  (answer, { s with network := n })

/-- The time. -/
def Session.now (network : Network ν) (s : Session ν) : Timestamp × Session ν :=
  let (t, n) := network.clock s.network
  (t, { s with network := n })

end PackageManager.Registry
