import PackageManager.Catalog
import PackageManager.DependencySet

/-!
# Selecting package versions

A `Selector` chooses a version for each package that a project needs. The project asks for packages
directly: for the latest version, for a certain one, or for the one in a file. Each version that is
chosen may ask for others in turn. All these requests wait in a queue and are worked off in the
order in which they were made.

Of all versions of a package that are asked for the greatest is pinned, and what a version depends
on is asked for exactly when it becomes the pin. The dependencies are also declared in a
`DependencySet`, whose order is the order in which the selected versions can be installed.

A request leaves the queue before it is worked off, so one that fails is not tried again. What it
had done before it failed stays done.
-/

namespace PackageManager

/-- What is asked for directly. -/
inductive Request
  /-- The greatest version of a package that has not been withdrawn. -/
  | latest (id : PackageId)
  /-- A certain version. -/
  | exactly (specifier : Specifier)
  /-- The package at a path. -/
  | unpacked (path : FilePath)
deriving DecidableEq

/-- A request that has not been worked off, under the token it was given. -/
inductive PendingRequest
  | direct (token : Nat) (request : Request) (shortcut : Option String)
  /-- A selected version depends on another package. -/
  | transitive (token : Nat) (parent dependency : Specifier)
deriving DecidableEq

/-- The token of a request. -/
def PendingRequest.token : PendingRequest → Nat
  | .direct token _ _ => token
  | .transitive token _ _ => token

/-- A version that can be selected: where it is and what it depends on. -/
structure Candidate where
  specifier : Specifier
  url : Url
  dependencies : List Specifier
deriving DecidableEq

/-- What is noted about a version when its dependencies are asked for. -/
structure Expansion where
  /-- The token of the request that has led to it. -/
  token : Nat
  url : Url
deriving DecidableEq

/-- A package version that has been selected. -/
structure Selection where
  /-- The token of the request that it answers. -/
  token : Nat
  specifier : Specifier
  url : Url
  /-- The short name that it was asked for with. -/
  shortcut : Option String := none
deriving DecidableEq

/-- The text of a token. -/
def tokenText (token : Nat) : String := "selection-" ++ Text.decimal token

/-- The text of a selection. -/
def Selection.text (s : Selection) : String :=
  s.specifier.text ++ " from " ++ s.url.text ++
    s.shortcut.elim "" fun name => " as '" ++ name ++ "'"

/-- A choice of package versions in the making. -/
structure Selector where
  dependencies : DependencySet := {}
  /-- The requests that wait, the next one first. -/
  pending : List PendingRequest := []
  /-- The greatest version of each package that has been asked for. -/
  pins : OrderedMap PackageId Version := ∅
  /-- The versions whose dependencies have been asked for. -/
  expanded : OrderedMap Specifier Expansion := ∅
  /-- The tokens of the direct requests that have been worked off. -/
  directTokens : OrderedMap PackageId Nat := ∅
  /-- The short names of packages that were asked for directly. -/
  shortcuts : OrderedMap PackageId String := ∅
  /-- How many tokens have been given out. -/
  issued : Nat := 0

namespace Selector

/-- Asks for a package directly. The answer is the token of the request. -/
def add (s : Selector) (request : Request) (shortcut : Option String := none) : Nat × Selector :=
  let token := s.issued + 1
  (token, { s with pending := s.pending ++ [.direct token request shortcut], issued := token })

/-- The selector in which a version is pinned, unless one at least as great already is. -/
def pin? (s : Selector) (v : Specifier) : Option Selector :=
  if (s.pins.get? v.id).any (v.version ≤ ·) then none
  else some { s with pins := s.pins.insert v.id v.version }

/-- Notes where a version is and asks for what it depends on. -/
def expand (s : Selector) (token : Nat) (c : Candidate) : Selector :=
  { s with
    pending := s.pending ++
      c.dependencies.mapIdx fun i d => .transitive (s.issued + i + 1) c.specifier d
    issued := s.issued + c.dependencies.length
    expanded := s.expanded.insert c.specifier { token, url := c.url } }

/-- Selects a version that was asked for directly. The project may not depend on its package yet.
The answer is the version if it has become the pin. -/
def commit (s : Selector) (token : Nat) (shortcut : Option String) (c : Candidate) :
    Except Fault (Option Candidate) × Selector :=
  let id := c.specifier.id
  match s.dependencies.addDirect { id, requirements := .ofList [.exact c.specifier.version] } with
  | (.error f, dependencies) => (.error f, { s with dependencies })
  | (.ok (), dependencies) =>
    let s := { s with
      dependencies
      shortcuts := shortcut.elim s.shortcuts fun name => s.shortcuts.insert id name
      directTokens := s.directTokens.insert id token }
    match s.pin? c.specifier with
    | some s => (.ok (some c), s)
    | none => (.ok none, s)

/-- Declares that a selected version depends on another package, unless some version of it has
declared that before. -/
def declare (s : Selector) (parent dependency : Specifier) : Except Fault Unit × Selector :=
  if s.dependencies.containsDependency parent.id dependency.id then (.ok (), s)
  else
    let (answer, dependencies) := s.dependencies.add parent.id
      { id := dependency.id, requirements := .ofList [.caret dependency.version] }
    (answer, { s with dependencies })

section Source

variable {σ : Type} (source : PackageSource σ)

/-- Finds a certain version. -/
def findExactly (v : Specifier) : Attempt σ Candidate := fun w =>
  match source.package v w with
  | (.ok r, w) => (.ok { specifier := v, url := r.url, dependencies := r.dependencies.toList }, w)
  | (.error f, w) => (.error f, w)

/-- Finds the version that a direct request is about. -/
def find (request : Request) : Attempt σ Candidate := fun w =>
  match request with
  | .latest id =>
    match source.collection id w with
    | (.ok c, w) =>
      match c.latest with
      | some v => findExactly source ⟨id, v⟩ w
      | none => (.error (.resolution (.noUsableVersion id)), w)
    | (.error f, w) => (.error f, w)
  | .exactly v => findExactly source v w
  | .unpacked p =>
    match source.packageAt p w with
    | (.ok found, w) =>
      (.ok {
        specifier := found.manifest.specifier
        url := found.url
        dependencies := found.manifest.required }, w)
    | (.error f, w) => (.error f, w)

/-- A candidate is a version as the source records it: it is where the record says, and depends on
exactly what the record lists. -/
def Recorded (v : Specifier) (w : σ) (c : Candidate) : Prop :=
  c.specifier = v ∧ ∃ r, (source.package v w).1 = .ok r ∧
    c.url = r.url ∧ c.dependencies = r.dependencies.toList

/-- A candidate is what a request is about. The latest version of a package is looked up in its
collection first, and then as it is recorded. The package at a path is the one that its manifest
names, it is where the path leads, and it depends on exactly what the manifest requires. -/
def Yields (request : Request) (w : σ) (c : Candidate) : Prop :=
  match request with
  | .latest id => ∃ k, (source.collection id w).1 = .ok k ∧ c.specifier.id = id ∧
      k.latest = some c.specifier.version ∧ Recorded source c.specifier (source.collection id w).2 c
  | .exactly v => Recorded source v w c
  | .unpacked p => ∃ found, (source.packageAt p w).1 = .ok found ∧
      c.specifier = found.manifest.specifier ∧ c.url = found.url ∧
      c.dependencies.map (fun d => (d.id, d.version)) = found.manifest.requirements.entries

theorem findExactly_eq_ok_iff {v : Specifier} {w : σ} {c : Candidate} :
    (findExactly source v w).1 = .ok c ↔ Recorded source v w c := by
  unfold findExactly Recorded
  rcases source.package v w with ⟨f | r, w'⟩
  · simp
  · obtain ⟨specifier, url, dependencies⟩ := c
    simp [eq_comm]

/-- What is found for a request is what the source answers about it. -/
theorem find_eq_ok_iff {request : Request} {w : σ} {c : Candidate} :
    (find source request w).1 = .ok c ↔ Yields source request w c := by
  cases request with
  | exactly v => exact findExactly_eq_ok_iff source
  | latest id =>
      unfold find Yields
      dsimp only
      rcases source.collection id w with ⟨f | k, w'⟩
      · simp
      · dsimp only
        cases hLatest : k.latest with
        | none => simp [hLatest]
        | some version =>
            have hSpecifier : Recorded source ⟨id, version⟩ w' c ↔ c.specifier.id = id ∧
                version = c.specifier.version ∧ Recorded source c.specifier w' c := by
              constructor
              · rintro ⟨hSame, hRecord⟩
                rw [hSame]
                exact ⟨rfl, rfl, hSame, hRecord⟩
              · rintro ⟨rfl, rfl, hRecorded⟩
                exact hRecorded
            simpa [hLatest, findExactly_eq_ok_iff] using hSpecifier
  | unpacked p =>
      unfold find Yields
      dsimp only
      rcases source.packageAt p w with ⟨f | found, w'⟩
      · simp
      · obtain ⟨specifier, url, dependencies⟩ := c
        simp only [Except.ok.injEq, Candidate.mk.injEq, exists_eq_left',
          ← PackageManifest.eq_required_iff]
        exact and_congr eq_comm (and_congr eq_comm eq_comm)

/-- Selects the version that a direct request is about. -/
def settleDirect (token : Nat) (request : Request) (shortcut : Option String) (s : Selector) :
    σ → Except Fault (Option Candidate) × Selector × σ := fun w =>
  match find source request w with
  | (.ok c, w) =>
    let (answer, s) := s.commit token shortcut c
    (answer, s, w)
  | (.error f, w) => (.error f, s, w)

/-- Selects a version that a selected version depends on. It is only looked up if it has become the
pin. -/
def settleTransitive (parent dependency : Specifier) (s : Selector) :
    σ → Except Fault (Option Candidate) × Selector × σ := fun w =>
  match s.declare parent dependency with
  | (.error f, s) => (.error f, s, w)
  | (.ok (), s) =>
    match s.pin? dependency with
    | none => (.ok none, s, w)
    | some s =>
      match findExactly source dependency w with
      | (.ok c, w) => (.ok (some c), s, w)
      | (.error f, w) => (.error f, s, w)

/-- Selects the version that a request is about. The answer is the version if its dependencies are
still to be asked for. -/
def settle (p : PendingRequest) (s : Selector) :
    σ → Except Fault (Option Candidate) × Selector × σ :=
  match p with
  | .direct token request shortcut => settleDirect source token request shortcut s
  | .transitive _ parent dependency => settleTransitive source parent dependency s

/-- Works off a request. -/
def process (p : PendingRequest) (s : Selector) : σ → Except Fault Unit × Selector × σ := fun w =>
  match settle source p s w with
  | (.ok (some c), s, w) => (.ok (), s.expand p.token c, w)
  | (.ok none, s, w) => (.ok (), s, w)
  | (.error f, s, w) => (.error f, s, w)

/-- Works off the requests that wait, and those they lead to, up to the first that fails. There is
no answer if more than `fuel` of them have to be worked off. -/
def drain : Nat → Selector → σ → Option (Except Fault Unit × Selector × σ)
  | fuel, s, w =>
    match s.pending with
    | [] => some (.ok (), s, w)
    | p :: rest =>
      match fuel with
      | 0 => none
      | fuel + 1 =>
        match process source p { s with pending := rest } w with
        | (.ok (), s, w) => drain fuel s w
        | (.error f, s, w) => some (.error f, s, w)

end Source

/-- The selected version of a package in the order of the dependencies. -/
def selectionOf (s : Selector) (id : PackageId) : Except Fault Selection :=
  match s.pins.get? id with
  | none => .error (.graph (.unpinned id))
  | some version =>
    let specifier : Specifier := ⟨id, version⟩
    match s.expanded.get? specifier with
    | none => .error (.graph (.withoutUrl specifier))
    | some e => .ok {
        token := (s.directTokens.get? id).getD e.token
        specifier
        url := e.url
        shortcut := s.shortcuts.get? id }

/-- The selected versions, each after those that it depends on. -/
def selections (s : Selector) : Except Fault (List Selection) := do
  (← s.dependencies.resolutionOrder).mapM fun p => s.selectionOf p.id

/-- Works off all requests and lists the selected versions, each after those that it depends on. -/
def order {σ : Type} (source : PackageSource σ) (fuel : Nat) (s : Selector) (w : σ) :
    Option (Except Fault (List Selection) × Selector × σ) :=
  (drain source fuel s w).map fun
    | (.ok (), s, w) => (s.selections, s, w)
    | (.error f, s, w) => (.error f, s, w)

end Selector

end PackageManager
