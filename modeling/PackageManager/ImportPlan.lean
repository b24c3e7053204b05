import PackageManager.BuildGraph
import PackageManager.Selector

/-!
# Resolving imports

The imports of a project are resolved together. An import that requires a package asks for that
version and gives its name to it as a shortcut; an import of a package file has the file fetched
and then asks for the package in it. The result, an `ImportPlan`, lists all packages in the order
in which they can be installed, and says for each import where it leads.
-/

namespace PackageManager

/-- What the imports of a project come to. -/
structure ImportPlan where
  /-- The selected versions, each after those that it depends on. -/
  order : List Selection := []
  /-- Where the imports of required packages lead. -/
  shortcuts : OrderedMap String Url := ∅
  /-- Where the imports of package files lead. -/
  importBases : OrderedMap String Url := ∅

/-- The imports to resolve. -/
structure ImportSolver where
  /-- Has the requests of the imports that require packages. -/
  selector : Selector := {}
  /-- Where the package files are that are imported, by the names of their imports. -/
  packages : OrderedMap String Url := ∅

namespace ImportSolver

/-- Adds an import. Targets need no resolving. -/
def add (s : ImportSolver) (name : String) (i : Import) : Except Fault ImportSolver :=
  match i with
  | .requirement v => .ok { s with selector := (s.selector.add (.exactly v) (some name)).2 }
  | .package url =>
    if url.isOpaque then .error (.config (.opaqueImport name))
    else if s.packages.contains name then .error (.config (.takenImport name))
    else .ok { s with packages := s.packages.insert name url }
  | .target _ => .ok s

/-- Adds imports up to the first that is refused. -/
def addAll (s : ImportSolver) : List (String × Import) → Except Fault Unit × ImportSolver
  | [] => (.ok (), s)
  | (name, i) :: rest =>
    match s.add name i with
    | .ok s => s.addAll rest
    | .error f => (.error f, s)

/-- Adds all imports of a project. -/
def addBuildGraph (s : ImportSolver) (g : BuildGraph) : Except Fault Unit × ImportSolver :=
  s.addAll g.imports.entries

/-- Asks for the packages at the given paths. The list has the name of the import for the token of
each request. -/
def addPaths (s : Selector) : List (String × FilePath) → List (Nat × String) × Selector
  | [] => ([], s)
  | (name, path) :: rest =>
    let (token, s) := s.add (.unpacked path)
    let (names, s) := addPaths s rest
    ((token, name) :: names, s)

/-- Notes where the import leads that a selection answers, if one does. -/
def assign (names : List (Nat × String)) (p : ImportPlan) (s : Selection) :
    Except Fault ImportPlan := do
  let url := s.specifier.toUrl.mapError fun m => Fault.ofValue (.specifier m)
  match s.shortcut with
  | some name => return { p with shortcuts := p.shortcuts.insert name (← url) }
  | none =>
    match names.lookup s.token with
    | some name => return { p with importBases := p.importBases.insert name (← url) }
    | none => return p

/-- The plan in which the given selections answer the imports. -/
def planOf (names : List (Nat × String)) (order : List Selection) : Except Fault ImportPlan :=
  order.foldlM (assign names) { order }

section Solve

variable {σ : Type} (fetch : Url → Attempt σ FilePath)

/-- Fetches all package files, whether some of them fail or not. -/
def fetchAll : List (String × Url) → σ → List (String × Except Fault FilePath) × σ
  | [], w => ([], w)
  | (name, url) :: rest, w =>
    let (answer, w) := fetch url w
    let (answers, w) := fetchAll rest w
    ((name, answer) :: answers, w)

/-- The paths of fetched files, if none of them failed. -/
def pathsOf (answers : List (String × Except Fault FilePath)) :
    Option (List (String × FilePath)) :=
  answers.mapM fun a => a.2.toOption.map fun path => (a.1, path)

/-- Resolves the imports. There is no answer if more than `fuel` requests have to be worked off. -/
def solve (source : PackageSource σ) (fuel : Nat) (s : ImportSolver) (w : σ) :
    Option (Except Fault ImportPlan × σ) :=
  let (answers, w) := fetchAll fetch s.packages.entries w
  match pathsOf answers with
  | none => some (.error (.download .incomplete), w)
  | some paths =>
    let (names, selector) := addPaths s.selector paths
    (selector.order source fuel w).map fun
      | (.ok order, _, w) => (planOf names order, w)
      | (.error f, _, w) => (.error f, w)

end Solve

end ImportSolver

end PackageManager
