import PackageManager.Fault
import PackageManager.Graph.DepthFirst
import PackageManager.Graph.Digraph
import PackageManager.Project.Import
import PackageManager.Project.Target

/-!
# Build graphs

The targets of a project depend on each other, by their names or through imports that stand for
targets. `BuildGraph.create` makes a graph of them, and refuses a project that mentions a target or
an import it does not have. `BuildGraph.buildOrder` lists what has to be built for a target, each
target after those that it depends on as far as cycles allow.
-/

namespace PackageManager

/-- The targets of a project and how they depend on each other, with what it needs from outside. -/
structure BuildGraph where
  targets : TargetStore
  imports : ImportStore
  /-- The dependencies between the targets, by their names. -/
  graph : Digraph String
  /-- The packages that imports require from repositories. -/
  requirements : OrderedSet Specifier
  /-- Where imported packages are. -/
  packageUrls : OrderedSet Url

namespace BuildGraph

/-- The target that an import stands for. -/
def targetOfImport (imports : ImportStore) (name : String) : Option String :=
  match imports.get? name with
  | some (.target t) => some t
  | _ => none

/-- Refuses an import that stands for a target which is not there. -/
def checkImport (targets : TargetStore) (name : String) (i : Import) : Except Fault Unit :=
  match i with
  | .target t =>
    if targets.contains t then .ok () else .error (.config (.importWithoutTarget name t))
  | _ => .ok ()

/-- The targets that a target depends on: those it names and then those it imports. -/
def dependenciesOf (targets : TargetStore) (imports : ImportStore) (name : String) (t : Target) :
    Except Fault (List String) :=
  match t.depends.toList.find? fun d => !targets.contains d with
  | some d => .error (.config (.targetWithoutTarget name d))
  | none =>
    match t.imports.toList.find? fun i => !imports.contains i with
    | some i => .error (.config (.targetWithoutImport name i))
    | none => .ok (t.depends.toList ++ t.imports.toList.filterMap (targetOfImport imports))

/-- The edges from a target. -/
def edgesFrom (targets : TargetStore) (imports : ImportStore) (e : String × Target) :
    Except Fault (List (String × String)) :=
  (dependenciesOf targets imports e.1 e.2).map fun l => l.map fun d => (e.1, d)

/-- The build graph of a project. -/
def create (targets : TargetStore) (imports : ImportStore) : Except Fault BuildGraph := do
  imports.entries.forM fun e => checkImport targets e.1 e.2
  let edges ← targets.entries.mapM (edgesFrom targets imports)
  return {
    targets
    imports
    graph := edges.flatten.foldl Digraph.addEdge { vertices := targets.keys }
    requirements := .ofList <| imports.entries.filterMap fun
      | (_, .requirement s) => some s
      | _ => none
    packageUrls := .ofList <| imports.entries.filterMap fun
      | (_, .package u) => some u
      | _ => none }

/-- The targets that a target depends on, the latest edge first: the order in which builds and
searches for cycles visit them. -/
def dependencies (g : BuildGraph) (name : String) : List String := (g.graph.successors name).reverse

/-- How many targets there are. -/
def size (g : BuildGraph) : Nat := g.graph.vertices.length

/-- Whether there is a target of a name. -/
def hasTarget (g : BuildGraph) (name : String) : Bool := name ∈ g.graph.vertices

/-- What has to be built for a target, the target itself last. -/
def buildOrder (g : BuildGraph) (name : String) : Except Fault (List String) :=
  if g.hasTarget name then
    .ok (DepthFirst.left (DepthFirst.walk g.dependencies g.size [name]))
  else .error (.graph (.unknownTarget name))

end BuildGraph

end PackageManager
