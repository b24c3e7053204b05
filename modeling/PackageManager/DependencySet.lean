import PackageManager.Fault
import PackageManager.Graph.TopologicalOrder
import PackageManager.Interval.SplitMap
import PackageManager.Package.Dependency

/-!
# Sets of dependencies

A `DependencySet` records which package depends on which, and on which versions of it. At its root
is the project that everything is needed for; the project may have a package id of its own and then
be depended on like a package. No package declares the same dependency twice, and none declares
anything before it is itself in the set.

The packages are the vertices of a graph and go by numbers in it, the root by the first. An index
leads from package ids to numbers. Each vertex keeps the versions that are asked for of it, tagged
with the numbers of those who ask.

A declaration may be refused, but a vertex for what it is about is made before that is known. What
a refused declaration leaves behind is therefore an answer of its own.
-/

namespace PackageManager

/-- A package in a dependency set, or the project at its root. -/
structure DependencySet.Vertex where
  /-- The id of the package, which the project at the root may lack. -/
  id : Option PackageId := none
  /-- The versions that are asked for, tagged with the vertices that ask for them. -/
  demand : SplitMap Nat := ∅
deriving DecidableEq

/-- The dependencies of a project. -/
structure DependencySet where
  /-- The vertices in the order of their numbers. The first is the root. -/
  vertices : List DependencySet.Vertex := [{}]
  /-- The edges from dependents to dependencies, in the order in which they were declared. -/
  edges : List (Nat × Nat) := []
  /-- The numbers of the vertices that have ids. -/
  index : OrderedMap PackageId Nat := ∅
deriving DecidableEq

/-- A package, and the versions of it that suit all that depend on it. -/
structure ResolvedPackage where
  id : PackageId
  intervals : List Interval
deriving DecidableEq

/-- The text of a resolved package. -/
def ResolvedPackage.text (p : ResolvedPackage) : String :=
  p.id.text ++ " [" ++ ", ".intercalate (p.intervals.map Interval.text) ++ "]"

namespace DependencySet

/-- The number of the root. -/
def root : Nat := 0

/-- The set without dependencies of a project with the given id. -/
def ofRoot : Option PackageId → DependencySet
  | none => {}
  | some id => { vertices := [{ id }], index := OrderedMap.empty.insert id root }

/-- The graph of the set. -/
def graph (s : DependencySet) : Digraph Nat where
  vertices := List.range s.vertices.length
  edges := s.edges

/-- What a vertex is called by its id. Only the root may have none. -/
def idOf (s : DependencySet) (v : Nat) : Option PackageId := s.vertices[v]?.bind (·.id)

/-- Whether a package is in the set. -/
def contains (s : DependencySet) (id : PackageId) : Bool := s.index.contains id

/-- Whether a dependency of one package on another is declared. -/
def containsDependency (s : DependencySet) (dependent dependency : PackageId) : Bool :=
  match s.index.get? dependent, s.index.get? dependency with
  | some u, some v => (u, v) ∈ s.edges
  | _, _ => false

/-- Whether a dependency of the project itself is declared. -/
def containsDirect (s : DependencySet) (dependency : PackageId) : Bool :=
  (s.index.get? dependency).any fun v => (root, v) ∈ s.edges

/-- How many packages the set has beside its root. -/
def size (s : DependencySet) : Nat := s.vertices.length - 1

/-- Whether the set has no package beside its root. -/
def isEmpty (s : DependencySet) : Bool := s.size = 0

/-- The vertex of a package, which is made if there is none. -/
def vertexOf (s : DependencySet) (id : PackageId) : Nat × DependencySet :=
  match s.index.get? id with
  | some v => (v, s)
  | none =>
    let v := s.vertices.length
    (v, { s with vertices := s.vertices ++ [{ id }], index := s.index.insert id v })

/-- Notes that a vertex asks for the versions of another that lie in an interval. -/
def ask (s : DependencySet) (dependent dependency : Nat) (i : Interval) : DependencySet :=
  { s with
    vertices := s.vertices.modify dependency fun v =>
      { v with demand := v.demand.insert i dependent } }

/-- Declares a dependency of a vertex. -/
def declare (s : DependencySet) (dependent : Nat) (d : Dependency) :
    Except Fault Unit × DependencySet :=
  let (v, s) := s.vertexOf d.id
  if (dependent, v) ∈ s.edges then
    (.error (.graph (.alreadyDeclared d.id (s.idOf dependent))), s)
  else
    let s := { s with edges := s.edges ++ [(dependent, v)] }
    (.ok (), d.intervals.foldl (fun s i => s.ask dependent v i) s)

/-- Declares a dependency of the project itself. -/
def addDirect (s : DependencySet) (d : Dependency) : Except Fault Unit × DependencySet :=
  s.declare root d

/-- Declares a dependency of a package, which must be in the set. -/
def add (s : DependencySet) (dependent : PackageId) (d : Dependency) :
    Except Fault Unit × DependencySet :=
  match s.index.get? dependent with
  | some u => s.declare u d
  | none => (.error (.graph (.missingDependent dependent)), s)

/-- A package with the versions of it that suit all vertices which depend on it. The root, and what
has no id, is passed over. -/
def resolved (s : DependencySet) (v : Nat) : Option ResolvedPackage :=
  if v = root then none
  else do
    let vertex ← s.vertices[v]?
    let id ← vertex.id
    return { id, intervals := vertex.demand.joined (s.graph.predecessors v).length }

/-- The packages of the set, each after its dependencies, with the versions of each that suit all
that depend on it. -/
def resolutionOrder (s : DependencySet) : Except Fault (List ResolvedPackage) :=
  match s.graph.topologicalOrder with
  | .error v => .error (.graph (.dependencyCycle (s.idOf v)))
  | .ok order => .ok (order.reverse.filterMap s.resolved)

end DependencySet

end PackageManager
