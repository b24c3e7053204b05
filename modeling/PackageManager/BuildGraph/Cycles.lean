import PackageManager.BuildGraph

/-!
# Cycles among targets

Targets that depend on themselves through others cannot be built before each other. A depth-first
walk through a build graph comes by each of its cycles on an edge back to a target on the way; the
way there, with the target that the edge leads back to, is the record of the cycle.
-/

namespace PackageManager.BuildGraph

/-- A walk so far: the targets on the way to where it is, and the cycles it has come by. -/
structure CycleSearch where
  path : List String := []
  cycles : OrderedSet (List String) := ∅

/-- The search after one more event of the walk. -/
def CycleSearch.next (s : CycleSearch) : DepthFirst.Event String → CycleSearch
  | .enter v => { s with path := s.path ++ [v] }
  | .back _ w => { s with cycles := s.cycles.insert (s.path ++ [w]) }
  | .leave _ => { s with path := s.path.dropLast }

/-- The walk through all targets, which starts at the last of them. -/
def wholeWalk (g : BuildGraph) : List (DepthFirst.Event String) :=
  DepthFirst.walk g.dependencies g.size g.graph.vertices.reverse

/-- The records of all cycles that the walk through all targets comes by. -/
def cycles (g : BuildGraph) : OrderedSet (List String) :=
  (g.wholeWalk.foldl CycleSearch.next {}).cycles

/-- Whether there is a cycle. -/
def hasCycles (g : BuildGraph) : Bool := !g.cycles.isEmpty

end PackageManager.BuildGraph
