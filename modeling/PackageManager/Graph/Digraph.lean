/-!
# Directed graphs

Dependencies between packages and between targets form directed graphs. The answers of the library
follow the order in which a graph was built, so a graph keeps its vertices and its edges in that
order, and the neighbours of a vertex are listed in it.
-/

namespace PackageManager

/-- A directed graph, with its vertices and edges in the order in which they were added. -/
structure Digraph (α : Type) where
  vertices : List α := []
  edges : List (α × α) := []
deriving DecidableEq

namespace Digraph

variable {α : Type} [DecidableEq α]

/-- Where the edges from a vertex lead, in the order of the edges. -/
def successors (g : Digraph α) (v : α) : List α := (g.edges.filter (·.1 = v)).map (·.2)

/-- Where the edges to a vertex come from, in the order of the edges. -/
def predecessors (g : Digraph α) (v : α) : List α := (g.edges.filter (·.2 = v)).map (·.1)

/-- The graph with an edge, which is not added again if it is there. -/
def addEdge (g : Digraph α) (e : α × α) : Digraph α :=
  if e ∈ g.edges then g else { g with edges := g.edges ++ [e] }

@[simp] theorem mem_successors {g : Digraph α} {v w : α} :
    w ∈ g.successors v ↔ (v, w) ∈ g.edges := by
  simp [successors]

@[simp] theorem mem_predecessors {g : Digraph α} {v w : α} :
    v ∈ g.predecessors w ↔ (v, w) ∈ g.edges := by
  simp [predecessors]

@[simp] theorem mem_edges_addEdge {g : Digraph α} {e f : α × α} :
    f ∈ (g.addEdge e).edges ↔ f = e ∨ f ∈ g.edges := by
  unfold addEdge
  split
  · exact ⟨.inr, fun h => h.elim (fun h => h ▸ ‹_›) id⟩
  · simp [or_comm]

@[simp] theorem vertices_addEdge (g : Digraph α) (e : α × α) :
    (g.addEdge e).vertices = g.vertices := by
  unfold addEdge; split <;> rfl

end Digraph

end PackageManager
