import PackageManager.Graph.Digraph

/-!
# Topological orders

The vertices of a graph without cycles can be listed so that each edge leads forward.
`Digraph.topologicalOrder` finds such a list in two passes, or names a vertex on a cycle.

The first pass searches the graph depth first, with a stack of its own. A vertex stays on the stack
while the vertices above it are worked off, and is finished when it comes to the top again. It may
stand on the stack several times, as it is pushed once for each predecessor that is discovered
before it is. The finished vertices, the latest first, are the candidate.

The second pass checks the candidate. It searches the graph against its edges from each vertex in
turn, and never enters a vertex twice: if it meets a second vertex on the way, an edge leads from
that one backward in the list, which only a cycle can bring about.
-/

namespace PackageManager.Digraph

variable {α : Type} [DecidableEq α]

/-! ## The first pass -/

/-- How far a depth-first search has come. -/
structure Search (α : Type) where
  /-- The vertices that are still to be looked at, the next one first. -/
  stack : List α := []
  /-- The vertices that have been entered. -/
  discovered : List α := []
  /-- The vertices that have been left, the latest first. -/
  finished : List α := []
deriving DecidableEq

/-- Whether a vertex has not been discovered. -/
def Search.fresh (s : Search α) (v : α) : Bool := v ∉ s.discovered

@[simp] theorem Search.fresh_iff {s : Search α} {v : α} : s.fresh v = true ↔ v ∉ s.discovered := by
  simp [fresh]

namespace Search

/-- Enters the vertex at the top of the stack: pushes those of its successors that have not been
discovered. It stays on the stack itself. -/
def enter (g : Digraph α) (s : Search α) (v : α) : Search α :=
  { s with
    stack := (g.successors v).filter (· ∉ v :: s.discovered) ++ s.stack
    discovered := v :: s.discovered }

/-- Takes the vertex at the top of the stack away, and notes it as finished if that is new. -/
def leave (s : Search α) (v : α) (rest : List α) : Search α :=
  { s with stack := rest, finished := if v ∈ s.finished then s.finished else v :: s.finished }

/-- A bound on the work that is left. An edge pushes a vertex only when its source is entered; what
is on the stack is taken away once, and may be entered before. -/
def work (g : Digraph α) (s : Search α) : Nat :=
  2 * (g.edges.map (·.1)).countP s.fresh + (s.stack.length + s.stack.countP s.fresh)

theorem length_successors (g : Digraph α) (v : α) :
    (g.successors v).length = (g.edges.map (·.1)).count v := by
  rw [successors, List.length_map, List.count, List.countP_map, List.countP_eq_length_filter]
  rfl

/-- Entering a vertex makes it the only one that is no longer fresh. -/
theorem countP_fresh_enter (g : Digraph α) {s : Search α} {v : α} (hv : v ∉ s.discovered)
    (l : List α) : l.countP (s.enter g v).fresh + l.count v = l.countP s.fresh := by
  induction l with
  | nil => rfl
  | cons w l ih =>
      rw [List.countP_cons, List.countP_cons, List.count_cons]
      by_cases hw : w = v
      · simp [fresh, enter, hw, hv] at ih ⊢
        omega
      · simp [fresh, enter, hw] at ih ⊢
        omega

theorem work_leave (g : Digraph α) {s : Search α} {v : α} {rest : List α}
    (hStack : s.stack = v :: rest) : (s.leave v rest).work g < s.work g := by
  have hFresh : (s.leave v rest).fresh = s.fresh := rfl
  unfold work
  rw [hFresh, hStack, List.length_cons, List.countP_cons]
  simp only [leave]
  omega

theorem work_enter (g : Digraph α) {s : Search α} {v : α} {rest : List α}
    (hStack : s.stack = v :: rest) (hv : v ∉ s.discovered) : (s.enter g v).work g < s.work g := by
  have hEdges := countP_fresh_enter g hv (g.edges.map (·.1))
  have hOld := countP_fresh_enter g hv s.stack
  have hTop : 0 < s.stack.count v := List.count_pos_iff.2 (by simp [hStack])
  have hPushed := List.length_filter_le (· ∉ v :: s.discovered) (g.successors v)
  have hNew := List.countP_le_length (p := (s.enter g v).fresh)
    (l := (g.successors v).filter (· ∉ v :: s.discovered))
  rw [← length_successors] at hEdges
  have hStack' : (s.enter g v).stack =
    (g.successors v).filter (· ∉ v :: s.discovered) ++ s.stack := rfl
  unfold work
  rw [hStack', List.length_append, List.countP_append]
  omega

end Search

/-- Works off the stack of a search, or finds a vertex that is its own successor. -/
def explore (g : Digraph α) (s : Search α) : Except α (Search α) :=
  match _hStack : s.stack with
  | [] => .ok s
  | v :: rest =>
    if v ∈ s.discovered then g.explore (s.leave v rest)
    else if v ∈ g.successors v then .error v
    else g.explore (s.enter g v)
termination_by s.work g
decreasing_by
  · exact s.work_leave g _hStack
  · exact s.work_enter g _hStack ‹_›

/-- Searches the graph from a vertex, unless that has been discovered. -/
def exploreFrom (g : Digraph α) (s : Search α) (v : α) : Except α (Search α) :=
  if v ∈ s.discovered then .ok s else g.explore { s with stack := v :: s.stack }

/-! ## The second pass -/

/-- Goes on with a search against the edges, from a stack past the vertices it has come by. The
answer is the next vertex, with the stack and the vertices that the search has come by then. -/
def nextBackward (g : Digraph α) : List α → List α → Option (α × List α × List α)
  | [], _ => none
  | v :: stack, seen =>
    if v ∈ seen then g.nextBackward stack seen
    else some (v, (g.predecessors v).filter (· ∉ v :: seen) ++ stack, v :: seen)

/-- The first vertex that a search against the edges meets behind one of the given vertices. -/
def secondBackward (g : Digraph α) (seen : List α) : List α → Option α
  | [] => none
  | v :: rest =>
    match g.nextBackward [v] seen with
    | none => g.secondBackward seen rest
    | some (_, stack, seen) =>
      match g.nextBackward stack seen with
      | some (u, _, _) => some u
      | none => g.secondBackward seen rest

/-- The vertices in an order in which all edges lead forward, or a vertex on a cycle. -/
def topologicalOrder (g : Digraph α) : Except α (List α) := do
  let search ← g.vertices.foldlM g.exploreFrom {}
  match g.secondBackward [] search.finished with
  | some v => .error v
  | none => .ok search.finished

end PackageManager.Digraph
