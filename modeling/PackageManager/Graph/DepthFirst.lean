/-!
# Walking a graph depth first

A depth-first walk enters a vertex, walks through each of its successors that has not been entered
yet, and leaves the vertex. An edge to a vertex that has been entered and not left closes a cycle:
the walk notes it. Both the order in which things are built and the cycles among them are read off
one record of the walk, which lists all that happened in the order in which it happened.
-/

namespace PackageManager.DepthFirst

/-- What happens on a walk. -/
inductive Event (α : Type)
  | enter (v : α)
  /-- An edge leads from the vertex that the walk is at to one on the way to it. -/
  | back (v w : α)
  | leave (v : α)
deriving DecidableEq

variable {α : Type}

/-- The vertices of a walk in the order in which they were entered. -/
def entered (walk : List (Event α)) : List α :=
  walk.filterMap fun
    | .enter v => some v
    | _ => none

/-- The vertices of a walk in the order in which they were left. -/
def left (walk : List (Event α)) : List α :=
  walk.filterMap fun
    | .leave v => some v
    | _ => none

@[simp] theorem mem_entered {w : List (Event α)} {v : α} : v ∈ entered w ↔ .enter v ∈ w := by
  simp only [entered, List.mem_filterMap]
  constructor
  · rintro ⟨e, he, h⟩; cases e <;> simp_all
  · exact fun h => ⟨_, h, rfl⟩

@[simp] theorem mem_left {w : List (Event α)} {v : α} : v ∈ left w ↔ .leave v ∈ w := by
  simp only [left, List.mem_filterMap]
  constructor
  · rintro ⟨e, he, h⟩; cases e <;> simp_all
  · exact fun h => ⟨_, h, rfl⟩

variable [DecidableEq α]

/-- Continues a walk with a vertex that has not been entered. A walk through a graph never goes
deeper than the graph has vertices, which is all the `fuel` it needs. -/
def visit (successors : α → List α) : Nat → α → List (Event α) → List (Event α)
  | 0, _, walk => walk
  | fuel + 1, v, walk =>
    (successors v).foldl
      (fun walk w =>
        if .enter w ∉ walk then visit successors fuel w walk
        else if .leave w ∉ walk then walk ++ [.back v w]
        else walk)
      (walk ++ [.enter v])
    ++ [.leave v]

/-- Continues a walk along an edge. -/
def follow (successors : α → List α) (fuel : Nat) (v : α) (walk : List (Event α)) (w : α) :
    List (Event α) :=
  if .enter w ∉ walk then visit successors fuel w walk
  else if .leave w ∉ walk then walk ++ [.back v w]
  else walk

theorem visit_succ (successors : α → List α) (fuel : Nat) (v : α) (walk : List (Event α)) :
    visit successors (fuel + 1) v walk =
      (successors v).foldl (follow successors fuel v) (walk ++ [.enter v]) ++ [.leave v] := rfl

/-- The walk that starts at each of the roots that it has not come by before. -/
def walk (successors : α → List α) (fuel : Nat) (roots : List α) : List (Event α) :=
  roots.foldl (fun walk r => if .enter r ∈ walk then walk else visit successors fuel r walk) []

end PackageManager.DepthFirst
