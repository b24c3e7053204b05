import Mathlib.Data.List.Chain
import PackageManager.BuildGraph.Cycles
import PackageManager.Proofs.BuildGraph.Dependencies

/-!
# The cycles that a search records

The search for cycles goes through the whole graph once. A vertex that has been left is never
entered again, and an edge to it records nothing, so not every cycle has a record. But no cycle is
missed: what is recorded is enough to break all of them.

## Why it is enough

Each edge that closes no record leads to a target that was left before its source. The order in
which targets are left therefore runs against all of these edges, and no cycle consists of them
alone.

## Main results

* `record_of_back`, `back_of_record` — the records are those of the noted edges.
* `hasCycles_eq_false_iff` — there is no record iff there is no cycle.
* `closed_walk_closes` — every closed walk uses an edge that closes a record.
-/

namespace PackageManager.BuildGraph

open DepthFirst (Walks Event)

/-- An edge is the last one of a record. -/
def Closes (g : BuildGraph) (u v : String) : Prop := ∃ r ∈ g.cycles, [u, v] <:+ r

/-! ## What a search makes of a walk -/

section Search

variable {successors : String → List String} {roots : List String} {walk : List (Event String)}
  {way : List String}

/-- The path of a search is the way that the walk is on. -/
theorem path_eq (h : Walks successors roots walk way) :
    (walk.foldl CycleSearch.next {}).path = way.reverse := by
  induction h with
  | begin => rfl
  | enter _ _ _ ih => simp [CycleSearch.next, ih]
  | back _ _ _ _ ih => simp [CycleSearch.next, ih]
  | leave _ _ ih => simp [CycleSearch.next, ih]

/-- The records of a search after one more noted edge. -/
theorem mem_cycles_back (h : Walks successors roots walk way) {u v : String} {r : List String} :
    r ∈ ((walk ++ [Event.back u v]).foldl CycleSearch.next {}).cycles ↔
      r = way.reverse ++ [v] ∨ r ∈ (walk.foldl CycleSearch.next {}).cycles := by
  rw [List.foldl_append, ← path_eq h]
  exact OrderedSet.mem_insert

/-- Each noted edge is the last one of a record. -/
theorem record_of_back (h : Walks successors roots walk way) {u v : String}
    (hBack : .back u v ∈ walk) :
    ∃ r ∈ (walk.foldl CycleSearch.next {}).cycles, [u, v] <:+ r := by
  induction h with
  | begin => cases hBack
  | enter _ _ _ ih => simpa [CycleSearch.next] using ih (by simpa using hBack)
  | @back walk way w x hWalk _ _ _ ih =>
      simp only [List.mem_append, List.mem_singleton, Event.back.injEq] at hBack
      rcases hBack with hBack | ⟨rfl, rfl⟩
      · obtain ⟨r, hr, hLast⟩ := ih hBack
        exact ⟨r, (mem_cycles_back hWalk).2 (.inr hr), hLast⟩
      · refine ⟨_, (mem_cycles_back hWalk).2 (.inl rfl), way.reverse, ?_⟩
        simp
  | leave _ _ ih => simpa [CycleSearch.next] using ih (by simpa using hBack)

/-- Each record ends with a noted edge. -/
theorem back_of_record (h : Walks successors roots walk way) {r : List String}
    (hr : r ∈ (walk.foldl CycleSearch.next {}).cycles) : ∃ u v, .back u v ∈ walk := by
  induction h with
  | begin => cases hr
  | enter _ _ _ ih =>
      obtain ⟨u, v, hBack⟩ := ih (by simpa [CycleSearch.next] using hr)
      exact ⟨u, v, by simp [hBack]⟩
  | @back walk way w x hWalk _ _ _ ih => exact ⟨w, x, by simp⟩
  | leave _ _ ih =>
      obtain ⟨u, v, hBack⟩ := ih (by simpa [CycleSearch.next] using hr)
      exact ⟨u, v, by simp [hBack]⟩

end Search

/-! ## The search through a whole graph -/

variable {targets : TargetStore} {imports : ImportStore} {g : BuildGraph}

theorem hasCycles_eq_false : g.hasCycles = false ↔ ∀ r, r ∉ g.cycles := by
  rw [hasCycles, Bool.not_eq_false', OrderedSet.isEmpty, List.isEmpty_iff,
    List.eq_nil_iff_forall_not_mem]
  rfl

/-- The search enters and leaves every target. -/
theorem wholeWalk_walks (hCreate : create targets imports = .ok g) :
    Walks g.dependencies g.graph.vertices.reverse g.wholeWalk [] ∧
      ∀ v ∈ g.graph.vertices, .enter v ∈ g.wholeWalk := by
  obtain ⟨hWalk, hEntered⟩ := walks_of_create hCreate fun r hr => List.mem_reverse.1 hr
  exact ⟨hWalk, fun v hv => hEntered v (List.mem_reverse.2 hv)⟩

section Created

variable (hCreate : create targets imports = .ok g)

include hCreate

/-- An edge that closes no record leads to a target that is left before its source. -/
theorem precedes_of_not_closes {u v : String} (hEdge : g.graph.Edge u v) (hOpen : ¬g.Closes u v) :
    Precedes (DepthFirst.left g.wholeWalk) v u := by
  obtain ⟨hWalk, hEntered⟩ := wholeWalk_walks hCreate
  have hLeft : .leave u ∈ g.wholeWalk :=
    hWalk.leave_iff.2 (hEntered u (closed_graph hCreate u v hEdge).1)
  rcases hWalk.settled hLeft (leads_iff.2 hEdge) with hBack | hBefore
  · exact absurd (record_of_back hWalk hBack) hOpen
  · exact hBefore

/-- Without the edges that close records there is no cycle. -/
theorem acyclic_without_closing (v : String) :
    ¬Relation.TransGen (fun a b => g.graph.Edge a b ∧ ¬g.Closes a b) v v := by
  obtain ⟨hWalk, -⟩ := wholeWalk_walks hCreate
  refine not_transGen_self_of_precedes (List.nodup_reverse.2 hWalk.nodup_left) (fun a b h => ?_) v
  exact (precedes_of_not_closes hCreate h.1 h.2).reverse

/-- There is no record iff there is no cycle. -/
theorem hasCycles_eq_false_iff : g.hasCycles = false ↔ ∀ v, ¬g.graph.OnCycle v := by
  obtain ⟨hWalk, -⟩ := wholeWalk_walks hCreate
  rw [hasCycles_eq_false]
  constructor
  · intro hNone v hCycle
    have hOpen : ∀ a b, g.graph.Edge a b → g.graph.Edge a b ∧ ¬g.Closes a b :=
      fun a b hEdge => ⟨hEdge, fun ⟨r, hr, _⟩ => hNone r hr⟩
    exact acyclic_without_closing hCreate v (Relation.TransGen.mono hOpen v v hCycle)
  · intro hAcyclic r hr
    obtain ⟨u, v, hBack⟩ := back_of_record hWalk hr
    obtain ⟨hEdge, hReaches, -⟩ := hWalk.back_reaches hBack
    rw [reaches_eq] at hReaches
    exact hAcyclic u (.head' (leads_iff.1 hEdge) hReaches)

/-- A closed walk uses an edge that closes a record. -/
theorem exists_closes {walk : List String} (hLength : 2 ≤ walk.length)
    (hChain : walk.IsChain g.graph.Edge) (hClosed : walk.head? = walk.getLast?) :
    ∃ u v, [u, v] <:+: walk ∧ g.Closes u v := by
  by_contra hNone
  -- then the whole walk consists of edges that close no record
  have hOpen : walk.IsChain fun a b => g.graph.Edge a b ∧ ¬g.Closes a b := by
    refine List.isChain_iff_forall_rel_of_append_cons_cons.2 fun a b l₁ l₂ hSplit => ⟨?_, ?_⟩
    · exact List.isChain_iff_forall_rel_of_append_cons_cons.1 hChain hSplit
    · exact fun hCloses => hNone ⟨a, b, ⟨l₁, l₂, by simp [hSplit]⟩, hCloses⟩
  match walk, hLength with
  | a :: b :: rest, _ =>
      obtain ⟨hFirst, hRest⟩ := List.isChain_cons_cons.1 hOpen
      have hBack : (b :: rest).getLast (List.cons_ne_nil b rest) = a := by
        simpa [List.getLast?_eq_getLast_of_ne_nil] using hClosed.symm
      exact acyclic_without_closing hCreate a
        (.head' hFirst (List.relationReflTransGen_of_exists_isChain_cons rest hRest hBack))

/-- Whatever build graph is searched, every closed walk in it uses an edge with which a record ends.
So no cycle is left without these edges, and there is no record iff there is no cycle at all. -/
theorem closed_walk_closes :
    (∀ walk : List String, 2 ≤ walk.length → walk.IsChain g.graph.Edge →
      walk.head? = walk.getLast? → ∃ u v, [u, v] <:+: walk ∧ ∃ r ∈ g.cycles, [u, v] <:+ r) ∧
    (∀ v, ¬Relation.TransGen
      (fun a b => g.graph.Edge a b ∧ ¬∃ r ∈ g.cycles, [a, b] <:+ r) v v) ∧
    (g.hasCycles = false ↔ ∀ v, ¬g.graph.OnCycle v) := by
  exact ⟨fun _ hLength hChain hClosed => exists_closes hCreate hLength hChain hClosed,
    acyclic_without_closing hCreate, hasCycles_eq_false_iff hCreate⟩

end Created

theorem closed_walk_closes_import : ∃ g, create loopTargets loopImports = .ok g ∧
    g.cycles.toList = [["lib", "app", "lib"]] ∧
    ∃ u v, [u, v] <:+: ["app", "lib", "app"] ∧ ∃ r ∈ g.cycles, [u, v] <:+ r := by
  have hCreated : (create loopTargets loopImports).map (fun g => (g.graph.edges, g.cycles.toList)) =
      .ok ([("app", "lib"), ("lib", "base"), ("lib", "app")], [["lib", "app", "lib"]]) := by
    decide +kernel
  obtain ⟨g, hCreate, hParts⟩ := ok_of_map hCreated
  obtain ⟨hEdges, hRecords⟩ := Prod.mk.inj hParts
  obtain ⟨hWalks, -, -⟩ := closed_walk_closes hCreate
  refine ⟨g, hCreate, hRecords, hWalks ["app", "lib", "app"] (by decide) ?_ rfl⟩
  simp [Digraph.Edge, hEdges]

end PackageManager.BuildGraph
