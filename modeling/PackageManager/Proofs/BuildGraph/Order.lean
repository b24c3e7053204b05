import PackageManager.Proofs.BuildGraph.Cycles

/-!
# Orders in which targets are built

What has to be built for a target are all targets that it depends on, through others or not, and
they are built in the order in which a depth-first walk leaves them. On a cycle no order is right,
but a cycle only spoils the order of the targets on it.

## Why cycles do no more harm

When a walk leaves a target, each target that this one depends on has been left before or is still
on the way. From a target on the way a path leads to where the walk is, so the dependency is part of
a cycle.

## Main results

* `buildOrder_dependencies_first` — an order lists exactly what a target needs, and each target
  after those that it depends on, apart from those that depend on it in turn.
-/

namespace PackageManager

/-- A walk from one vertex leaves that vertex last. -/
theorem DepthFirst.getLast?_left_walk {α : Type} [DecidableEq α] (successors : α → List α)
    (fuel : Nat) (r : α) :
    (DepthFirst.left (DepthFirst.walk successors (fuel + 1) [r])).getLast? = some r := by
  have hWalk : DepthFirst.walk successors (fuel + 1) [r] = visit successors (fuel + 1) r [] := rfl
  rw [hWalk, visit_succ, left_append]
  exact List.getLast?_concat

namespace BuildGraph

variable {targets : TargetStore} {imports : ImportStore} {g : BuildGraph} {name : String}
  {order : List String}

theorem buildOrder_eq_ok (hOrder : g.buildOrder name = .ok order) :
    name ∈ g.graph.vertices ∧
      order = DepthFirst.left (DepthFirst.walk g.dependencies g.size [name]) := by
  unfold buildOrder at hOrder
  split at hOrder
  · next hTarget => exact ⟨of_decide_eq_true hTarget, (Except.ok.inj hOrder).symm⟩
  · cases hOrder

/-- A target is built last of all that it needs. -/
theorem getLast?_buildOrder (hOrder : g.buildOrder name = .ok order) :
    order.getLast? = some name := by
  obtain ⟨hTarget, rfl⟩ := buildOrder_eq_ok hOrder
  obtain ⟨fuel, hFuel⟩ := Nat.exists_eq_add_one.2 (List.length_pos_of_mem hTarget)
  have hSize : g.size = fuel + 1 := hFuel
  rw [hSize]
  exact DepthFirst.getLast?_left_walk g.dependencies fuel name

section Created

variable (hCreate : create targets imports = .ok g)

include hCreate

/-- There is an order for every target, and for nothing else. -/
theorem buildOrder_fails_iff : (∃ f, g.buildOrder name = .error f) ↔ ¬targets.contains name := by
  rw [← mem_vertices_iff hCreate]
  by_cases hTarget : name ∈ g.graph.vertices
  · simp [buildOrder, hasTarget, hTarget]
  · simp [buildOrder, hasTarget, hTarget]

section Ordered

variable (hOrder : g.buildOrder name = .ok order)

include hOrder

/-- The walk that an order is read off. -/
theorem walks_of_buildOrder : ∃ walk, order = DepthFirst.left walk ∧
    DepthFirst.Walks g.dependencies [name] walk [] ∧ .enter name ∈ walk := by
  obtain ⟨hTarget, hLeft⟩ := buildOrder_eq_ok hOrder
  have hRoots : ∀ r ∈ [name], r ∈ g.graph.vertices := by simpa using hTarget
  obtain ⟨hWalk, hEntered⟩ := walks_of_create hCreate hRoots
  exact ⟨_, hLeft, hWalk, hEntered name List.mem_cons_self⟩

theorem nodup_buildOrder : order.Nodup := by
  obtain ⟨walk, rfl, hWalk, -⟩ := walks_of_buildOrder hCreate hOrder
  exact hWalk.nodup_left

/-- What is built for a target is what can be reached from it. -/
theorem mem_buildOrder_iff {v : String} : v ∈ order ↔ g.graph.Reaches name v := by
  obtain ⟨walk, rfl, hWalk, hEntered⟩ := walks_of_buildOrder hCreate hOrder
  rw [DepthFirst.mem_left, hWalk.leave_iff, hWalk.enter_iff (by simpa using hEntered), reaches_eq]
  simp

/-- A dependency is built first, unless it depends on the target in turn. -/
theorem precedes_buildOrder {u v : String} (hu : u ∈ order) (hEdge : g.graph.Edge u v)
    (hBack : ¬g.graph.Reaches v u) : Precedes order v u := by
  obtain ⟨walk, rfl, hWalk, -⟩ := walks_of_buildOrder hCreate hOrder
  rcases hWalk.settled (DepthFirst.mem_left.1 hu) (leads_iff.2 hEdge) with hNoted | hBefore
  · obtain ⟨-, hReaches, -⟩ := hWalk.back_reaches hNoted
    rw [reaches_eq] at hReaches
    exact absurd hReaches hBack
  · exact hBefore

end Ordered

/-- The order for a target fails iff there is no such target. It ends with the target and lists each
target that it needs once: itself and all that it depends on, through others or not. A target stands
behind whatever it depends on, unless that depends on it in turn, and if no cycle is recorded it
does in any case. -/
theorem buildOrder_dependencies_first (name : String) :
    ((∃ f, g.buildOrder name = .error f) ↔ ¬targets.contains name) ∧
    ∀ order, g.buildOrder name = .ok order →
      order.Nodup ∧
      (∀ v, v ∈ order ↔
        targets.contains v ∧ Relation.ReflTransGen (DependsOn targets imports) name v) ∧
      order.getLast? = some name ∧
      (∀ u v, DependsOn targets imports u v → u ∈ order → v ∈ order →
        ¬Relation.ReflTransGen (DependsOn targets imports) v u → Precedes order v u) ∧
      (g.hasCycles = false →
        ∀ u ∈ order, ∀ v, DependsOn targets imports u v → Precedes order v u) := by
  have hEdges : g.graph.Edge = DependsOn targets imports :=
    funext fun _ => funext fun _ => propext (edge_iff hCreate)
  rw [← hEdges]
  refine ⟨buildOrder_fails_iff hCreate, fun order hOrder => ⟨nodup_buildOrder hCreate hOrder,
    fun v => ?_, getLast?_buildOrder hOrder, fun u v hEdge hu _ hBack =>
    precedes_buildOrder hCreate hOrder hu hEdge hBack, fun hNone u hu v hEdge => ?_⟩⟩
  · rw [mem_buildOrder_iff hCreate hOrder]
    refine ⟨fun hReaches => ⟨?_, hReaches⟩, And.right⟩
    cases hReaches with
    | refl => exact (mem_vertices_iff hCreate).1 (buildOrder_eq_ok hOrder).1
    | tail _ hLast => exact (mem_vertices_iff hCreate).1 (closed_graph hCreate _ v hLast).2
  · refine precedes_buildOrder hCreate hOrder hu hEdge fun hBack => ?_
    exact (hasCycles_eq_false_iff hCreate).1 hNone u (.head' hEdge hBack)

end Created

theorem buildOrder_dependencies_first_loop : ∃ g, create loopTargets loopImports = .ok g ∧
    g.buildOrder "app" = .ok ["base", "lib", "app"] ∧
    Precedes ["base", "lib", "app"] "base" "lib" ∧ (∃ f, g.buildOrder "main" = .error f) := by
  have hCreated : (create loopTargets loopImports).map
      (fun g => (g.graph.edges, g.buildOrder "app")) =
      .ok ([("app", "lib"), ("lib", "base"), ("lib", "app")], .ok ["base", "lib", "app"]) := by
    decide +kernel
  obtain ⟨g, hCreate, hParts⟩ := ok_of_map hCreated
  obtain ⟨hEdges, hOrder⟩ := Prod.mk.inj hParts
  have hDepends : ∀ u v, DependsOn loopTargets loopImports u v ↔
      (u, v) ∈ [("app", "lib"), ("lib", "base"), ("lib", "app")] :=
    fun u v => hEdges ▸ (edge_iff hCreate).symm
  obtain ⟨hFails, -⟩ := buildOrder_dependencies_first hCreate "main"
  obtain ⟨-, hListed⟩ := buildOrder_dependencies_first hCreate "app"
  obtain ⟨-, -, -, hBefore, -⟩ := hListed _ hOrder
  refine ⟨g, hCreate, hOrder, hBefore "lib" "base" ((hDepends _ _).2 (by decide)) (by decide)
    (by decide) fun hBack => ?_, hFails.2 (by decide +kernel)⟩
  rcases hBack.cases_head with hSame | ⟨v, hFirst, -⟩
  · exact absurd hSame (by decide)
  · have hNone := (hDepends _ _).1 hFirst
    simp at hNone

end BuildGraph

end PackageManager
