import PackageManager.BuildGraph
import PackageManager.Proofs.Graph.TopologicalOrder
import PackageManager.Proofs.Graph.DepthFirst
import PackageManager.Proofs.Traversal

/-!
# The edges of a build graph

A build graph is made from two stores. What a target depends on is said there (`DependsOn`): it
names other targets, and uses imports that may stand for targets. The graph has an edge for exactly
these, and neither a name nor an import of a graph that has been made is missing from its store.

## Main results

* `edge_iff` — the edges are the dependencies.
* `closed_graph` — they join targets of the store.
-/

namespace PackageManager

namespace Digraph

variable {α : Type} [DecidableEq α]

theorem edge_foldl_addEdge {l : List (α × α)} {g : Digraph α} {u v : α} :
    (l.foldl addEdge g).Edge u v ↔ g.Edge u v ∨ (u, v) ∈ l := by
  induction l generalizing g with
  | nil => simp
  | cons e l ih =>
      rw [List.foldl_cons, ih, Edge, mem_edges_addEdge, List.mem_cons,
        or_comm (a := (u, v) = e), or_assoc]
      rfl

@[simp] theorem vertices_foldl_addEdge (l : List (α × α)) (g : Digraph α) :
    (l.foldl addEdge g).vertices = g.vertices := by
  induction l generalizing g with
  | nil => rfl
  | cons e l ih => rw [List.foldl_cons, ih, vertices_addEdge]

/-- No edge is there twice. -/
theorem nodup_foldl_addEdge {l : List (α × α)} {g : Digraph α} (h : g.edges.Nodup) :
    (l.foldl addEdge g).edges.Nodup := by
  induction l generalizing g with
  | nil => exact h
  | cons e l ih =>
      refine ih ?_
      unfold addEdge
      split
      · exact h
      · next hNew =>
          exact List.nodup_append.2 ⟨h, List.nodup_singleton e, fun a ha b hb hSame =>
            hNew (List.mem_singleton.1 hb ▸ hSame ▸ ha)⟩

end Digraph

namespace BuildGraph

/-- A target names another among its dependencies, or uses an import that stands for it. -/
def DependsOn (targets : TargetStore) (imports : ImportStore) (u v : String) : Prop :=
  ∃ t, targets.get? u = some t ∧
    (v ∈ t.depends ∨ ∃ i ∈ t.imports, imports.get? i = some (.target v))

variable {targets : TargetStore} {imports : ImportStore} {g : BuildGraph}

theorem targetOfImport_eq_some {name v : String} :
    targetOfImport imports name = some v ↔ imports.get? name = some (.target v) := by
  unfold targetOfImport
  split
  · next t hGet => simp [hGet]
  · next hNone => simpa using hNone v

/-- The dependencies of a target that are not refused are those that the stores say it has. -/
theorem dependenciesOf_eq_ok {name : String} {t : Target} {l : List String}
    (hOk : dependenciesOf targets imports name t = .ok l) :
    (∀ v ∈ t.depends, targets.contains v) ∧
      ∀ v, v ∈ l ↔ v ∈ t.depends ∨ ∃ i ∈ t.imports, imports.get? i = some (.target v) := by
  unfold dependenciesOf at hOk
  split at hOk
  · cases hOk
  · next hDepends =>
      split at hOk
      · cases hOk
      · cases hOk
        refine ⟨fun v hv => ?_, fun v => ?_⟩
        · simpa using List.find?_eq_none.1 hDepends v hv
        · simp [targetOfImport_eq_some]

theorem edgesFrom_eq_ok {e : String × Target} {l : List (String × String)}
    (hOk : edgesFrom targets imports e = .ok l) :
    ∃ ds, dependenciesOf targets imports e.1 e.2 = .ok ds ∧ l = ds.map fun d => (e.1, d) := by
  obtain ⟨ds, hDependencies, hEdges⟩ := ok_of_map hOk
  exact ⟨ds, hDependencies, hEdges.symm⟩

/-- What has passed for a graph to be made, and which graph it is. -/
theorem create_eq_ok (hCreate : create targets imports = .ok g) :
    (∀ e ∈ imports.entries, checkImport targets e.1 e.2 = .ok ()) ∧
    ∃ edges, targets.entries.mapM (edgesFrom targets imports) = .ok edges ∧
      g.graph = edges.flatten.foldl Digraph.addEdge { vertices := targets.keys } := by
  obtain ⟨u, hImports, hRest⟩ := ok_of_bind hCreate
  obtain ⟨edges, hEdges, hGraph⟩ := ok_of_bind hRest
  cases hGraph
  exact ⟨forM_eq_ok_iff.1 hImports, edges, hEdges, rfl⟩

section Created

variable (hCreate : create targets imports = .ok g)

include hCreate

theorem mem_vertices_iff {name : String} : name ∈ g.graph.vertices ↔ targets.contains name := by
  obtain ⟨-, edges, -, hGraph⟩ := create_eq_ok hCreate
  rw [hGraph, Digraph.vertices_foldl_addEdge, OrderedMap.contains_iff_mem_keys]

/-- There is an edge from each target to what it depends on, and no other. -/
theorem edge_iff {u v : String} : g.graph.Edge u v ↔ DependsOn targets imports u v := by
  obtain ⟨-, edges, hEdges, hGraph⟩ := create_eq_ok hCreate
  have hNone : ¬({ vertices := targets.keys } : Digraph String).Edge u v := by
    simp [Digraph.Edge]
  rw [hGraph, Digraph.edge_foldl_addEdge, or_iff_right hNone, List.mem_flatten]
  constructor
  · rintro ⟨l, hl, hMem⟩
    obtain ⟨⟨name, t⟩, he, hOk⟩ := (mem_iff_of_mapM hEdges).1 hl
    obtain ⟨ds, hDependencies, rfl⟩ := edgesFrom_eq_ok hOk
    obtain ⟨d, hd, hPair⟩ := List.mem_map.1 hMem
    cases hPair
    exact ⟨t, OrderedMap.get?_eq_some_iff.2 he, ((dependenciesOf_eq_ok hDependencies).2 v).1 hd⟩
  · rintro ⟨t, hTarget, hDepends⟩
    have he : (u, t) ∈ targets.entries := OrderedMap.get?_eq_some_iff.1 hTarget
    obtain ⟨l, hOk⟩ := ok_of_mapM hEdges he
    obtain ⟨ds, hDependencies, rfl⟩ := edgesFrom_eq_ok hOk
    have hd : v ∈ ds := ((dependenciesOf_eq_ok hDependencies).2 v).2 hDepends
    exact ⟨_, (mem_iff_of_mapM hEdges).2 ⟨_, he, hOk⟩, List.mem_map.2 ⟨v, hd, rfl⟩⟩

/-- What a target depends on is a target. -/
theorem contains_of_dependsOn {u v : String} (hDepends : DependsOn targets imports u v) :
    targets.contains u ∧ targets.contains v := by
  obtain ⟨hImports, edges, hEdges, -⟩ := create_eq_ok hCreate
  obtain ⟨t, hTarget, hNamed⟩ := hDepends
  refine ⟨Option.isSome_iff_exists.2 ⟨t, hTarget⟩, ?_⟩
  rcases hNamed with hNamed | ⟨i, -, hImport⟩
  · obtain ⟨l, hOk⟩ := ok_of_mapM hEdges (OrderedMap.get?_eq_some_iff.1 hTarget)
    obtain ⟨ds, hDependencies, -⟩ := edgesFrom_eq_ok hOk
    exact (dependenciesOf_eq_ok hDependencies).1 v hNamed
  · have hCheck := hImports _ (OrderedMap.get?_eq_some_iff.1 hImport)
    simpa [checkImport] using hCheck

theorem closed_graph : g.graph.Closed := by
  intro u v hEdge
  obtain ⟨hu, hv⟩ := contains_of_dependsOn hCreate ((edge_iff hCreate).1 hEdge)
  exact ⟨(mem_vertices_iff hCreate).2 hu, (mem_vertices_iff hCreate).2 hv⟩

end Created

/-! ## Walks through a build graph -/

theorem leads_iff {u v : String} : DepthFirst.Leads g.dependencies u v ↔ g.graph.Edge u v := by
  simp [DepthFirst.Leads, dependencies, Digraph.Edge]

/-- What a walk through the graph reaches is what the graph reaches. -/
theorem reaches_eq : DepthFirst.Reaches g.dependencies = g.graph.Reaches := by
  have hLeads : DepthFirst.Leads g.dependencies = g.graph.Edge :=
    funext fun _ => funext fun _ => propext leads_iff
  rw [DepthFirst.Reaches, hLeads]
  rfl

/-- A walk that starts at some targets follows the rules of walks, and enters all of them. -/
theorem walks_of_create (hCreate : create targets imports = .ok g) {roots : List String}
    (hRoots : ∀ r ∈ roots, r ∈ g.graph.vertices) :
    DepthFirst.Walks g.dependencies roots (DepthFirst.walk g.dependencies g.size roots) [] ∧
      ∀ r ∈ roots, .enter r ∈ DepthFirst.walk g.dependencies g.size roots :=
  DepthFirst.walks_walk hRoots fun u v hLeads =>
    (closed_graph hCreate u v (leads_iff.1 hLeads)).2

/-! ## A project with a cycle -/

/-- A target that depends on some targets and uses some imports. -/
def loopTarget (name : String) (depends imports : List String) : String × Target :=
  (name, {
    kind := .library
    specifier := ⟨⟨name, "x"⟩, ⟨1, 0, 0⟩⟩
    depends := .ofList depends
    imports := .ofList imports })

/-- A library that uses an import beside what it depends on. -/
def loopTargets : TargetStore :=
  .ofList [loopTarget "app" ["lib"] [], loopTarget "base" [] [], loopTarget "lib" ["base"] ["main"]]

/-- The import stands for a target that depends on the library. -/
def loopImports : ImportStore := .ofList [("main", .target "app")]

end BuildGraph

end PackageManager
