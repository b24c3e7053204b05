import Mathlib.Logic.Relation
import PackageManager.Proofs.DependencySet.Declarations
import PackageManager.Proofs.Graph.TopologicalOrder

/-!
# What resolving a dependency set gives

A set that calls have filled is resolved into a list of packages, each with the versions that suit
all that depend on it, or it is found to have a cycle. This module states both answers in terms of
the declarations that were accepted. Numbers, edges and tags do not occur in the statements.

## Why counting is enough

A version is given out for a package if the segment it lies in has as many tags as the package has
edges to it. Tags are the sources of such edges, edges are not doubled and an edge has one
declaration. So the two numbers are equal iff each declaration about the package admits the version
(`Represents.within_iff`). A package to which no edge leads would be offered no version, but there
is none.

## Main results

* `intervals_admitted_by_all` — the versions offered for a package are those that each of its
  dependents admits, whatever the order of the declarations was.
* `resolutionOrder_topological` — the packages are listed once each and dependencies first, or the
  error names a package on a cycle of declarations.
-/

namespace PackageManager.DependencySet

/-- One package, or the project, depends on another package by one of some declarations. -/
def Depends (ds : List Declaration) (x y : Option PackageId) : Prop :=
  ∃ id, y = some id ∧ Declares ds x id

/-- A chain of declarations leads from a package back to itself. -/
def OnCycle (ds : List Declaration) (x : Option PackageId) : Prop :=
  Relation.TransGen (Depends ds) x x

variable {rootId : Option PackageId} {s : DependencySet} {ds : List Declaration}

theorem declares_congr {ds' : List Declaration} (hSame : ∀ d, d ∈ ds' ↔ d ∈ ds)
    {x : Option PackageId} {id : PackageId} : Declares ds x id ↔ Declares ds' x id :=
  exists_congr fun d => and_congr_left fun _ => (hSame d).symm

theorem onCycle_congr {ds' : List Declaration} (hSame : ∀ d, d ∈ ds' ↔ d ∈ ds)
    {x : Option PackageId} : OnCycle ds x ↔ OnCycle ds' x := by
  have hDepends : Depends ds = Depends ds' := by
    funext x y
    exact propext (exists_congr fun id => and_congr_right fun _ => declares_congr hSame)
  rw [OnCycle, OnCycle, hDepends]

/-! ## The packages of a set -/

theorem resolved_eq_some {v : Nat} {p : ResolvedPackage} (hp : s.resolved v = some p) :
    v ≠ root ∧ s.idOf v = some p.id ∧ ∃ x, s.vertices[v]? = some x ∧
      p.intervals = x.demand.joined (s.graph.predecessors v).length := by
  unfold resolved at hp
  split at hp
  · cases hp
  · next hRoot =>
      obtain ⟨x, hx, hp⟩ := Option.bind_eq_some_iff.1 hp
      obtain ⟨id, hId, hp⟩ := Option.bind_eq_some_iff.1 hp
      cases hp
      exact ⟨hRoot, by simp [idOf, hx, hId], x, hx, rfl⟩

/-- Every vertex but the root is listed as the package it stands for. -/
theorem map_id_resolved (s : DependencySet) (v : Nat) :
    (s.resolved v).map (·.id) = if v = root then none else s.idOf v := by
  unfold resolved idOf
  split
  · rfl
  · cases s.vertices[v]? with
    | none => rfl
    | some x =>
        show (x.id >>= _).map _ = x.id
        cases x.id with
        | none => rfl
        | some id => rfl

theorem map_id_filterMap_resolved (s : DependencySet) (vertices : List Nat) :
    (vertices.filterMap s.resolved).map (·.id) =
      vertices.filterMap fun v => if v = root then none else s.idOf v := by
  rw [List.map_filterMap]
  refine List.filterMap_congr fun v _ => ?_
  rw [← s.map_id_resolved v]

/-! ## The graph of a set -/

namespace Represents

theorem closed_graph (h : Represents rootId s ds) : s.graph.Closed := by
  intro u v hEdge
  obtain ⟨d, hLink⟩ := h.recorded.exists_link_of_edge hEdge
  have hu := (h.recorded.source u v d hLink).1
  have hv := isVertex_of_idOf (h.recorded.target u v d hLink)
  exact ⟨List.mem_range.2 hu, List.mem_range.2 hv⟩

/-- An edge leads from a vertex to one with an id that it depends on. -/
theorem depends_of_edge (h : Represents rootId s ds) {u v : Nat} (hEdge : s.graph.Edge u v) :
    Depends ds (s.idOf u) (s.idOf v) := by
  obtain ⟨d, hLink⟩ := h.recorded.exists_link_of_edge hEdge
  have hv := h.recorded.target u v d hLink
  exact ⟨d.dependency.id, hv, (h.edge_iff (h.recorded.source u v d hLink).1 hv).1 hEdge⟩

/-- A chain of declarations is a path in the graph. -/
theorem exists_path_of_transGen (h : Represents rootId s ds) {x y : Option PackageId}
    (hChain : Relation.TransGen (Depends ds) x y) : ∃ u v, s.IsVertex u ∧ s.IsVertex v ∧
      s.idOf u = x ∧ s.idOf v = y ∧ Relation.TransGen s.graph.Edge u v := by
  have hStep : ∀ {x id}, Declares ds x id → ∃ u v, s.IsVertex u ∧ s.IsVertex v ∧
      s.idOf u = x ∧ s.idOf v = some id ∧ s.graph.Edge u v := by
    rintro x id ⟨d, hd, rfl, rfl⟩
    obtain ⟨u, v, hLink⟩ := h.recorded.exists_link_of_mem hd
    obtain ⟨hu, hSource⟩ := h.recorded.source u v d hLink
    have hTarget := h.recorded.target u v d hLink
    exact ⟨u, v, hu, isVertex_of_idOf hTarget, hSource, hTarget, edge_of_link hLink⟩
  induction hChain with
  | single hDepends =>
      obtain ⟨id, rfl, hDeclares⟩ := hDepends
      obtain ⟨u, v, hu, hv, hx, hy, hEdge⟩ := hStep hDeclares
      exact ⟨u, v, hu, hv, hx, hy, .single hEdge⟩
  | tail _ hDepends ih =>
      obtain ⟨id, rfl, hDeclares⟩ := hDepends
      obtain ⟨u, v, hu, hv, hx, hy, hPath⟩ := ih
      obtain ⟨v', w, hv', hw, hy', hz, hEdge⟩ := hStep hDeclares
      obtain rfl := h.indexed.idOf_injective hv' hv (hy'.trans hy.symm)
      exact ⟨u, w, hu, hw, hx, hz, hPath.tail hEdge⟩

theorem onCycle_idOf (h : Represents rootId s ds) {v : Nat} (hCycle : s.graph.OnCycle v) :
    OnCycle ds (s.idOf v) :=
  Relation.TransGen.lift s.idOf (fun _ _ hEdge => h.depends_of_edge hEdge) v v hCycle

theorem exists_onCycle (h : Represents rootId s ds) {x : Option PackageId}
    (hCycle : OnCycle ds x) : ∃ v, s.graph.OnCycle v := by
  obtain ⟨u, v, hu, hv, hx, hy, hPath⟩ := h.exists_path_of_transGen hCycle
  obtain rfl := h.indexed.idOf_injective hu hv (hx.trans hy.symm)
  exact ⟨u, hPath⟩

/-- Something depends on a vertex that lies on a cycle, so it has an id. -/
theorem exists_id_of_onCycle (h : Represents rootId s ds) {v : Nat} (hCycle : s.graph.OnCycle v) :
    ∃ id, s.idOf v = some id := by
  obtain ⟨u, -, hEdge⟩ := Relation.TransGen.tail'_iff.1 hCycle
  obtain ⟨id, hId, -⟩ := h.depends_of_edge hEdge
  exact ⟨id, hId⟩

/-! ## The versions of a package -/

/-- An edge is not doubled, so a vertex is counted once among those that depend on another. -/
theorem nodup_predecessors (h : Represents rootId s ds) (v : Nat) :
    (s.graph.predecessors v).Nodup := by
  refine List.Nodup.map_on ?_ (h.recorded.edges_nodup.filter _)
  rintro ⟨u, w⟩ hu ⟨u', w'⟩ hu' hEq
  have hw : w = v := by simpa using (List.mem_filter.1 hu).2
  have hw' : w' = v := by simpa using (List.mem_filter.1 hu').2
  exact Prod.ext hEq (hw.trans hw'.symm)

/-- The versions offered for a package are those that all declarations about it admit. -/
theorem within_iff (h : Represents rootId s ds) {v : Nat} {p : ResolvedPackage}
    (hp : s.resolved v = some p) (w : Version) :
    Within p.intervals w ↔ ∀ d ∈ ds, d.dependency.id = p.id → d.Admits w := by
  obtain ⟨hRoot, hId, x, hx, hIntervals⟩ := resolved_eq_some hp
  have hNonempty : s.graph.predecessors v ≠ [] := by
    obtain ⟨u, hEdge⟩ := h.demanded v (isVertex_of_idOf hId) hRoot
    exact List.ne_nil_of_mem (Digraph.mem_predecessors.2 hEdge)
  have hTags : ∀ w u, x.demand.Covers w u → u ∈ s.graph.predecessors v := by
    intro w u hCovers
    obtain ⟨d, hLink, -⟩ := (h.recorded.covers v x hx w u).1 hCovers
    exact Digraph.mem_predecessors.2 (edge_of_link hLink)
  rw [hIntervals, SplitMap.within_joined_length (h.recorded.wellFormed v x hx)
    (h.nodup_predecessors v) hNonempty hTags]
  constructor
  · intro hAll d hd hAbout
    obtain ⟨u, v', hLink⟩ := h.recorded.exists_link_of_mem hd
    have hTarget := h.recorded.target u v' d hLink
    obtain rfl := h.indexed.idOf_injective (isVertex_of_idOf hTarget) (isVertex_of_idOf hId)
      (by rw [hTarget, hId, hAbout])
    have hCovers := hAll u (Digraph.mem_predecessors.2 (edge_of_link hLink))
    obtain ⟨d', hLink', hAdmits⟩ := (h.recorded.covers v' x hx w u).1 hCovers
    exact h.recorded.link_unique hLink' hLink ▸ hAdmits
  · intro hAll u hu
    obtain ⟨d, hLink⟩ := h.recorded.exists_link_of_edge (Digraph.mem_predecessors.1 hu)
    have hTarget := h.recorded.target u v d hLink
    have hAbout : d.dependency.id = p.id := Option.some.inj (hTarget.symm.trans hId)
    exact (h.recorded.covers v x hx w u).2 ⟨d, hLink, hAll d (mem_of_link hLink) hAbout⟩

theorem apart_intervals (h : Represents rootId s ds) {v : Nat} {p : ResolvedPackage}
    (hp : s.resolved v = some p) : Apart p.intervals := by
  obtain ⟨-, -, x, hx, hIntervals⟩ := resolved_eq_some hp
  rw [hIntervals]
  exact SplitMap.apart_joined (h.recorded.wellFormed v x hx) _

end Represents

/-! ## The packages in order -/

theorem resolutionOrder_cases (s : DependencySet) :
    (∃ v, s.graph.topologicalOrder = .error v ∧
      s.resolutionOrder = .error (.graph (.dependencyCycle (s.idOf v)))) ∨
    ∃ vertices, s.graph.topologicalOrder = .ok vertices ∧
      s.resolutionOrder = .ok (vertices.reverse.filterMap s.resolved) := by
  unfold resolutionOrder
  cases s.graph.topologicalOrder with
  | error v => exact .inl ⟨v, rfl, rfl⟩
  | ok vertices => exact .inr ⟨vertices, rfl, rfl⟩

namespace Represents

/-- An error names a package on a cycle of declarations. -/
theorem onCycle_of_error (h : Represents rootId s ds) {f : Fault}
    (hError : s.resolutionOrder = .error f) :
    ∃ id, f = .graph (.dependencyCycle (some id)) ∧ OnCycle ds (some id) := by
  rcases s.resolutionOrder_cases with ⟨v, hSort, hResult⟩ | ⟨vertices, -, hResult⟩
  · have hCycle := Digraph.onCycle_of_topologicalOrder h.closed_graph hSort
    obtain ⟨id, hId⟩ := h.exists_id_of_onCycle hCycle
    rw [hResult, hId] at hError
    cases hError
    exact ⟨id, rfl, hId ▸ h.onCycle_idOf hCycle⟩
  · rw [hResult] at hError
    cases hError

/-- Where an order is given out, the declarations have no cycle. -/
theorem not_onCycle_of_ok (h : Represents rootId s ds) {order : List ResolvedPackage}
    (hOk : s.resolutionOrder = .ok order) (x : Option PackageId) : ¬OnCycle ds x := by
  intro hCycle
  obtain ⟨v, hv⟩ := h.exists_onCycle hCycle
  rcases s.resolutionOrder_cases with ⟨u, -, hResult⟩ | ⟨vertices, hSort, -⟩
  · rw [hResult] at hOk
    cases hOk
  · exact Digraph.not_onCycle_of_topologicalOrder h.closed_graph hSort v hv

variable {order : List ResolvedPackage}

/-- The packages of an order are those of the vertices. -/
theorem mem_order_iff (h : Represents rootId s ds) (hOk : s.resolutionOrder = .ok order)
    {p : ResolvedPackage} : p ∈ order ↔ ∃ v, s.resolved v = some p := by
  rcases s.resolutionOrder_cases with ⟨u, -, hResult⟩ | ⟨vertices, hSort, hResult⟩
  · rw [hResult] at hOk
    cases hOk
  · rw [hResult] at hOk
    cases hOk
    obtain ⟨-, hMem, -⟩ := Digraph.topologicalOrder_sound h.closed_graph hSort
    rw [List.mem_filterMap]
    refine ⟨fun ⟨v, _, hp⟩ => ⟨v, hp⟩, fun ⟨v, hp⟩ => ⟨v, ?_, hp⟩⟩
    obtain ⟨-, hId, -⟩ := resolved_eq_some hp
    exact List.mem_reverse.2 ((hMem v).2 (List.mem_range.2 (isVertex_of_idOf hId)))

/-- An order lists exactly the packages that something depends on, but for the root. -/
theorem mem_ids_iff (h : Represents rootId s ds) (hOk : s.resolutionOrder = .ok order)
    {id : PackageId} :
    id ∈ order.map (·.id) ↔ (∃ x, Declares ds x id) ∧ rootId ≠ some id := by
  have hVertex : id ∈ order.map (·.id) ↔ ∃ v, v ≠ root ∧ s.idOf v = some id := by
    rw [List.mem_map]
    constructor
    · rintro ⟨p, hp, rfl⟩
      obtain ⟨v, hv⟩ := (h.mem_order_iff hOk).1 hp
      exact ⟨v, (resolved_eq_some hv).1, (resolved_eq_some hv).2.1⟩
    · rintro ⟨v, hRoot, hId⟩
      have hResolved := s.map_id_resolved v
      rw [if_neg hRoot, hId] at hResolved
      obtain ⟨p, hp, rfl⟩ := Option.map_eq_some_iff.1 hResolved
      exact ⟨p, (h.mem_order_iff hOk).2 ⟨v, hp⟩, rfl⟩
  rw [hVertex]
  exact h.exists_vertex_iff

/-- An order lists no package twice, and each dependency before its dependents. -/
theorem order_topological (h : Represents rootId s ds) (hOk : s.resolutionOrder = .ok order) :
    (order.map (·.id)).Nodup ∧ ∀ a b, Declares ds (some a) b → rootId ≠ some a →
      rootId ≠ some b → Precedes (order.map (·.id)) b a := by
  rcases s.resolutionOrder_cases with ⟨u, -, hResult⟩ | ⟨vertices, hSort, hResult⟩
  · rw [hResult] at hOk
    cases hOk
  · rw [hResult] at hOk
    cases hOk
    obtain ⟨hNodup, -, hForward⟩ := Digraph.topologicalOrder_sound h.closed_graph hSort
    rw [s.map_id_filterMap_resolved]
    constructor
    · refine List.Nodup.filterMap (fun v v' id hv hv' => ?_) (List.nodup_reverse.2 hNodup)
      have hId : ∀ w, (if w = root then none else s.idOf w) = some id → s.idOf w = some id := by
        intro w hw
        split at hw
        · cases hw
        · exact hw
      exact h.indexed.idOf_injective (isVertex_of_idOf (hId v hv)) (isVertex_of_idOf (hId v' hv'))
        ((hId v hv).trans (hId v' hv').symm)
    · rintro a b ⟨d, hd, hDependent, rfl⟩ ha hb
      obtain ⟨u, v, hLink⟩ := h.recorded.exists_link_of_mem hd
      have hSource := (h.recorded.source u v d hLink).2.trans hDependent
      have hTarget := h.recorded.target u v d hLink
      have hForward := (hForward u v (edge_of_link hLink)).reverse
      have hNotRoot : ∀ w id, s.idOf w = some id → rootId ≠ some id → w ≠ root := by
        rintro w id hId hRootId rfl
        exact hRootId (h.root_id.symm.trans hId)
      refine hForward.filterMap ?_ ?_
      · rw [if_neg (hNotRoot v _ hTarget hb), hTarget]
      · rw [if_neg (hNotRoot u a hSource ha), hSource]

/-- A package that one set lists is listed by any other with the same declarations. -/
theorem mem_order_of_same (h : Represents rootId s ds) {s' : DependencySet}
    {ds' : List Declaration} (h' : Represents rootId s' ds') (hSame : ∀ d, d ∈ ds' ↔ d ∈ ds)
    {order' : List ResolvedPackage} (hOk : s.resolutionOrder = .ok order)
    (hOk' : s'.resolutionOrder = .ok order') {p : ResolvedPackage} (hp : p ∈ order) :
    p ∈ order' := by
  obtain ⟨⟨x, hDeclares⟩, hRoot⟩ := (h.mem_ids_iff hOk).1 (List.mem_map_of_mem hp)
  rw [declares_congr hSame] at hDeclares
  obtain ⟨p', hp', hId⟩ := List.mem_map.1 ((h'.mem_ids_iff hOk').2 ⟨⟨x, hDeclares⟩, hRoot⟩)
  obtain ⟨v, hv⟩ := (h.mem_order_iff hOk).1 hp
  obtain ⟨v', hv'⟩ := (h'.mem_order_iff hOk').1 hp'
  have hIntervals : p'.intervals = p.intervals := by
    refine eq_of_apart (h'.apart_intervals hv') (h.apart_intervals hv) fun w => ?_
    rw [h'.within_iff hv', h.within_iff hv, hId]
    exact forall_congr' fun d => by rw [hSame]
  have hEq : p' = p := by
    cases p
    cases p'
    simp_all
  exact hEq ▸ hp'

end Represents

/-! ## What resolving a set gives -/

variable {calls : List Call}

/-- Whatever calls have filled a set, each package that it lists comes with exactly the versions
that every declaration about it admits. So two sets with the same declarations list the same. -/
theorem intervals_admitted_by_all (hRun : run rootId calls = (s, ds))
    {order : List ResolvedPackage} (hOrder : s.resolutionOrder = .ok order) :
    (∀ p ∈ order, ∀ w, (∃ i ∈ p.intervals, i.contains w) ↔
      ∀ d ∈ ds, d.dependency.id = p.id → ∃ r ∈ d.dependency.requirements, r.satisfiedBy w) ∧
    ∀ calls' s' ds', run rootId calls' = (s', ds') → (∀ d, d ∈ ds' ↔ d ∈ ds) →
      ∃ order', s'.resolutionOrder = .ok order' ∧ ∀ p, p ∈ order' ↔ p ∈ order := by
  have h := represents_of_run hRun
  constructor
  · intro p hp w
    obtain ⟨v, hv⟩ := (h.mem_order_iff hOrder).1 hp
    exact h.within_iff hv w
  · intro calls' s' ds' hRun' hSame
    have h' := represents_of_run hRun'
    cases hOrder' : s'.resolutionOrder with
    | error f =>
        obtain ⟨id, -, hCycle⟩ := h'.onCycle_of_error hOrder'
        exact absurd ((onCycle_congr hSame).2 hCycle) (h.not_onCycle_of_ok hOrder _)
    | ok order' =>
        refine ⟨order', rfl, fun p => ⟨fun hp => ?_, fun hp => ?_⟩⟩
        · exact h'.mem_order_of_same h (fun d => (hSame d).symm) hOrder' hOrder hp
        · exact h.mem_order_of_same h' hSame hOrder hOrder' hp

/-- Two packages of the domain `x` that share a third: both are needed directly. The set of
requirements of the first has a gap, and the second asks for a part of what lies before it. -/
def sharedCalls : List Call :=
  [ .direct ⟨⟨"a", "x"⟩, .ofList [.caret ⟨1, 0, 0⟩]⟩
  , .direct ⟨⟨"b", "x"⟩, .ofList [.caret ⟨1, 0, 0⟩]⟩
  , .of ⟨"a", "x"⟩ ⟨⟨"c", "x"⟩, .ofList [.range ⟨1, 0, 0⟩ ⟨2, 0, 0⟩, .exact ⟨3, 0, 0⟩]⟩
  , .of ⟨"b", "x"⟩ ⟨⟨"c", "x"⟩, .ofList [.caret ⟨1, 5, 0⟩]⟩ ]

/-- What the shared package and those that share it are resolved to. -/
def sharedOrder : List ResolvedPackage :=
  [ ⟨⟨"c", "x"⟩, [⟨⟨1, 5, 0⟩, ⟨2, 0, 0⟩⟩]⟩
  , ⟨⟨"a", "x"⟩, [⟨⟨1, 0, 0⟩, ⟨2, 0, 0⟩⟩]⟩
  , ⟨⟨"b", "x"⟩, [⟨⟨1, 0, 0⟩, ⟨2, 0, 0⟩⟩]⟩ ]

/-- The same declarations, with those of the second package before those of the first. -/
def sharedCallsSwapped : List Call :=
  [1, 3, 0, 2].filterMap fun i => sharedCalls[i]?

theorem intervals_admitted_by_all_shared :
    (run none sharedCalls).1.resolutionOrder = .ok sharedOrder ∧
    (∀ w, (∃ i ∈ [(⟨⟨1, 5, 0⟩, ⟨2, 0, 0⟩⟩ : Interval)], i.contains w) ↔
      ∀ d ∈ (run none sharedCalls).2, d.dependency.id = ⟨"c", "x"⟩ →
        ∃ r ∈ d.dependency.requirements, r.satisfiedBy w) ∧
    ∃ order', (run none sharedCallsSwapped).1.resolutionOrder = .ok order' ∧
      ∀ p, p ∈ order' ↔ p ∈ sharedOrder := by
  have hOrder : (run none sharedCalls).1.resolutionOrder = .ok sharedOrder := by decide +kernel
  have hPerm : (run none sharedCallsSwapped).2.Perm (run none sharedCalls).2 := by decide +kernel
  obtain ⟨hIntervals, hSame⟩ :=
    intervals_admitted_by_all (Prod.eta (run none sharedCalls)).symm hOrder
  exact ⟨hOrder, hIntervals ⟨⟨"c", "x"⟩, _⟩ List.mem_cons_self,
    hSame sharedCallsSwapped _ _ (Prod.eta _).symm fun d => hPerm.mem_iff⟩

/-- Whatever calls have filled a set, resolving it fails iff a chain of declarations leads from some
package back to itself, and then names such a package. Otherwise the packages are listed once each,
without the root, and each after those that it depends on. -/
theorem resolutionOrder_topological (hRun : run rootId calls = (s, ds)) :
    ((∃ f, s.resolutionOrder = .error f) ↔ ∃ x, OnCycle ds x) ∧
    (∀ f, s.resolutionOrder = .error f → ∃ id, f = .graph (.dependencyCycle (some id)) ∧
      f.detail = "dependency cycle detected at " ++ id.text ∧ OnCycle ds (some id)) ∧
    ∀ order, s.resolutionOrder = .ok order →
      (order.map (·.id)).Nodup ∧
      (∀ id, id ∈ order.map (·.id) ↔ (∃ x, Declares ds x id) ∧ rootId ≠ some id) ∧
      ∀ a b, Declares ds (some a) b → rootId ≠ some a → rootId ≠ some b →
        Precedes (order.map (·.id)) b a := by
  have h := represents_of_run hRun
  refine ⟨⟨fun ⟨f, hError⟩ => ?_, fun ⟨x, hCycle⟩ => ?_⟩, fun f hError => ?_, fun order hOk => ?_⟩
  · obtain ⟨id, -, hCycle⟩ := h.onCycle_of_error hError
    exact ⟨some id, hCycle⟩
  · cases hResult : s.resolutionOrder with
    | error f => exact ⟨f, rfl⟩
    | ok order => exact absurd hCycle (h.not_onCycle_of_ok hResult x)
  · obtain ⟨id, rfl, hCycle⟩ := h.onCycle_of_error hError
    exact ⟨id, rfl, rfl, hCycle⟩
  · obtain ⟨hNodup, hBefore⟩ := h.order_topological hOk
    exact ⟨hNodup, fun id => h.mem_ids_iff hOk, hBefore⟩

/-- Two packages of the domain `x` that depend on each other, behind one that is on no cycle. -/
def cyclicCalls : List Call :=
  [ .direct { id := ⟨"a", "x"⟩ }
  , .of ⟨"a", "x"⟩ { id := ⟨"b", "x"⟩ }
  , .of ⟨"b", "x"⟩ { id := ⟨"c", "x"⟩ }
  , .of ⟨"c", "x"⟩ { id := ⟨"b", "x"⟩ } ]

theorem resolutionOrder_topological_shared_cyclic :
    Precedes (sharedOrder.map (·.id)) ⟨"c", "x"⟩ ⟨"b", "x"⟩ ∧
    OnCycle (run none cyclicCalls).2 (some ⟨"c", "x"⟩) := by
  obtain ⟨-, -, hOk⟩ :=
    resolutionOrder_topological ((Prod.eta _).symm : run none sharedCalls = _)
  obtain ⟨-, hError, -⟩ :=
    resolutionOrder_topological ((Prod.eta _).symm : run none cyclicCalls = _)
  obtain ⟨-, -, hBefore⟩ := hOk sharedOrder (by decide +kernel)
  obtain ⟨id, hId, -, hCycle⟩ :=
    hError (.graph (.dependencyCycle (some ⟨"c", "x"⟩))) (by decide +kernel)
  cases hId
  refine ⟨hBefore ⟨"b", "x"⟩ ⟨"c", "x"⟩ ?_ nofun nofun, hCycle⟩
  have hLast : ⟨some ⟨"b", "x"⟩, ⟨⟨"c", "x"⟩, .ofList [.caret ⟨1, 5, 0⟩]⟩⟩ ∈
      (run none sharedCalls).2 := by decide +kernel
  exact ⟨_, hLast, rfl, rfl⟩

end PackageManager.DependencySet
