import Mathlib.Data.List.Dedup
import PackageManager.Proofs.DependencySet.Resolution
import PackageManager.Proofs.Interval.Insertions

/-!
# What the parts of a dependency set have to do with each other

A set is kept in four parts: the vertices in the order of their numbers, the index from ids to
numbers, the edges, and for each vertex the tagged versions that are asked for of it. A call changes
them one after the other, and may be refused after it has looked a vertex up. This module says how
the parts belong together after any calls, and what each of them says about the declarations that
were accepted.

## Why every vertex is reached

A vertex is only made for a declaration, and by a vertex that is there before. Such a declaration is
never refused, as no edge leads to the new vertex yet, so its edge is the last one of a path from
the root (`Rooted.grow`). Later calls take no edge away.

## Main results

* `Represents.size_eq` — the size counts the packages that are depended on, the root aside.
* `coherent_run` — the parts belong together after any run of calls.
-/

namespace PackageManager.DependencySet

variable {rootId : Option PackageId} {s s' : DependencySet} {ds : List Declaration}

/-! ## Paths from the root -/

/-- Every vertex can be reached from the root. -/
def Rooted (s : DependencySet) : Prop := ∀ v, s.IsVertex v → s.graph.Reaches root v

theorem rooted_ofRoot (rootId : Option PackageId) : (ofRoot rootId).Rooted := by
  intro v hv
  have hFirst : v = root := by
    cases rootId with
    | none => exact Nat.lt_one_iff.1 hv
    | some id => exact Nat.lt_one_iff.1 hv
  rw [hFirst]
  exact .refl

/-- An accepted declaration adds its edge, and no other vertex than the one that this leads to. -/
theorem Indexed.declare_grows (h : s.Indexed) {u : Nat} {d : Dependency}
    (hAccepted : s.declare u d = (.ok (), s')) :
    ∃ v, s'.edges = s.edges ++ [(u, v)] ∧ ∀ w, s'.IsVertex w → s.IsVertex w ∨ w = v := by
  rw [declare_eq] at hAccepted
  split at hAccepted
  · cases hAccepted
  · cases hAccepted
    rcases h.vertexOf_cases d.id with ⟨v, -, hVertex⟩ | ⟨-, hVertex⟩
    · rw [hVertex]
      exact ⟨v, edges_connect s u v d, fun w hw => .inl (isVertex_connect.1 hw)⟩
    · rw [hVertex]
      exact ⟨s.vertices.length, edges_connect _ u _ d,
        fun w hw => isVertex_extend.1 (isVertex_connect.1 hw)⟩

/-- An accepted call is a declaration of a vertex. -/
theorem Indexed.exists_declare (h : s.Indexed) {c : Call} (hAccepted : c.perform s = (.ok (), s')) :
    ∃ u d, s.IsVertex u ∧ s.declare u d = (.ok (), s') := by
  cases c with
  | direct d => exact ⟨root, d, h.root_isVertex, hAccepted⟩
  | of dependent d =>
      change s.add dependent d = (.ok (), s') at hAccepted
      cases hIndex : s.index.get? dependent with
      | none =>
          rw [add_eq_error hIndex] at hAccepted
          cases hAccepted
      | some u =>
          rw [add_eq_declare hIndex] at hAccepted
          exact ⟨u, d, isVertex_of_idOf ((h.index dependent u).1 hIndex), hAccepted⟩

/-- An edge from a vertex that can be reached makes its end one that can be. -/
theorem Rooted.grow (hRooted : s.Rooted) {u v : Nat} (hu : s.IsVertex u)
    (hEdges : s'.edges = s.edges ++ [(u, v)])
    (hVertices : ∀ w, s'.IsVertex w → s.IsVertex w ∨ w = v) : s'.Rooted := by
  have hKept : ∀ w, s.graph.Reaches root w → s'.graph.Reaches root w := by
    intro w hPath
    apply Relation.ReflTransGen.mono _ root w hPath
    intro a b hEdge
    show (a, b) ∈ s'.edges
    rw [hEdges]
    exact List.mem_append_left _ hEdge
  intro w hw
  rcases hVertices w hw with hOld | rfl
  · exact hKept w (hRooted w hOld)
  · refine (hKept u (hRooted u hu)).tail ?_
    show (u, w) ∈ s'.edges
    rw [hEdges]
    exact List.mem_append_right _ List.mem_cons_self

theorem Represents.rooted_record {t : DependencySet × List Declaration}
    (h : Represents rootId t.1 t.2) (hRooted : t.1.Rooted) (c : Call) :
    (c.record rootId t).1.Rooted := by
  unfold Call.record
  rcases h.perform_cases c with ⟨f, hRefused⟩ | ⟨s', hAccepted, -⟩
  · rw [hRefused]
    exact hRooted
  · rw [hAccepted]
    obtain ⟨u, d, hu, hDeclare⟩ := h.indexed.exists_declare hAccepted
    obtain ⟨v, hEdges, hVertices⟩ := h.indexed.declare_grows hDeclare
    exact hRooted.grow hu hEdges hVertices

/-- Every vertex can be reached from the root after any run of calls. -/
theorem rooted_run (rootId : Option PackageId) (calls : List Call) :
    (run rootId calls).1.Rooted := by
  have hFold : Represents rootId (run rootId calls).1 (run rootId calls).2 ∧
      (run rootId calls).1.Rooted :=
    List.foldlRecOn
      (motive := fun t : DependencySet × _ => Represents rootId t.1 t.2 ∧ t.1.Rooted) calls _
      ⟨represents_ofRoot rootId, rooted_ofRoot rootId⟩
      fun _ ⟨h, hRooted⟩ c _ => ⟨h.record c, h.rooted_record hRooted c⟩
  exact hFold.2

/-! ## Counting -/

namespace Represents

/-- The size is the number of packages that are depended on, the root aside. -/
theorem size_eq (h : Represents rootId s ds) : s.size =
    ((ds.map (·.dependency.id)).dedup.filter fun id => rootId ≠ some id).length := by
  let others := (List.range' 1 s.size).filterMap s.idOf
  have hOther : ∀ v, v ∈ List.range' 1 s.size ↔ s.IsVertex v ∧ v ≠ root := by
    intro v
    have hRoot : 0 < s.vertices.length := h.indexed.root_isVertex
    rw [List.mem_range'_1]
    unfold size IsVertex root
    omega
  have hMem : ∀ id, id ∈ others ↔
      id ∈ (ds.map (·.dependency.id)).dedup.filter fun id => rootId ≠ some id := by
    intro id
    have hVertex : id ∈ others ↔ ∃ v, v ≠ root ∧ s.idOf v = some id := by
      rw [List.mem_filterMap]
      apply exists_congr
      intro v
      apply and_congr_left
      intro hId
      rw [hOther, and_iff_right (isVertex_of_idOf hId)]
    rw [hVertex, h.exists_vertex_iff]
    simp [Declares]
  have hNodup : others.Nodup := by
    apply List.Nodup.filterMap _ List.nodup_range'
    intro v v' id hv hv'
    exact h.indexed.idOf_injective (isVertex_of_idOf hv) (isVertex_of_idOf hv')
      (Eq.trans hv hv'.symm)
  have hPerm := (List.perm_ext_iff_of_nodup hNodup ((List.nodup_dedup _).filter _)).2 hMem
  rw [← hPerm.length_eq]
  have hNamed : ∀ v ∈ List.range' 1 s.size, (s.idOf v).isSome := by
    intro v hv
    obtain ⟨hVertex, hRoot⟩ := (hOther v).1 hv
    obtain ⟨id, hId⟩ := h.indexed.named v hVertex hRoot
    rw [hId]
    rfl
  rw [List.filterMap_length_eq_length.2 hNamed, List.length_range']

/-- No two of the accepted declarations say of the same package what it depends on. -/
theorem declared_once (h : Represents rootId s ds) :
    (ds.map fun d => (d.dependent, d.dependency.id)).Nodup := by
  have hEdges : (s.links ds).map (·.1) = s.edges :=
    List.map_fst_zip (Nat.le_of_eq h.recorded.length_eq)
  have hDeclarations : (s.links ds).map (·.2) = ds :=
    List.map_snd_zip (Nat.le_of_eq h.recorded.length_eq.symm)
  -- a declaration is known by its ends, and so is its edge
  have hEnds : s.edges.map (fun e => (s.idOf e.1, s.idOf e.2)) =
      (ds.map fun d => (d.dependent, d.dependency.id)).map fun p => (p.1, some p.2) := by
    calc s.edges.map (fun e => (s.idOf e.1, s.idOf e.2))
        = (s.links ds).map fun l => (s.idOf l.1.1, s.idOf l.1.2) := by
          rw [← hEdges, List.map_map]
          rfl
      _ = (s.links ds).map fun l => (l.2.dependent, some l.2.dependency.id) := by
          refine List.map_congr_left fun ⟨⟨u, v⟩, d⟩ hLink => ?_
          exact Prod.ext (h.recorded.source u v d hLink).2 (h.recorded.target u v d hLink)
      _ = ((s.links ds).map (·.2)).map fun d => (d.dependent, some d.dependency.id) := by
          rw [List.map_map]
          rfl
      _ = (ds.map fun d => (d.dependent, d.dependency.id)).map fun p => (p.1, some p.2) := by
          rw [hDeclarations, List.map_map]
          rfl
  have hIsVertex : ∀ e ∈ s.edges, s.IsVertex e.1 ∧ s.IsVertex e.2 := by
    rintro ⟨u, v⟩ he
    obtain ⟨hu, hv⟩ := h.closed_graph u v he
    exact ⟨List.mem_range.1 hu, List.mem_range.1 hv⟩
  have hNodup : (s.edges.map fun e => (s.idOf e.1, s.idOf e.2)).Nodup := by
    apply h.recorded.edges_nodup.map_on
    intro e he e' he' hSame
    obtain ⟨hSource, hTarget⟩ := Prod.mk.inj hSame
    exact Prod.ext (h.indexed.idOf_injective (hIsVertex e he).1 (hIsVertex e' he').1 hSource)
      (h.indexed.idOf_injective (hIsVertex e he).2 (hIsVertex e' he').2 hTarget)
  rw [hEnds] at hNodup
  exact hNodup.of_map _

/-- An edge leads from one vertex to another iff one of the declarations is about the two. -/
theorem edge_iff_joins (h : Represents rootId s ds) (u v : Nat) :
    (u, v) ∈ s.edges ↔ ∃ d ∈ ds, d.Joins s u v := by
  constructor
  · intro hEdge
    obtain ⟨d, hLink⟩ := h.recorded.exists_link_of_edge hEdge
    exact ⟨d, h.mem_links_iff.1 hLink⟩
  · rintro ⟨d, hd, hJoins⟩
    exact edge_of_link (h.mem_links_iff.2 ⟨hd, hJoins⟩)

/-! ## Tags -/

variable {v t : Nat} {x : Vertex}

/-- A tag of a vertex is the source of an edge to it. -/
theorem edge_of_tag (h : Represents rootId s ds) (hx : s.vertices[v]? = some x)
    {g : Interval × OrderedSet Nat} (hg : g ∈ x.demand.segments) (ht : t ∈ g.2) :
    (t, v) ∈ s.edges := by
  have hCovers := (h.recorded.wellFormed v x hx).covers_lower hg ht
  obtain ⟨d, hLink, -⟩ := (h.recorded.covers v x hx _ t).1 hCovers
  exact edge_of_link hLink

/-- A version is tagged at a vertex by those whose declaration about it admits the version. -/
theorem tagged_iff (h : Represents rootId s ds) (hx : s.vertices[v]? = some x) (w : Version) :
    (∃ tags, x.demand.tagsAt w = some tags ∧ t ∈ tags) ↔
      ∃ d ∈ ds, d.Joins s t v ∧ d.Admits w := by
  rw [SplitMap.exists_mem_tagsAt_iff (h.recorded.wellFormed v x hx), h.recorded.covers v x hx]
  simp only [h.mem_links_iff, and_assoc]

end Represents

/-! ## Any calls -/

/-- The parts of a set belong together, and say what was declared. -/
structure Coherent (rootId : Option PackageId) (s : DependencySet) (ds : List Declaration) :
    Prop where
  /-- The index and the ids of the vertices are inverse to each other, so the index is a bijection
  between its keys and the vertices with ids. -/
  index_iff : ∀ id v, s.index.get? id = some v ↔ s.idOf v = some id
  idOf_root : s.idOf root = rootId
  /-- No other vertex than the root is without an id. -/
  named : ∀ v, s.IsVertex v → v ≠ root → ∃ id, s.idOf v = some id
  rooted : s.Rooted
  /-- There is at most one edge from one vertex to another. -/
  edges_nodup : s.edges.Nodup
  edge_iff : ∀ u v, (u, v) ∈ s.edges ↔ ∃ d ∈ ds, d.Joins s u v
  /-- Of each two packages, one declaration at most was accepted. -/
  declared_once : (ds.map fun d => (d.dependent, d.dependency.id)).Nodup
  /-- The size is the number of packages beside the root. -/
  size_eq : s.size = ((ds.map (·.dependency.id)).dedup.filter fun id => rootId ≠ some id).length
  /-- A tag that is kept anywhere at a vertex is the source of an edge to it. -/
  edge_of_tag : ∀ (v : Nat) x, s.vertices[v]? = some x →
    ∀ g ∈ x.demand.segments, ∀ t ∈ g.2, (t, v) ∈ s.edges
  /-- A version is tagged by one vertex at another iff the declaration about the two has a
  requirement that admits the version. -/
  tagged_iff : ∀ (v : Nat) x, s.vertices[v]? = some x → ∀ w t,
    (∃ tags, x.demand.tagsAt w = some tags ∧ t ∈ tags) ↔ ∃ d ∈ ds, d.Joins s t v ∧ d.Admits w

/-- Whatever calls were made on a new set, refused ones among them, its parts belong together and
say what was declared by the calls that were accepted. -/
theorem coherent_run (rootId : Option PackageId) (calls : List Call) :
    Coherent rootId (run rootId calls).1 (run rootId calls).2 := by
  have h : Represents rootId (run rootId calls).1 (run rootId calls).2 := represents_of_run rfl
  exact {
    index_iff := h.indexed.index
    idOf_root := h.root_id
    named := h.indexed.named
    rooted := rooted_run rootId calls
    edges_nodup := h.recorded.edges_nodup
    edge_iff := h.edge_iff_joins
    declared_once := h.declared_once
    size_eq := h.size_eq
    edge_of_tag := fun v x hx g hg t ht => h.edge_of_tag hx hg ht
    tagged_iff := fun v x hx w t => h.tagged_iff hx w }

end PackageManager.DependencySet
