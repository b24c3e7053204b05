import Mathlib.Data.List.Nodup
import PackageManager.DependencySet
import PackageManager.Proofs.Interval.SplitMap

/-!
# What a dependency set records

A dependency set is filled by calls that declare dependencies, some of which are refused. `run` says
which set some calls leave behind and which declarations were accepted on the way, in the words of
package ids. The set itself holds numbers, an index and split maps, and this module says how the two
belong together.

## What the representation is

The edges of the set stand beside the accepted declarations, one for one and in the same order
(`links`). Both ends of an edge carry the ids that its declaration names, and what is asked of a
vertex is the sum of the declarations on the edges to it (`Recorded`). The numbers themselves are
in a bijection with the ids (`Indexed`), but for a root without an id. Every other vertex is made by
the declaration that leads to it, so it has an edge to it (`Represents.demanded`).

## Main results

* `represents_of_run` — the representation holds after any run of calls.
* `Represents.contains_iff`, `Represents.containsDependency_iff` — what the set answers about
  itself, in terms of the accepted declarations.
* `Represents.addDirect_ok`, `Represents.add_ok` — which declarations are accepted.
-/

namespace PackageManager.DependencySet

/-! ## Runs of calls -/

/-- That a package, or the project at the root, depends on another package. -/
structure Declaration where
  /-- The package that depends on the other, if it has an id. Only the root may have none. -/
  dependent : Option PackageId
  dependency : Dependency
deriving DecidableEq

/-- A call that declares a dependency. -/
inductive Call
  | direct (d : Dependency)
  | of (dependent : PackageId) (d : Dependency)
deriving DecidableEq

/-- What a call does to a set. -/
def Call.perform (s : DependencySet) : Call → Except Fault Unit × DependencySet
  | .direct d => s.addDirect d
  | .of dependent d => s.add dependent d

/-- What a call declares if it is accepted. -/
def Call.declaration (rootId : Option PackageId) : Call → Declaration
  | .direct d => ⟨rootId, d⟩
  | .of dependent d => ⟨some dependent, d⟩

/-- Makes a call, and notes its declaration behind the earlier ones if it is accepted. -/
def Call.record (rootId : Option PackageId) (t : DependencySet × List Declaration) (c : Call) :
    DependencySet × List Declaration :=
  match c.perform t.1 with
  | (.ok (), s) => (s, t.2 ++ [c.declaration rootId])
  | (.error _, s) => (s, t.2)

/-- The set that some calls lead to, and the declarations that were accepted on the way. -/
def run (rootId : Option PackageId) (calls : List Call) : DependencySet × List Declaration :=
  calls.foldl (Call.record rootId) (ofRoot rootId, [])

/-! ## Numbers and ids -/

/-- A number of a vertex. -/
def IsVertex (s : DependencySet) (v : Nat) : Prop := v < s.vertices.length

theorem isVertex_of_idOf {s : DependencySet} {v : Nat} {id : PackageId} (h : s.idOf v = some id) :
    s.IsVertex v := by
  by_contra hOut
  have hNone : s.vertices[v]? = none := List.getElem?_eq_none (Nat.not_lt.1 hOut)
  simp [idOf, hNone] at h

/-- The index leads to exactly the vertices with ids, and only the root may lack one. -/
structure Indexed (s : DependencySet) : Prop where
  root_isVertex : s.IsVertex root
  index : ∀ id v, s.index.get? id = some v ↔ s.idOf v = some id
  named : ∀ v, s.IsVertex v → v ≠ root → ∃ id, s.idOf v = some id

/-- Two vertices with the same id, or both without one, are the same. -/
theorem Indexed.idOf_injective {s : DependencySet} (h : s.Indexed) {u v : Nat}
    (hu : s.IsVertex u) (hv : s.IsVertex v) (hId : s.idOf u = s.idOf v) : u = v := by
  cases hv' : s.idOf v with
  | some id =>
      have hFromU := (h.index id u).2 (hId.trans hv')
      have hFromV := (h.index id v).2 hv'
      rw [hFromU] at hFromV
      exact Option.some.inj hFromV
  | none =>
      have hRoot : ∀ w, s.IsVertex w → s.idOf w = none → w = root := by
        intro w hw hNone
        by_contra hNe
        obtain ⟨id, hSome⟩ := h.named w hw hNe
        rw [hNone] at hSome
        cases hSome
      rw [hRoot u hu (hId.trans hv'), hRoot v hv hv']

theorem indexed_ofRoot (rootId : Option PackageId) : (ofRoot rootId).Indexed := by
  cases rootId with
  | none =>
      refine ⟨Nat.one_pos, fun id v => ?_, fun v hv hNe => absurd (Nat.lt_one_iff.1 hv) hNe⟩
      have hNone : (ofRoot none).idOf v = none := by
        cases v with
        | zero => rfl
        | succ v => rfl
      rw [hNone]
      exact ⟨fun h => (nomatch h), fun h => (nomatch h)⟩
  | some rootId =>
      refine ⟨Nat.one_pos, fun id v => ?_, fun v hv hNe => absurd (Nat.lt_one_iff.1 hv) hNe⟩
      have hIndex : (ofRoot (some rootId)).index.get? id =
          if id = rootId then some root else none :=
        OrderedMap.get?_insert _ _ _ _
      rw [hIndex]
      cases v with
      | zero =>
          have hRoot : (ofRoot (some rootId)).idOf 0 = some rootId := rfl
          rw [hRoot]
          split
          · next hEq => simp [hEq, root]
          · next hNe => simp [Ne.symm hNe]
      | succ v =>
          have hNone : (ofRoot (some rootId)).idOf (v + 1) = none := rfl
          rw [hNone]
          split
          · simp [root]
          · simp

/-! ## Edges and declarations -/

/-- The edges of a set beside the declarations that have brought them about. -/
def links (s : DependencySet) (ds : List Declaration) : List ((Nat × Nat) × Declaration) :=
  s.edges.zip ds

/-- One of the requirements of a declaration admits a version. -/
def Declaration.Admits (d : Declaration) (v : Version) : Prop :=
  ∃ r ∈ d.dependency.requirements, r.satisfiedBy v

theorem within_intervals {d : Declaration} {v : Version} :
    Within d.dependency.intervals v ↔ d.Admits v := by
  simp [Within, Dependency.intervals, Declaration.Admits, Requirement.satisfiedBy]

/-- The edges and the demands of a set are those of some declarations. -/
structure Recorded (s : DependencySet) (ds : List Declaration) : Prop where
  length_eq : s.edges.length = ds.length
  edges_nodup : s.edges.Nodup
  source : ∀ u v d, ((u, v), d) ∈ s.links ds → s.IsVertex u ∧ s.idOf u = d.dependent
  target : ∀ u v d, ((u, v), d) ∈ s.links ds → s.idOf v = some d.dependency.id
  wellFormed : ∀ (v : Nat) x, s.vertices[v]? = some x → x.demand.WellFormed
  /-- A vertex asks for the versions that its declaration admits. -/
  covers : ∀ (v : Nat) x, s.vertices[v]? = some x → ∀ w u, x.demand.Covers w u ↔
    ∃ d, ((u, v), d) ∈ s.links ds ∧ d.Admits w

theorem recorded_ofRoot (rootId : Option PackageId) : (ofRoot rootId).Recorded [] := by
  have hNoEdge : (ofRoot rootId).edges = [] := by
    cases rootId with
    | none => rfl
    | some id => rfl
  have hDemand : ∀ (v : Nat) x, (ofRoot rootId).vertices[v]? = some x → x.demand = ∅ := by
    intro v x hx
    have hMem := List.mem_of_getElem? hx
    cases rootId with
    | none => exact List.mem_singleton.1 hMem ▸ rfl
    | some id => exact List.mem_singleton.1 hMem ▸ rfl
  refine {
    length_eq := by simp [hNoEdge]
    edges_nodup := by simp [hNoEdge]
    source := by simp [links]
    target := by simp [links]
    wellFormed := ?_
    covers := ?_ }
  · intro v x hx
    rw [hDemand v x hx]
    exact SplitMap.wellFormed_empty
  · intro v x hx w u
    rw [hDemand v x hx]
    simp [links]

variable {s : DependencySet} {ds : List Declaration}

/-- Each edge has a declaration. -/
theorem Recorded.exists_link_of_edge (h : s.Recorded ds) {e : Nat × Nat} (he : e ∈ s.edges) :
    ∃ d, (e, d) ∈ s.links ds := by
  have hMap : (s.links ds).map (·.1) = s.edges :=
    List.map_fst_zip (Nat.le_of_eq h.length_eq)
  rw [← hMap] at he
  obtain ⟨⟨e', d⟩, hLink, rfl⟩ := List.mem_map.1 he
  exact ⟨d, hLink⟩

/-- Each declaration has an edge. -/
theorem Recorded.exists_link_of_mem (h : s.Recorded ds) {d : Declaration} (hd : d ∈ ds) :
    ∃ u v, ((u, v), d) ∈ s.links ds := by
  have hMap : (s.links ds).map (·.2) = ds :=
    List.map_snd_zip (Nat.le_of_eq h.length_eq.symm)
  rw [← hMap] at hd
  obtain ⟨⟨⟨u, v⟩, d'⟩, hLink, rfl⟩ := List.mem_map.1 hd
  exact ⟨u, v, hLink⟩

theorem edge_of_link {e : Nat × Nat} {d : Declaration} (hLink : (e, d) ∈ s.links ds) :
    e ∈ s.edges :=
  (List.of_mem_zip hLink).1

theorem mem_of_link {e : Nat × Nat} {d : Declaration} (hLink : (e, d) ∈ s.links ds) : d ∈ ds :=
  (List.of_mem_zip hLink).2

/-- No edge is declared twice. -/
theorem Recorded.link_unique (h : s.Recorded ds) {e : Nat × Nat} {d d' : Declaration}
    (hd : (e, d) ∈ s.links ds) (hd' : (e, d') ∈ s.links ds) : d = d' := by
  have hMap : (s.links ds).map (·.1) = s.edges := List.map_fst_zip (Nat.le_of_eq h.length_eq)
  have hNodup : ((s.links ds).map (·.1)).Nodup := hMap ▸ h.edges_nodup
  exact congrArg Prod.snd (List.inj_on_of_nodup_map hNodup hd hd' rfl)

/-! ## A new vertex -/

/-- The set with a vertex for a package that has none. -/
def extend (s : DependencySet) (id : PackageId) : DependencySet :=
  { s with
    vertices := s.vertices ++ [{ id }]
    index := s.index.insert id s.vertices.length }

theorem isVertex_extend {id : PackageId} {v : Nat} :
    (s.extend id).IsVertex v ↔ s.IsVertex v ∨ v = s.vertices.length := by
  have hLength : (s.extend id).vertices.length = s.vertices.length + 1 := by simp [extend]
  unfold IsVertex
  omega

theorem getElem?_extend (s : DependencySet) (id : PackageId) (v : Nat) :
    (s.extend id).vertices[v]? =
      if v = s.vertices.length then some { id := some id } else s.vertices[v]? := by
  show (s.vertices ++ [({ id := some id } : Vertex)])[v]? = _
  split
  · next hNew =>
      rw [hNew]
      exact List.getElem?_concat_length
  · next hOld =>
      rcases Nat.lt_or_gt_of_ne hOld with hIn | hOut
      · exact List.getElem?_append_left hIn
      · rw [List.getElem?_eq_none (Nat.le_of_lt hOut)]
        refine List.getElem?_eq_none ?_
        rw [List.length_append]
        exact hOut

theorem idOf_extend (s : DependencySet) (id : PackageId) (v : Nat) :
    (s.extend id).idOf v = if v = s.vertices.length then some id else s.idOf v := by
  rw [idOf, getElem?_extend]
  split
  · rfl
  · rfl

/-- The ids that are there stay where they are. -/
theorem idOf_extend_of_isVertex {id : PackageId} {v : Nat} (hv : s.IsVertex v) :
    (s.extend id).idOf v = s.idOf v := by
  rw [idOf_extend, if_neg (Nat.ne_of_lt hv)]

theorem Indexed.extend (h : s.Indexed) {id : PackageId} (hNew : ∀ v, s.idOf v ≠ some id) :
    (s.extend id).Indexed where
  root_isVertex := isVertex_extend.2 (.inl h.root_isVertex)
  index := by
    intro id' v
    have hIndex : (s.extend id).index.get? id' =
        if id' = id then some s.vertices.length else s.index.get? id' :=
      OrderedMap.get?_insert _ _ _ _
    rw [hIndex, idOf_extend]
    by_cases hId : id' = id
    · subst hId
      rw [if_pos rfl]
      split
      · next hv => simp [hv]
      · next hv => simp [Ne.symm hv, hNew v]
    · rw [if_neg hId, h.index]
      split
      · next hv =>
          have hNone : s.idOf v ≠ some id' := fun hSome =>
            Nat.lt_irrefl _ (hv ▸ isVertex_of_idOf hSome)
          simp [hNone, Ne.symm hId]
      · rfl
  named := by
    intro v hv hRoot
    rw [idOf_extend]
    split
    · exact ⟨id, rfl⟩
    · next hOld => exact h.named v ((isVertex_extend.1 hv).resolve_right hOld) hRoot

theorem Recorded.extend (h : s.Recorded ds) (id : PackageId) : (s.extend id).Recorded ds where
  length_eq := h.length_eq
  edges_nodup := h.edges_nodup
  source := by
    intro u v d hLink
    obtain ⟨hu, hId⟩ := h.source u v d hLink
    exact ⟨isVertex_extend.2 (.inl hu), (idOf_extend_of_isVertex hu).trans hId⟩
  target := by
    intro u v d hLink
    have hId := h.target u v d hLink
    exact (idOf_extend_of_isVertex (isVertex_of_idOf hId)).trans hId
  wellFormed := by
    intro v x hx
    rw [getElem?_extend] at hx
    split at hx
    · cases hx
      exact SplitMap.wellFormed_empty
    · exact h.wellFormed v x hx
  covers := by
    intro v x hx w u
    rw [getElem?_extend] at hx
    split at hx
    · next hv =>
        cases hx
        refine iff_of_false (SplitMap.not_covers_empty w u) ?_
        rintro ⟨d, hLink, -⟩
        exact Nat.lt_irrefl _ (hv ▸ isVertex_of_idOf (h.target u v d hLink))
    · exact h.covers v x hx w u

/-- The vertex of a package is found, or it is a new one. -/
theorem Indexed.vertexOf_cases (h : s.Indexed) (id : PackageId) :
    (∃ v, s.idOf v = some id ∧ s.vertexOf id = (v, s)) ∨
      (∀ v, s.idOf v ≠ some id) ∧ s.vertexOf id = (s.vertices.length, s.extend id) := by
  cases hIndex : s.index.get? id with
  | some v =>
      refine .inl ⟨v, (h.index id v).1 hIndex, ?_⟩
      simp [vertexOf, hIndex]
  | none =>
      refine .inr ⟨fun v hv => ?_, ?_⟩
      · have hSome := (h.index id v).2 hv
        rw [hIndex] at hSome
        cases hSome
      · simp [vertexOf, hIndex, DependencySet.extend]

/-! ## A new edge -/

/-- The set with an edge, and with what is asked for along it. -/
def connect (s : DependencySet) (u v : Nat) (d : Dependency) : DependencySet :=
  d.intervals.foldl (fun s i => s.ask u v i) { s with edges := s.edges ++ [(u, v)] }

theorem declare_eq (s : DependencySet) (u : Nat) (d : Dependency) : s.declare u d =
    if (u, (s.vertexOf d.id).1) ∈ (s.vertexOf d.id).2.edges then
      (.error (.graph (.alreadyDeclared d.id ((s.vertexOf d.id).2.idOf u))), (s.vertexOf d.id).2)
    else (.ok (), (s.vertexOf d.id).2.connect u (s.vertexOf d.id).1 d) := rfl

/-- A package in the set declares as its vertex does. -/
theorem add_eq_declare {dependent : PackageId} {u : Nat} (hIndex : s.index.get? dependent = some u)
    (d : Dependency) : s.add dependent d = s.declare u d := by
  simp [add, hIndex]

/-- A package that is not in the set declares nothing. -/
theorem add_eq_error {dependent : PackageId} (hIndex : s.index.get? dependent = none)
    (d : Dependency) : s.add dependent d = (.error (.graph (.missingDependent dependent)), s) := by
  simp [add, hIndex]

/-- Asking for several intervals changes the demand of one vertex. -/
theorem foldl_ask (u v : Nat) (l : List Interval) (s : DependencySet) :
    l.foldl (fun s i => s.ask u v i) s = { s with
      vertices := s.vertices.modify v fun x =>
        { x with demand := l.foldl (fun m i => m.insert i u) x.demand } } := by
  induction l generalizing s with
  | nil =>
      show s = { s with vertices := s.vertices.modify v id }
      rw [List.modify_id]
  | cons i l ih =>
      rw [List.foldl_cons, ih]
      simp only [ask, List.foldl_cons, List.modify_modify_eq]
      rfl

@[simp] theorem edges_connect (s : DependencySet) (u v : Nat) (d : Dependency) :
    (s.connect u v d).edges = s.edges ++ [(u, v)] := by
  rw [connect, foldl_ask]

@[simp] theorem index_connect (s : DependencySet) (u v : Nat) (d : Dependency) :
    (s.connect u v d).index = s.index := by
  rw [connect, foldl_ask]

theorem getElem?_connect (s : DependencySet) (u v : Nat) (d : Dependency) (w : Nat) :
    (s.connect u v d).vertices[w]? = s.vertices[w]?.map fun x =>
      if v = w then { x with demand := d.intervals.foldl (fun m i => m.insert i u) x.demand }
      else x := by
  rw [connect, foldl_ask]
  show (s.vertices.modify v _)[w]? = _
  rw [List.getElem?_modify]
  split
  · rfl
  · simp

@[simp] theorem idOf_connect (s : DependencySet) (u v : Nat) (d : Dependency) (w : Nat) :
    (s.connect u v d).idOf w = s.idOf w := by
  rw [idOf, getElem?_connect, idOf]
  cases s.vertices[w]? with
  | none => rfl
  | some x =>
      show (if v = w then _ else x).id = x.id
      split
      · rfl
      · rfl

@[simp] theorem isVertex_connect {u v w : Nat} {d : Dependency} :
    (s.connect u v d).IsVertex w ↔ s.IsVertex w := by
  rw [connect, foldl_ask]
  unfold IsVertex
  rw [List.length_modify]

theorem Indexed.connect (h : s.Indexed) (u v : Nat) (d : Dependency) :
    (s.connect u v d).Indexed where
  root_isVertex := isVertex_connect.2 h.root_isVertex
  index := by
    intro id w
    rw [index_connect, idOf_connect]
    exact h.index id w
  named := by
    intro w hw hRoot
    rw [idOf_connect]
    exact h.named w (isVertex_connect.1 hw) hRoot

/-- An edge stands beside its declaration, behind the others. -/
theorem mem_links_connect (h : s.Recorded ds) {u v : Nat} {d : Dependency} {x : Declaration}
    {e : (Nat × Nat) × Declaration} :
    e ∈ (s.connect u v d).links (ds ++ [x]) ↔ e ∈ s.links ds ∨ e = ((u, v), x) := by
  rw [links, edges_connect, List.zip_append h.length_eq, List.mem_append]
  simp [links]

theorem Recorded.connect (h : s.Recorded ds) {u v : Nat} {d : Dependency} (hu : s.IsVertex u)
    (hv : s.idOf v = some d.id) (hNew : (u, v) ∉ s.edges) :
    (s.connect u v d).Recorded (ds ++ [⟨s.idOf u, d⟩]) where
  length_eq := by simp [h.length_eq]
  edges_nodup := by
    rw [edges_connect]
    refine List.nodup_append.2 ⟨h.edges_nodup, List.nodup_singleton _, ?_⟩
    intro e he e' he' hEq
    rw [hEq, List.mem_singleton.1 he'] at he
    exact hNew he
  source := by
    intro u' v' d' hLink
    rw [isVertex_connect, idOf_connect]
    rcases (mem_links_connect h).1 hLink with hLink | hLink
    · exact h.source u' v' d' hLink
    · cases hLink
      exact ⟨hu, rfl⟩
  target := by
    intro u' v' d' hLink
    rw [idOf_connect]
    rcases (mem_links_connect h).1 hLink with hLink | hLink
    · exact h.target u' v' d' hLink
    · cases hLink
      exact hv
  wellFormed := by
    intro v' x' hx'
    rw [getElem?_connect] at hx'
    obtain ⟨x, hx, rfl⟩ := Option.map_eq_some_iff.1 hx'
    have hWell := h.wellFormed v' x hx
    split
    · exact SplitMap.wellFormed_foldl_insert _ u hWell
    · exact hWell
  covers := by
    intro v' x' hx' w t
    rw [getElem?_connect] at hx'
    obtain ⟨x, hx, rfl⟩ := Option.map_eq_some_iff.1 hx'
    have hOld := h.covers v' x hx w t
    split
    · next hSame =>
        subst hSame
        rw [SplitMap.covers_foldl_insert _ (h.wellFormed v x hx), hOld]
        constructor
        · rintro (⟨d', hLink, hIn⟩ | ⟨hIn, rfl⟩)
          · exact ⟨d', (mem_links_connect h).2 (.inl hLink), hIn⟩
          · exact ⟨_, (mem_links_connect h).2 (.inr rfl), within_intervals.1 hIn⟩
        · rintro ⟨d', hLink, hIn⟩
          rcases (mem_links_connect h).1 hLink with hLink | hLink
          · exact .inl ⟨d', hLink, hIn⟩
          · cases hLink
            exact .inr ⟨within_intervals.2 hIn, rfl⟩
    · next hOther =>
        rw [hOld]
        refine exists_congr fun d' => and_congr_left fun _ => ?_
        rw [mem_links_connect h]
        refine ⟨.inl, fun hLink => hLink.resolve_right fun hNew => ?_⟩
        cases hNew
        exact hOther rfl

/-! ## The representation -/

/-- The set represents a root with the given id and some accepted declarations. -/
structure Represents (rootId : Option PackageId) (s : DependencySet) (ds : List Declaration) :
    Prop where
  indexed : s.Indexed
  recorded : s.Recorded ds
  root_id : s.idOf root = rootId
  /-- Something depends on each vertex but the root. -/
  demanded : ∀ v, s.IsVertex v → v ≠ root → ∃ u, (u, v) ∈ s.edges

variable {rootId : Option PackageId}

theorem represents_ofRoot (rootId : Option PackageId) : Represents rootId (ofRoot rootId) [] where
  indexed := indexed_ofRoot rootId
  recorded := recorded_ofRoot rootId
  root_id := by
    cases rootId with
    | none => rfl
    | some id => rfl
  demanded := by
    intro v hv hRoot
    have hFirst : v < 1 := by
      cases rootId with
      | none => exact hv
      | some id => exact hv
    exact absurd (Nat.lt_one_iff.1 hFirst) hRoot

/-- A declaration of a vertex is refused if the edge is there, and changes nothing then. Otherwise
it is accepted. -/
theorem Represents.declare_cases (h : Represents rootId s ds) {u : Nat} (hu : s.IsVertex u)
    (d : Dependency) :
    (∃ v, s.idOf v = some d.id ∧ (u, v) ∈ s.edges ∧
        s.declare u d = (.error (.graph (.alreadyDeclared d.id (s.idOf u))), s)) ∨
      (∀ v, s.idOf v = some d.id → (u, v) ∉ s.edges) ∧
        ∃ s', s.declare u d = (.ok (), s') ∧ Represents rootId s' (ds ++ [⟨s.idOf u, d⟩]) := by
  rcases h.indexed.vertexOf_cases d.id with ⟨v, hId, hVertex⟩ | ⟨hNew, hVertex⟩
  · rw [declare_eq, hVertex]
    by_cases hEdge : (u, v) ∈ s.edges
    · exact .inl ⟨v, hId, hEdge, if_pos hEdge⟩
    · refine .inr ⟨fun v' hId' => ?_, s.connect u v d, if_neg hEdge, ?_⟩
      · have hSame := h.indexed.idOf_injective (isVertex_of_idOf hId') (isVertex_of_idOf hId)
          (hId'.trans hId.symm)
        exact hSame ▸ hEdge
      · refine ⟨h.indexed.connect u v d, h.recorded.connect hu hId hEdge,
          (idOf_connect s u v d root).trans h.root_id, fun w hw hRoot => ?_⟩
        obtain ⟨t, ht⟩ := h.demanded w (isVertex_connect.1 hw) hRoot
        exact ⟨t, by simp [ht]⟩
  · have hNoEdge : (u, s.vertices.length) ∉ s.edges := by
      intro hEdge
      obtain ⟨d', hLink⟩ := h.recorded.exists_link_of_edge hEdge
      exact Nat.lt_irrefl _ (isVertex_of_idOf (h.recorded.target _ _ _ hLink))
    have hId : (s.extend d.id).idOf s.vertices.length = some d.id := by
      rw [idOf_extend, if_pos rfl]
    have hSource : (s.extend d.id).idOf u = s.idOf u := idOf_extend_of_isVertex hu
    rw [declare_eq, hVertex]
    refine .inr ⟨fun v hv => absurd hv (hNew v), (s.extend d.id).connect u s.vertices.length d,
      if_neg hNoEdge, ?_⟩
    have hRecorded := (h.recorded.extend d.id).connect (isVertex_extend.2 (.inl hu)) hId hNoEdge
    rw [hSource] at hRecorded
    refine ⟨(h.indexed.extend hNew).connect u _ d, hRecorded, ?_, fun w hw hRoot => ?_⟩
    · rw [idOf_connect, idOf_extend_of_isVertex h.indexed.root_isVertex, h.root_id]
    · rw [isVertex_connect, isVertex_extend] at hw
      rcases hw with hw | rfl
      · obtain ⟨t, ht⟩ := h.demanded w hw hRoot
        refine ⟨t, ?_⟩
        rw [edges_connect]
        exact List.mem_append_left _ ht
      · refine ⟨u, ?_⟩
        rw [edges_connect]
        exact List.mem_append_right _ (List.mem_singleton.2 rfl)

/-- What a call can do: it is refused and changes nothing, or it is accepted. -/
theorem Represents.perform_cases (h : Represents rootId s ds) (c : Call) :
    (∃ f, c.perform s = (.error f, s)) ∨
      ∃ s', c.perform s = (.ok (), s') ∧ Represents rootId s' (ds ++ [c.declaration rootId]) := by
  cases c with
  | direct d =>
      have hCases := h.declare_cases h.indexed.root_isVertex d
      rw [h.root_id] at hCases
      rcases hCases with ⟨v, -, -, hRefused⟩ | ⟨-, hAccepted⟩
      · exact .inl ⟨_, hRefused⟩
      · exact .inr hAccepted
  | of dependent d =>
      cases hIndex : s.index.get? dependent with
      | none => exact .inl ⟨_, add_eq_error hIndex d⟩
      | some u =>
          have hId := (h.indexed.index dependent u).1 hIndex
          have hCases := h.declare_cases (isVertex_of_idOf hId) d
          rw [hId, ← add_eq_declare hIndex] at hCases
          rcases hCases with ⟨v, -, -, hRefused⟩ | ⟨-, hAccepted⟩
          · exact .inl ⟨_, hRefused⟩
          · exact .inr hAccepted

/-- A call keeps the representation, whether it is accepted or not. -/
theorem Represents.record {t : DependencySet × List Declaration} (h : Represents rootId t.1 t.2)
    (c : Call) : Represents rootId (c.record rootId t).1 (c.record rootId t).2 := by
  unfold Call.record
  rcases h.perform_cases c with ⟨f, hRefused⟩ | ⟨s', hAccepted, hNext⟩
  · rw [hRefused]
    exact h
  · rw [hAccepted]
    exact hNext

/-- After any run of calls the set represents the declarations that were accepted. -/
theorem represents_of_run {calls : List Call} (hRun : run rootId calls = (s, ds)) :
    Represents rootId s ds := by
  have hFold : Represents rootId (run rootId calls).1 (run rootId calls).2 :=
    List.foldlRecOn (motive := fun t : DependencySet × _ => Represents rootId t.1 t.2) calls _
      (represents_ofRoot rootId) fun _ h c _ => h.record c
  rw [hRun] at hFold
  exact hFold

/-! ## What the set answers -/

/-- Some declarations say that one package, or the project, depends on another. -/
def Declares (ds : List Declaration) (dependent : Option PackageId) (id : PackageId) : Prop :=
  ∃ d ∈ ds, d.dependent = dependent ∧ d.dependency.id = id

/-- A declaration is about two vertices: it says that the first of them depends on the second. -/
def Declaration.Joins (d : Declaration) (s : DependencySet) (u v : Nat) : Prop :=
  s.IsVertex u ∧ s.idOf u = d.dependent ∧ s.idOf v = some d.dependency.id

namespace Represents

/-- An edge stands beside a declaration iff its ends are what the declaration names. -/
theorem mem_links_iff (h : Represents rootId s ds) {u v : Nat} {d : Declaration} :
    ((u, v), d) ∈ s.links ds ↔ d ∈ ds ∧ d.Joins s u v := by
  constructor
  · intro hLink
    obtain ⟨hu, hSource⟩ := h.recorded.source u v d hLink
    exact ⟨mem_of_link hLink, hu, hSource, h.recorded.target u v d hLink⟩
  · rintro ⟨hd, hu, hSource, hTarget⟩
    obtain ⟨u', v', hLink⟩ := h.recorded.exists_link_of_mem hd
    obtain ⟨hu', hSource'⟩ := h.recorded.source u' v' d hLink
    have hTarget' := h.recorded.target u' v' d hLink
    obtain rfl := h.indexed.idOf_injective hu' hu (hSource'.trans hSource.symm)
    obtain rfl := h.indexed.idOf_injective (isVertex_of_idOf hTarget') (isVertex_of_idOf hTarget)
      (hTarget'.trans hTarget.symm)
    exact hLink

/-- An edge between two vertices is a declaration about their ids. -/
theorem edge_iff (h : Represents rootId s ds) {u v : Nat} {id : PackageId} (hu : s.IsVertex u)
    (hv : s.idOf v = some id) : (u, v) ∈ s.edges ↔ Declares ds (s.idOf u) id := by
  constructor
  · intro hEdge
    obtain ⟨d, hLink⟩ := h.recorded.exists_link_of_edge hEdge
    have hTarget := h.recorded.target u v d hLink
    refine ⟨d, mem_of_link hLink, (h.recorded.source u v d hLink).2.symm, ?_⟩
    exact Option.some.inj (hTarget.symm.trans hv)
  · rintro ⟨d, hd, hDependent, rfl⟩
    exact edge_of_link (h.mem_links_iff.2 ⟨hd, hu, hDependent.symm, hv⟩)

/-- A package that is depended on is a vertex. -/
theorem exists_vertex_of_declares (h : Represents rootId s ds) {dependent : Option PackageId}
    {id : PackageId} (hDeclares : Declares ds dependent id) : ∃ v, s.idOf v = some id := by
  obtain ⟨d, hd, -, rfl⟩ := hDeclares
  obtain ⟨u, v, hLink⟩ := h.recorded.exists_link_of_mem hd
  exact ⟨v, h.recorded.target u v d hLink⟩

/-- The vertices beside the root are the packages that something depends on. -/
theorem exists_vertex_iff (h : Represents rootId s ds) {id : PackageId} :
    (∃ v, v ≠ root ∧ s.idOf v = some id) ↔ (∃ x, Declares ds x id) ∧ rootId ≠ some id := by
  constructor
  · rintro ⟨v, hRoot, hId⟩
    obtain ⟨u, hEdge⟩ := h.demanded v (isVertex_of_idOf hId) hRoot
    obtain ⟨d, hLink⟩ := h.recorded.exists_link_of_edge hEdge
    have hSource := (h.recorded.source u v d hLink).1
    refine ⟨⟨_, (h.edge_iff hSource hId).1 hEdge⟩, fun hRootId => hRoot ?_⟩
    exact h.indexed.idOf_injective (isVertex_of_idOf hId) h.indexed.root_isVertex
      (hId.trans (h.root_id.trans hRootId).symm)
  · rintro ⟨⟨x, hDeclares⟩, hRootId⟩
    obtain ⟨v, hId⟩ := h.exists_vertex_of_declares hDeclares
    refine ⟨v, fun hRoot => hRootId ?_, hId⟩
    rw [← h.root_id, ← hRoot, hId]

theorem contains_iff_idOf (h : Represents rootId s ds) {id : PackageId} :
    s.contains id ↔ ∃ v, s.idOf v = some id := by
  rw [contains, OrderedMap.contains, Option.isSome_iff_exists]
  exact exists_congr fun v => h.indexed.index id v

/-- The packages in a set are its root and those that something depends on. -/
theorem contains_iff (h : Represents rootId s ds) {id : PackageId} :
    s.contains id ↔ rootId = some id ∨ ∃ dependent, Declares ds dependent id := by
  rw [h.contains_iff_idOf]
  constructor
  · rintro ⟨v, hv⟩
    by_cases hRoot : v = root
    · exact .inl (h.root_id.symm.trans (hRoot ▸ hv))
    · obtain ⟨u, hEdge⟩ := h.demanded v (isVertex_of_idOf hv) hRoot
      obtain ⟨d, hLink⟩ := h.recorded.exists_link_of_edge hEdge
      exact .inr ⟨_, (h.edge_iff (h.recorded.source u v d hLink).1 hv).1 hEdge⟩
  · rintro (hRoot | ⟨dependent, hDeclares⟩)
    · exact ⟨root, h.root_id.trans hRoot⟩
    · exact h.exists_vertex_of_declares hDeclares

theorem containsDependency_iff (h : Represents rootId s ds) {dependent id : PackageId} :
    s.containsDependency dependent id ↔ Declares ds (some dependent) id := by
  constructor
  · intro hContains
    unfold containsDependency at hContains
    split at hContains
    · next u v hu hv =>
        have hu := (h.indexed.index dependent u).1 hu
        have hv := (h.indexed.index id v).1 hv
        rw [← hu]
        exact (h.edge_iff (isVertex_of_idOf hu) hv).1 (of_decide_eq_true hContains)
    · cases hContains
  · intro hDeclares
    obtain ⟨d, hd, hDependent, rfl⟩ := hDeclares
    obtain ⟨u, v, hLink⟩ := h.recorded.exists_link_of_mem hd
    have hu := (h.recorded.source u v d hLink).2.trans hDependent
    have hv := h.recorded.target u v d hLink
    unfold containsDependency
    rw [(h.indexed.index _ u).2 hu, (h.indexed.index _ v).2 hv]
    exact decide_eq_true (edge_of_link hLink)

theorem containsDirect_iff (h : Represents rootId s ds) {id : PackageId} :
    s.containsDirect id ↔ Declares ds rootId id := by
  rw [← h.root_id]
  unfold containsDirect
  cases hIndex : s.index.get? id with
  | none =>
      refine iff_of_false (by simp) fun hDeclares => ?_
      obtain ⟨v, hv⟩ := h.exists_vertex_of_declares hDeclares
      rw [(h.indexed.index id v).2 hv] at hIndex
      cases hIndex
  | some v =>
      rw [← h.edge_iff h.indexed.root_isVertex ((h.indexed.index id v).1 hIndex)]
      simp

/-- A dependency of the project is accepted if it has not been declared. -/
theorem addDirect_ok (h : Represents rootId s ds) {d : Dependency}
    (hNew : ¬Declares ds rootId d.id) : ∃ s', s.addDirect d = (.ok (), s') := by
  rcases h.declare_cases h.indexed.root_isVertex d with ⟨v, hv, hEdge, -⟩ | ⟨-, s', hDeclare, -⟩
  · have hOld := (h.edge_iff h.indexed.root_isVertex hv).1 hEdge
    rw [h.root_id] at hOld
    exact absurd hOld hNew
  · exact ⟨s', hDeclare⟩

/-- A dependency of a package in the set is accepted if it has not been declared. -/
theorem add_ok (h : Represents rootId s ds) {dependent : PackageId} {d : Dependency}
    (hIn : s.contains dependent) (hNew : ¬Declares ds (some dependent) d.id) :
    ∃ s', s.add dependent d = (.ok (), s') := by
  obtain ⟨u, hu⟩ := h.contains_iff_idOf.1 hIn
  rw [add_eq_declare ((h.indexed.index dependent u).2 hu)]
  rcases h.declare_cases (isVertex_of_idOf hu) d with ⟨v, hv, hEdge, -⟩ | ⟨-, s', hDeclare, -⟩
  · have hOld := (h.edge_iff (isVertex_of_idOf hu) hv).1 hEdge
    rw [hu] at hOld
    exact absurd hOld hNew
  · exact ⟨s', hDeclare⟩

end Represents

end PackageManager.DependencySet
