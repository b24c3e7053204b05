import PackageManager.Proofs.BuildGraph.Dependencies
import PackageManager.Proofs.Ordered.Size

/-!
# What a project refers to

A project mentions targets and imports by their names: an import stands for a target, a target
names its dependencies, and it names the imports it uses. A build graph is made if all of these are
there. If some are not, the one that is looked at first is to blame.

## Why one list of references is enough

A graph is made in two passes, one through the imports and one through the targets, and each target
is checked in two turns. None of them looks at anything but references, so the outcome is that of
one check of all references in their order (`create_outcome`).

## Main results

* `references_ascending`, `mem_references` — the references of a project in the order in which they
  are looked at.
* `create_outcome` — a project is refused with the first fault among its references.
* `create_exact` — which projects have a build graph, what the others are refused for, and what a
  build graph consists of.
-/

namespace PackageManager

/-- A place where a project means a target or an import by its name. -/
inductive Reference
  /-- An import stands for a target. -/
  | standsFor (importName target : String)
  /-- A target depends on another. -/
  | dependsOn (target dependency : String)
  /-- A target uses an import. -/
  | uses (target importName : String)
deriving DecidableEq

namespace Reference

/-- A project has the reference. -/
def OccursIn (targets : TargetStore) (imports : ImportStore) : Reference → Prop
  | .standsFor i t => imports.get? i = some (.target t)
  | .dependsOn n d => ∃ t, targets.get? n = some t ∧ d ∈ t.depends
  | .uses n i => ∃ t, targets.get? n = some t ∧ i ∈ t.imports

/-- What is meant is not there. -/
def dangles (targets : TargetStore) (imports : ImportStore) : Reference → Bool
  | .standsFor _ t => !targets.contains t
  | .dependsOn _ d => !targets.contains d
  | .uses _ i => !imports.contains i

/-- What is wrong if it is not there. -/
def fault : Reference → Fault
  | .standsFor i t => .config (.importWithoutTarget i t)
  | .dependsOn n d => .config (.targetWithoutTarget n d)
  | .uses n i => .config (.targetWithoutImport n i)

/-- The order in which references are looked at: those of the imports by the names of the imports,
then those of the targets by the names of the targets. Of one target, the dependencies come before
the imports it uses, both by their names. -/
def Before : Reference → Reference → Prop
  | .standsFor i _, .standsFor j _ => i < j
  | .standsFor _ _, _ => True
  | _, .standsFor _ _ => False
  | .dependsOn m d, .dependsOn n e => m < n ∨ m = n ∧ d < e
  | .dependsOn m _, .uses n _ => m < n ∨ m = n
  | .uses m _, .dependsOn n _ => m < n
  | .uses m i, .uses n j => m < n ∨ m = n ∧ i < j

theorem Before.asymm {r r' : Reference} (h : r.Before r') : ¬r'.Before r := by
  cases r <;> cases r' <;> simp only [Before] at h ⊢ <;> grind [String.lt_asymm]

/-- Refuses a reference to something that is not there. -/
def check (targets : TargetStore) (imports : ImportStore) (r : Reference) : Except Fault Unit :=
  if r.dangles targets imports then .error r.fault else .ok ()

end Reference

namespace BuildGraph

variable {targets : TargetStore} {imports : ImportStore} {g : BuildGraph}

/-! ## The references of a project -/

/-- The references of an import. -/
def referencesOfImport : String × Import → List Reference
  | (i, .target t) => [.standsFor i t]
  | _ => []

/-- The references of a target. -/
def referencesOfTarget (e : String × Target) : List Reference :=
  e.2.depends.toList.map (.dependsOn e.1) ++ e.2.imports.toList.map (.uses e.1)

/-- The references of a project, in the order in which they are looked at. -/
def references (targets : TargetStore) (imports : ImportStore) : List Reference :=
  imports.entries.flatMap referencesOfImport ++ targets.entries.flatMap referencesOfTarget

theorem mem_referencesOfImport {e : String × Import} {r : Reference} :
    r ∈ referencesOfImport e ↔ ∃ t, e.2 = .target t ∧ r = .standsFor e.1 t := by
  obtain ⟨i, x⟩ := e
  cases x <;> simp [referencesOfImport]

theorem mem_referencesOfTarget {e : String × Target} {r : Reference} :
    r ∈ referencesOfTarget e ↔
      (∃ d ∈ e.2.depends, r = .dependsOn e.1 d) ∨ ∃ i ∈ e.2.imports, r = .uses e.1 i := by
  simp [referencesOfTarget, eq_comm]

/-- The list has the references of the project. -/
theorem mem_references {r : Reference} :
    r ∈ references targets imports ↔ r.OccursIn targets imports := by
  simp only [references, List.mem_append, List.mem_flatMap, mem_referencesOfImport,
    mem_referencesOfTarget]
  constructor
  · rintro (⟨⟨i, x⟩, he, t, rfl, rfl⟩ | ⟨⟨n, t⟩, he, ⟨d, hd, rfl⟩ | ⟨i, hi, rfl⟩⟩)
    · exact OrderedMap.get?_eq_some_iff.2 he
    · exact ⟨t, OrderedMap.get?_eq_some_iff.2 he, hd⟩
    · exact ⟨t, OrderedMap.get?_eq_some_iff.2 he, hi⟩
  · intro hOccurs
    cases r with
    | standsFor i t => exact .inl ⟨_, OrderedMap.get?_eq_some_iff.1 hOccurs, t, rfl, rfl⟩
    | dependsOn n d =>
        obtain ⟨t, hTarget, hd⟩ := hOccurs
        exact .inr ⟨_, OrderedMap.get?_eq_some_iff.1 hTarget, .inl ⟨d, hd, rfl⟩⟩
    | uses n i =>
        obtain ⟨t, hTarget, hi⟩ := hOccurs
        exact .inr ⟨_, OrderedMap.get?_eq_some_iff.1 hTarget, .inr ⟨i, hi, rfl⟩⟩

/-- Texts compare as they are ordered. -/
theorem lt_of_compare_eq_lt {a b : String} (h : compare a b = .lt) : a < b :=
  compareOfLessAndEq_eq_lt.1 h

theorem referencesOfTarget_ascending (e : String × Target) :
    (referencesOfTarget e).Pairwise Reference.Before := by
  refine List.pairwise_append.2 ⟨?_, ?_, ?_⟩
  · exact List.pairwise_map.2 (e.2.depends.ascending.imp fun h => .inr ⟨rfl, lt_of_compare_eq_lt h⟩)
  · exact List.pairwise_map.2 (e.2.imports.ascending.imp fun h => .inr ⟨rfl, lt_of_compare_eq_lt h⟩)
  · intro r hr r' hr'
    obtain ⟨d, -, rfl⟩ := List.mem_map.1 hr
    obtain ⟨i, -, rfl⟩ := List.mem_map.1 hr'
    exact .inr rfl

/-- The list is in the order of the references. -/
theorem references_ascending (targets : TargetStore) (imports : ImportStore) :
    (references targets imports).Pairwise Reference.Before := by
  refine List.pairwise_append.2 ⟨?_, ?_, ?_⟩
  · refine List.pairwise_flatMap.2 ⟨fun e _ => ?_, imports.ascending.imp fun h r hr r' hr' => ?_⟩
    · obtain ⟨i, x⟩ := e
      cases x <;> simp [referencesOfImport]
    · obtain ⟨t, -, rfl⟩ := mem_referencesOfImport.1 hr
      obtain ⟨t', -, rfl⟩ := mem_referencesOfImport.1 hr'
      exact lt_of_compare_eq_lt h
  · refine List.pairwise_flatMap.2 ⟨fun e _ => referencesOfTarget_ascending e,
      targets.ascending.imp fun h r hr r' hr' => ?_⟩
    have hName := lt_of_compare_eq_lt h
    rcases mem_referencesOfTarget.1 hr with ⟨d, -, rfl⟩ | ⟨i, -, rfl⟩ <;>
      rcases mem_referencesOfTarget.1 hr' with ⟨d', -, rfl⟩ | ⟨i', -, rfl⟩ <;>
      simp [Reference.Before, hName]
  · intro r hr r' hr'
    obtain ⟨e, -, he⟩ := List.mem_flatMap.1 hr
    obtain ⟨e', -, he'⟩ := List.mem_flatMap.1 hr'
    obtain ⟨t, -, rfl⟩ := mem_referencesOfImport.1 he
    rcases mem_referencesOfTarget.1 he' with ⟨d, -, rfl⟩ | ⟨i, -, rfl⟩ <;> trivial

/-! ## What a project is refused for -/

theorem checkImport_eq (e : String × Import) :
    checkImport targets e.1 e.2 =
      (referencesOfImport e).forM (Reference.check targets imports) := by
  obtain ⟨i, x⟩ := e
  cases x with
  | target t =>
      cases hThere : targets.contains t <;>
        simp [checkImport, referencesOfImport, Reference.check, Reference.dangles, Reference.fault,
          hThere, bind, Except.bind, pure, Except.pure]
  | requirement s => rfl
  | package u => rfl

/-- Of references of one kind, the first one that dangles is refused. -/
theorem forM_check_map (c : String → Reference) (l : List String) :
    (l.map c).forM (Reference.check targets imports) =
      (l.find? fun a => (c a).dangles targets imports).elim (.ok ()) fun a =>
        .error (c a).fault :=
  List.forM_map.trans forM_test

/-- The dependencies of a target are checked first, and then its imports. -/
theorem edgesFrom_outcome (e : String × Target) :
    (edgesFrom targets imports e).map (fun _ => ()) =
      (referencesOfTarget e).forM (Reference.check targets imports) := by
  have hSplit : (referencesOfTarget e).forM (Reference.check targets imports) =
      (e.2.depends.toList.map (.dependsOn e.1)).forM (Reference.check targets imports) >>= fun _ =>
        (e.2.imports.toList.map (.uses e.1)).forM (Reference.check targets imports) :=
    List.forM_append
  rw [hSplit, forM_check_map, forM_check_map, edgesFrom, dependenciesOf]
  simp only [Reference.dangles, Reference.fault]
  cases e.2.depends.toList.find? fun d => !targets.contains d with
  | some d => rfl
  | none => cases e.2.imports.toList.find? fun i => !imports.contains i <;> rfl

/-- Whether a graph is made, and what else is reported, depends on the references alone. -/
theorem create_outcome (targets : TargetStore) (imports : ImportStore) :
    (create targets imports).map (fun _ => ()) =
      (references targets imports).forM (Reference.check targets imports) := by
  have hSplit : (references targets imports).forM (Reference.check targets imports) =
      (imports.entries.flatMap referencesOfImport).forM (Reference.check targets imports) >>=
        fun _ => (targets.entries.flatMap referencesOfTarget).forM
          (Reference.check targets imports) :=
    List.forM_append
  have hImports : (imports.entries.forM fun e => checkImport targets e.1 e.2) =
      (imports.entries.flatMap referencesOfImport).forM (Reference.check targets imports) := by
    rw [forM_flatMap]
    exact congrArg imports.entries.forM (funext checkImport_eq)
  have hTargets : (targets.entries.mapM (edgesFrom targets imports)).map (fun _ => ()) =
      (targets.entries.flatMap referencesOfTarget).forM (Reference.check targets imports) := by
    rw [map_mapM, forM_flatMap]
    exact congrArg targets.entries.forM (funext edgesFrom_outcome)
  rw [hSplit, ← hImports, ← hTargets]
  unfold create
  rw [map_bind]
  congr 1
  funext u
  cases targets.entries.mapM (edgesFrom targets imports) <;> rfl

theorem check_eq_ok_iff {r : Reference} :
    r.check targets imports = .ok () ↔ r.dangles targets imports = false := by
  unfold Reference.check
  split <;> simp_all

theorem check_eq_error_iff {r : Reference} {f : Fault} :
    r.check targets imports = .error f ↔ r.dangles targets imports ∧ r.fault = f := by
  unfold Reference.check
  split <;> simp_all

/-- A graph is made iff nothing dangles. -/
theorem exists_create_iff : (∃ g, create targets imports = .ok g) ↔
    ∀ r : Reference, r.OccursIn targets imports → r.dangles targets imports = false := by
  have hOutcome : (∃ g, create targets imports = .ok g) ↔
      (create targets imports).map (fun _ => ()) = .ok () := by
    cases create targets imports <;> simp [Except.map]
  rw [hOutcome, create_outcome, forM_eq_ok_iff]
  simp only [mem_references, check_eq_ok_iff]

/-- A project is refused for the reference that dangles and comes before all others that do. -/
theorem create_eq_error_iff {f : Fault} : create targets imports = .error f ↔
    ∃ r : Reference, r.OccursIn targets imports ∧ r.dangles targets imports ∧ r.fault = f ∧
      ∀ r' : Reference, r'.OccursIn targets imports → r'.dangles targets imports →
        r' = r ∨ r.Before r' := by
  have hOutcome : create targets imports = .error f ↔
      (create targets imports).map (fun _ => ()) = .error f := by
    cases create targets imports <;> simp [Except.map]
  rw [hOutcome, create_outcome, forM_eq_error_iff_least (fun _ _ => Reference.Before.asymm)
    (references_ascending targets imports)]
  simp only [mem_references, check_eq_error_iff, ne_eq, check_eq_ok_iff, Bool.not_eq_false,
    and_assoc]

/-! ## What a build graph consists of -/

section Created

variable (hCreate : create targets imports = .ok g)

include hCreate

theorem nodup_vertices : g.graph.vertices.Nodup := by
  obtain ⟨-, edges, -, hGraph⟩ := create_eq_ok hCreate
  rw [hGraph, Digraph.vertices_foldl_addEdge]
  exact targets.nodup_keys

theorem nodup_edges : g.graph.edges.Nodup := by
  obtain ⟨-, edges, -, hGraph⟩ := create_eq_ok hCreate
  rw [hGraph]
  exact Digraph.nodup_foldl_addEdge List.nodup_nil

theorem mem_requirements_iff {s : Specifier} :
    s ∈ g.requirements ↔ ∃ i, imports.get? i = some (.requirement s) := by
  obtain ⟨u, -, hRest⟩ := ok_of_bind hCreate
  obtain ⟨edges, -, hGraph⟩ := ok_of_bind hRest
  cases hGraph
  rw [OrderedSet.mem_ofList, List.mem_filterMap]
  simp only [OrderedMap.get?_eq_some_iff]
  constructor
  · rintro ⟨⟨i, x⟩, he, hRequired⟩
    cases x <;> cases hRequired
    exact ⟨i, he⟩
  · rintro ⟨i, he⟩
    exact ⟨_, he, rfl⟩

/-- URLs are the same if their texts are. -/
theorem url_mem_packageUrls_iff {text : String} :
    (∃ u ∈ g.packageUrls, u.text = text) ↔
      ∃ i u, imports.get? i = some (.package u) ∧ u.text = text := by
  obtain ⟨u, -, hRest⟩ := ok_of_bind hCreate
  obtain ⟨edges, -, hGraph⟩ := ok_of_bind hRest
  cases hGraph
  simp only [OrderedMap.get?_eq_some_iff]
  constructor
  · rintro ⟨u, hu, hText⟩
    have hListed := OrderedSet.mem_of_mem_ofList hu
    obtain ⟨⟨i, x⟩, he, hPackage⟩ := List.mem_filterMap.1 hListed
    cases x <;> cases hPackage
    exact ⟨i, u, he, hText⟩
  · rintro ⟨i, u, he, hText⟩
    have hSet : ∀ l : List Url, u ∈ l → ∃ u' ∈ OrderedSet.ofList l, u'.text = text := by
      intro l hu
      obtain ⟨u', hu', hSame⟩ := OrderedSet.exists_mem_ofList hu
      exact ⟨u', hu', (Url.text_eq_of_compare hSame).symm.trans hText⟩
    refine hSet _ (List.mem_filterMap.2 ?_)
    exact ⟨_, he, rfl⟩

end Created

/-- A build graph is made iff no reference of the project dangles: each import that stands for a
target, each dependency of a target and each import that a target uses leads to what is there. If
some do not, the fault is that of the first of them. A build graph has each target as a vertex once,
one edge from each target to each that it depends on, by name or through an import, and no other,
and the packages that imports require or that they place at a URL. -/
theorem create_exact (targets : TargetStore) (imports : ImportStore) :
    ((∃ g, create targets imports = .ok g) ↔
      (∀ i t, imports.get? i = some (.target t) → targets.contains t) ∧
      ∀ n t, targets.get? n = some t →
        (∀ d ∈ t.depends, targets.contains d) ∧ ∀ i ∈ t.imports, imports.contains i) ∧
    (∀ f, create targets imports = .error f ↔
      ∃ r : Reference, r.OccursIn targets imports ∧ r.dangles targets imports ∧ r.fault = f ∧
        ∀ r' : Reference, r'.OccursIn targets imports → r'.dangles targets imports →
          r' = r ∨ r.Before r') ∧
    ∀ g, create targets imports = .ok g →
      (g.graph.vertices.Nodup ∧ ∀ n, n ∈ g.graph.vertices ↔ targets.contains n) ∧
      (g.graph.edges.Nodup ∧ ∀ u v, (u, v) ∈ g.graph.edges ↔ DependsOn targets imports u v) ∧
      (∀ s, s ∈ g.requirements ↔ ∃ i, imports.get? i = some (.requirement s)) ∧
      ∀ text, (∃ u ∈ g.packageUrls, u.text = text) ↔
        ∃ i u, imports.get? i = some (.package u) ∧ u.text = text := by
  refine ⟨?_, fun f => create_eq_error_iff, fun g hCreate =>
    ⟨⟨nodup_vertices hCreate, fun n => mem_vertices_iff hCreate⟩,
      ⟨nodup_edges hCreate, fun u v => edge_iff hCreate⟩,
      fun s => mem_requirements_iff hCreate, fun t => url_mem_packageUrls_iff hCreate⟩⟩
  rw [exists_create_iff]
  constructor
  · intro hNone
    refine ⟨fun i t hImport => ?_, fun n t hTarget => ⟨fun d hd => ?_, fun i hi => ?_⟩⟩
    · simpa [Reference.dangles] using hNone (.standsFor i t) hImport
    · simpa [Reference.dangles] using hNone (.dependsOn n d) ⟨t, hTarget, hd⟩
    · simpa [Reference.dangles] using hNone (.uses n i) ⟨t, hTarget, hi⟩
  · rintro ⟨hImports, hTargets⟩ r hOccurs
    cases r with
    | standsFor i t => simpa [Reference.dangles] using hImports i t hOccurs
    | dependsOn n d =>
        obtain ⟨t, hTarget, hd⟩ := hOccurs
        simpa [Reference.dangles] using (hTargets n t hTarget).1 d hd
    | uses n i =>
        obtain ⟨t, hTarget, hi⟩ := hOccurs
        simpa [Reference.dangles] using (hTargets n t hTarget).2 i hi

/-- Two targets with three references that dangle. -/
def brokenTargets : TargetStore :=
  .ofList [loopTarget "app" ["base", "lib"] ["gone"], loopTarget "lib" ["nothing"] []]

theorem create_exact_broken :
    (∃ g, create loopTargets loopImports = .ok g ∧ g.graph.edges.Nodup ∧
      ("lib", "app") ∈ g.graph.edges ∧ ("app", "base") ∉ g.graph.edges) ∧
    create brokenTargets ∅ = .error (.config (.targetWithoutTarget "app" "base")) ∧
    ∃ r : Reference, r.fault = .config (.targetWithoutTarget "app" "base") ∧
      r.Before (.uses "app" "gone") ∧ r.Before (.dependsOn "lib" "nothing") := by
  have hLoop : (create loopTargets loopImports).map (fun g => g.graph.edges) =
      .ok [("app", "lib"), ("lib", "base"), ("lib", "app")] := by decide +kernel
  have hBroken : (create brokenTargets ∅).map (fun g => g.graph.edges) =
      .error (.config (.targetWithoutTarget "app" "base")) := by decide +kernel
  have hMade : (references brokenTargets ∅) =
      [.dependsOn "app" "base", .dependsOn "app" "lib", .uses "app" "gone",
        .dependsOn "lib" "nothing"] := by decide +kernel
  obtain ⟨g, hCreate, hEdges⟩ := ok_of_map hLoop
  obtain ⟨-, -, hGraph⟩ := create_exact loopTargets loopImports
  obtain ⟨-, ⟨hNodup, -⟩, -⟩ := hGraph g hCreate
  obtain ⟨-, hFault, -⟩ := create_exact brokenTargets ∅
  have hError : create brokenTargets ∅ = .error (.config (.targetWithoutTarget "app" "base")) := by
    cases hCreated : create brokenTargets ∅ with
    | error f => simpa [hCreated, Except.map] using hBroken
    | ok g => simp [hCreated, Except.map] at hBroken
  obtain ⟨r, hOccurs, -, hMessage, hFirst⟩ := (hFault _).1 hError
  refine ⟨⟨g, hCreate, hNodup, by simp [hEdges], by simp [hEdges]⟩, hError, r, hMessage, ?_, ?_⟩
  · refine (hFirst (.uses "app" "gone") ?_ (by decide +kernel)).resolve_left ?_
    · exact mem_references.1 (by simp [hMade])
    · rintro rfl
      cases hMessage
  · refine (hFirst (.dependsOn "lib" "nothing") ?_ (by decide +kernel)).resolve_left ?_
    · exact mem_references.1 (by simp [hMade])
    · rintro rfl
      simp [Reference.fault] at hMessage

end BuildGraph

end PackageManager
