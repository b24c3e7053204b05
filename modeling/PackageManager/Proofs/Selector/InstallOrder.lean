import PackageManager.Catalog.Table
import PackageManager.Proofs.DependencySet.Resolution
import PackageManager.Proofs.Selector.Bookkeeping
import PackageManager.Proofs.Traversal

/-!
# Install orders

The selected versions are installed in the order in which a selector lists them, so everything that
a version depends on must be listed before it. This module shows that it is, and in a version that
is great enough, whatever requests were made and however earlier calls ended.

## Why nothing is missing

When the order is given out, the queue is empty. Then each dependency of a version that was expanded
has left the queue, so its edge is declared and its version was asked for. The edge puts its package
before the version that depends on it, and the pin of the package is at least what was asked for.

## Main results

* `order_satisfies_dependencies` — no package is listed twice, and each listed version stands behind
  its dependencies in versions that are at least those it asks for.
-/

namespace PackageManager.Selector

open DependencySet

/-- A selection is the pin of its package, found at the url that was noted for it. -/
theorem selectionOf_eq_ok {s : Selector} {id : PackageId} {x : Selection}
    (hSelection : s.selectionOf id = .ok x) :
    x.specifier.id = id ∧ s.pins.get? id = some x.specifier.version ∧
      ∃ e, s.expanded.get? x.specifier = some e ∧ x.url = e.url := by
  unfold selectionOf at hSelection
  split at hSelection
  · cases hSelection
  · next version hPin =>
      dsimp only at hSelection
      split at hSelection
      · cases hSelection
      · next e hNoted =>
          cases hSelection
          exact ⟨rfl, hPin, e, hNoted, rfl⟩

/-- A selection has the short name of its package, and the token of the direct request for it if
there was one, and otherwise of the request that has led to its version. -/
theorem labels_of_selectionOf {s : Selector} {id : PackageId} {y : Selection}
    (hSelection : s.selectionOf id = .ok y) : y.shortcut = s.shortcuts.get? y.specifier.id ∧
      ∃ e, s.expanded.get? y.specifier = some e ∧
        y.token = (s.directTokens.get? y.specifier.id).getD e.token := by
  unfold selectionOf at hSelection
  split at hSelection
  · cases hSelection
  · dsimp only at hSelection
    split at hSelection
    · cases hSelection
    · next e hNoted =>
        cases hSelection
        exact ⟨rfl, e, hNoted, rfl⟩

/-- The selections of some packages are listed in the order of the packages. -/
theorem mapM_selectionOf_eq_ok {s : Selector} {packages : List ResolvedPackage}
    {l : List Selection} (hSelections : packages.mapM (fun p => s.selectionOf p.id) = .ok l) :
    l.map (·.specifier.id) = packages.map (·.id) ∧
      ∀ x ∈ l, s.selectionOf x.specifier.id = .ok x := by
  have hPairs := forall₂_of_mapM hSelections
  clear hSelections
  induction hPairs with
  | nil => exact ⟨rfl, by simp⟩
  | cons hFirst _ ih =>
      obtain ⟨hIds, hAll⟩ := ih
      have hId := (selectionOf_eq_ok hFirst).1
      refine ⟨by rw [List.map_cons, List.map_cons, hIds, hId], fun x hx => ?_⟩
      rcases List.mem_cons.1 hx with rfl | hx
      · exact hId.symm ▸ hFirst
      · exact hAll x hx

theorem selections_eq_ok {s : Selector} {l : List Selection} (hSelections : s.selections = .ok l) :
    ∃ packages, s.dependencies.resolutionOrder = .ok packages ∧
      packages.mapM (fun p => s.selectionOf p.id) = .ok l := by
  unfold selections at hSelections
  cases hOrder : s.dependencies.resolutionOrder with
  | error f =>
      rw [hOrder] at hSelections
      cases hSelections
  | ok packages =>
      rw [hOrder] at hSelections
      exact ⟨packages, rfl, hSelections⟩

section Order

variable {σ : Type} {source : PackageSource σ}

/-- With an empty queue, each dependency of a version that was expanded has been worked off. -/
theorem Consistent.considered_of_expanded {s : Selector} {h : List (Step σ)}
    (hBooks : Consistent source s h) (hEmpty : s.pending = []) {c : Nat × Candidate}
    (hc : c ∈ expansions source h) {d : Specifier} (hd : d ∈ c.2.dependencies) :
    (c.2.specifier, d) ∈ considered h := by
  have hQueued := hBooks.booked.queued
  have hNone : s.waiting = [] := by
    unfold waiting
    rw [hEmpty]
    rfl
  rw [hNone, List.append_nil] at hQueued
  rw [hQueued]
  exact List.mem_flatMap.2 ⟨c, hc, List.mem_map.2 ⟨d, hd, rfl⟩⟩

/-- A version that is listed is at least each that was asked for of its package. -/
theorem Consistent.le_of_requested {s : Selector} {h : List (Step σ)}
    (hBooks : Consistent source s h) {id : PackageId} {y : Selection}
    (hSelection : s.selectionOf id = .ok y) {v : Specifier} (hv : v ∈ requested source h)
    (hId : y.specifier.id = v.id) : v.version ≤ y.specifier.version := by
  obtain ⟨hSame, hPin, -⟩ := selectionOf_eq_ok hSelection
  obtain ⟨u, hGreatest, hLe⟩ := hBooks.greatest.pin_of_mem v hv
  rw [← hSame, hId, hGreatest] at hPin
  exact Option.some.inj hPin ▸ hLe

/-- What a selector with an empty queue lists, in terms of its history. -/
theorem Consistent.exists_before {s : Selector} {h : List (Step σ)}
    (hBooks : Consistent source s h) (hEmpty : s.pending = []) {l l₁ l₂ : List Selection}
    {x : Selection} (hSelections : s.selections = .ok l) (hSplit : l = l₁ ++ x :: l₂)
    {c : Nat × Candidate} (hc : c ∈ expansions source h) (hx : c.2.specifier = x.specifier)
    {d : Specifier} (hd : d ∈ c.2.dependencies) :
    ∃ y ∈ l₁, y.specifier.id = d.id ∧ d.version ≤ y.specifier.version := by
  obtain ⟨packages, hOrder, hMap⟩ := selections_eq_ok hSelections
  obtain ⟨hIds, hAll⟩ := mapM_selectionOf_eq_ok hMap
  obtain ⟨ds, hDeclared⟩ := hBooks.declared
  obtain ⟨hNodup, hBefore⟩ := hDeclared.represents.order_topological hOrder
  have hConsidered := hBooks.considered_of_expanded hEmpty hc hd
  have hEdge := hDeclared.edge_declared _ hConsidered
  have hPrecedes := hBefore c.2.specifier.id d.id hEdge nofun nofun
  rw [← hIds] at hNodup hPrecedes
  have hIdSplit : l.map (·.specifier.id) =
      l₁.map (·.specifier.id) ++ c.2.specifier.id :: l₂.map (·.specifier.id) := by
    rw [hSplit, hx, List.map_append, List.map_cons]
  obtain ⟨y, hy, hId⟩ := List.mem_map.1 (hPrecedes.mem_of_eq_append hNodup hIdSplit)
  have hSelection := hAll y (hSplit ▸ List.mem_append_left _ hy)
  exact ⟨y, hy, hId,
    hBooks.le_of_requested hSelection (hBooks.considered_requested _ hConsidered) hId⟩

/-- Whatever calls were made on a selector, the versions that it lists are of different packages.
Each of them was expanded, and whatever package it depended on then is listed before it, in a
version that is at least the one it asked for. What a version depended on when it was expanded is
what the source has recorded of it, or what the manifest at the path requires that was asked
for. -/
theorem order_satisfies_dependencies {s s' : Selector} {h : List (Step σ)} (hRun : Run source s h)
    {fuel : Nat} {w w' : σ} {l : List Selection}
    (hOrder : order source fuel s w = some (.ok l, s', w')) :
    (l.map (·.specifier.id)).Nodup ∧
    (∀ z ∈ h ++ steps source fuel s w, ∀ c, z.expansion source = some c →
      Yields source z.request.subject z.world c.2) ∧
    ∀ l₁ x l₂, l = l₁ ++ x :: l₂ →
      (∃ c ∈ expansions source (h ++ steps source fuel s w),
        c.2.specifier = x.specifier ∧ c.2.url = x.url) ∧
      ∀ c ∈ expansions source (h ++ steps source fuel s w), c.2.specifier = x.specifier →
        ∀ d ∈ c.2.dependencies,
          ∃ y ∈ l₁, y.specifier.id = d.id ∧ d.version ≤ y.specifier.version := by
  have hBooks := consistent_of_run (hRun.order fuel w hOrder)
  rcases order_eq_some hOrder with ⟨hDrain, hSelections⟩ | ⟨f, -, hAnswer⟩
  · have hEmpty := pending_of_drain hDrain
    obtain ⟨packages, hPackages, hMap⟩ := selections_eq_ok hSelections.symm
    obtain ⟨hIds, hAll⟩ := mapM_selectionOf_eq_ok hMap
    obtain ⟨ds, hDeclared⟩ := hBooks.declared
    refine ⟨?_, fun z _ c hExpansion => (Step.yields_of_expansion hExpansion).2, ?_⟩
    · rw [hIds]
      exact (hDeclared.represents.order_topological hPackages).1
    · intro l₁ x l₂ hSplit
      refine ⟨?_, fun c hc hx d hd =>
        hBooks.exists_before hEmpty hSelections.symm hSplit hc hx hd⟩
      have hx : x ∈ l := hSplit ▸ List.mem_append_right l₁ List.mem_cons_self
      obtain ⟨-, -, e, hNoted, hUrl⟩ := selectionOf_eq_ok (hAll x hx)
      obtain ⟨c, hc, hId, rfl⟩ := (hBooks.booked.recorded _ _).1 hNoted
      exact ⟨c, hc, hId, hUrl.symm⟩
  · cases hAnswer

end Order

/-- What is installed from the table: the superseded version is not, but what it depends on is. -/
def stockOrder : List Selection :=
  [ ⟨5, stockSpecifier "d" 1, .ofFileNames ["d"], none⟩
  , ⟨4, stockSpecifier "c" 2, .ofFileNames ["c"], none⟩
  , ⟨1, stockSpecifier "a" 1, .ofFileNames ["a"], none⟩
  , ⟨2, stockSpecifier "b" 1, .ofFileNames ["b"], none⟩ ]

/-- And what is installed for the first package and the one in the file. -/
def unpackedOrder : List Selection :=
  [ ⟨5, stockSpecifier "d" 1, .ofFileNames ["d"], none⟩
  , ⟨4, stockSpecifier "c" 2, .ofFileNames ["c"], none⟩
  , ⟨1, stockSpecifier "a" 1, .ofFileNames ["a"], none⟩
  , ⟨2, stockSpecifier "t" 1, .ofFileNames ["t"], none⟩ ]

/-- What the file requires is listed before it, and so is what the other package depends on. -/
theorem order_satisfies_dependencies_superseded :
    Run unpackedSource unpackedSelector [] ∧
    (order unpackedSource 10 unpackedSelector ()).map (·.1) = some (.ok unpackedOrder) ∧
    (unpackedOrder.map (·.specifier.id)).Nodup ∧
    (∃ y ∈ unpackedOrder.take 2, y.specifier.id = ⟨"c", "x"⟩ ∧
      (stockSpecifier "c" 1).version ≤ y.specifier.version) ∧
    ∀ e ∈ unpackedPackage.manifest.requirements.entries,
      ∃ y ∈ unpackedOrder.take 3, y.specifier.id = e.1 ∧ e.2 ≤ y.specifier.version := by
  have hRun : Run unpackedSource unpackedSelector [] := .add _ _ (.add _ _ .new)
  have hAnswer : (order unpackedSource 10 unpackedSelector ()).map (·.1) =
      some (.ok unpackedOrder) := by decide +kernel
  have hExpanded : (1, ⟨stockSpecifier "a" 1, .ofFileNames ["a"], [stockSpecifier "c" 1]⟩) ∈
      expansions unpackedSource ([] ++ unpackedSteps) := by decide +kernel
  have hOfFile : ∃ x ∈ [] ++ unpackedSteps,
      (x.request.subject, (x.expansion unpackedSource).isSome) =
        (.unpacked (.ofText "/t"), true) := List.mem_map.1 (by decide +kernel)
  obtain ⟨⟨answer, s, w⟩, hOrder, hOk⟩ := Option.map_eq_some_iff.1 hAnswer
  obtain rfl : answer = .ok unpackedOrder := hOk
  obtain ⟨hNodup, hYields, hBefore⟩ := order_satisfies_dependencies hRun hOrder
  obtain ⟨-, hOfFirst⟩ := hBefore (unpackedOrder.take 2) _ (unpackedOrder.drop 3) rfl
  obtain ⟨-, hOfLast⟩ := hBefore (unpackedOrder.take 3) _ [] rfl
  refine ⟨hRun, hAnswer, hNodup, hOfFirst _ hExpanded rfl _ List.mem_cons_self, fun e he => ?_⟩
  obtain ⟨x, hx, hBoth⟩ := hOfFile
  obtain ⟨hSubject, hExpands⟩ := Prod.mk.inj hBoth
  obtain ⟨c, hExpansion⟩ := Option.isSome_iff_exists.1 hExpands
  have hFound := hYields x hx c hExpansion
  rw [hSubject] at hFound
  obtain ⟨found, hLoad, hSpecifier, -, hDependencies⟩ := hFound
  obtain rfl : unpackedPackage = found := Except.ok.inj (load_unpackedFiles.symm.trans hLoad)
  rw [← hDependencies] at he
  obtain ⟨d, hd, rfl⟩ := List.mem_map.1 he
  exact hOfLast c (List.mem_filterMap.2 ⟨x, hx, hExpansion⟩) hSpecifier d hd

end PackageManager.Selector
