import PackageManager.Proofs.Selector.DirectRequests

/-!
# Why a version is listed

Nobody wants to install what nothing asks for. A package is in the order of a selector because a
direct request found it, or because a version of another package depends on it. This module says
which version that is.

## The version that asks need not be listed

A version asks for its dependencies at the moment it becomes the pin. If a greater version of its
package is pinned later, that one asks for its own dependencies as well, and nothing takes back what
the superseded version has asked for. So the version on account of which a package is listed is
either the listed version of a package behind it, or a lesser version of that package which had been
the pin before.

## Main results

* `listed_is_asked_for` — what asks for a listed package, whatever calls were made.
* `order_lists_leftover` — a package can be listed that only a superseded version asks for.
-/

namespace PackageManager

theorem Specifier.eq_of_parts {u v : Specifier} (hId : u.id = v.id)
    (hVersion : u.version = v.version) : u = v := by
  cases u
  cases v
  simp_all

/-- What stands behind an element in a list that has only one copy of it. -/
theorem Precedes.mem_of_append_eq {α : Type} {l l₁ l₂ : List α} (hNodup : l.Nodup) {a b : α}
    (h : Precedes l a b) (hSplit : l = l₁ ++ a :: l₂) : b ∈ l₂ := by
  have hReverse : l.reverse = l₂.reverse ++ a :: l₁.reverse := by
    simp [hSplit]
  have hBefore : b ∈ l₂.reverse :=
    h.reverse.mem_of_eq_append (List.nodup_reverse.2 hNodup) hReverse
  exact List.mem_reverse.1 hBefore

namespace Selector

open DependencySet

variable {σ : Type} {source : PackageSource σ} {s s' : Selector} {made : List PendingRequest}
  {h : List (Step σ)} {faults : List Fault}

/-- A step asks for the version that its direct request finds, or it works off a dependency. -/
theorem Step.version_cases {x : Step σ} {v : Specifier} (hVersion : x.version source = some v) :
    (∃ token request shortcut c w, x.request = .direct token request shortcut ∧
      find source request x.world = (.ok c, w) ∧ c.specifier = v) ∨
    ∃ parent, x.request.dependency = some (parent, v) := by
  obtain ⟨p, s, w⟩ := x
  cases p with
  | direct token request shortcut =>
      unfold Step.version at hVersion
      rcases hFind : find source request w with ⟨f | c, w'⟩
      · simp [hFind] at hVersion
      · simp only [hFind] at hVersion
        split at hVersion
        · next c' _ hSame _ =>
            cases hSame
            exact .inl ⟨token, request, shortcut, c, w', rfl, hFind, Option.some.inj hVersion⟩
        · cases hVersion
  | transitive token parent dependency =>
      cases hVersion
      exact .inr ⟨parent, rfl⟩

/-- A dependency that has been worked off is one of a version that was expanded. -/
theorem Consistent.expanded_of_considered (hBooks : Consistent source s h)
    {e : Specifier × Specifier} (he : e ∈ considered h) :
    ∃ c ∈ expansions source h, c.2.specifier = e.1 ∧ e.2 ∈ c.2.dependencies := by
  have hQueued : e ∈ (expansions source h).flatMap fun c => asked c.2 := by
    rw [← hBooks.booked.queued]
    exact List.mem_append_left _ he
  obtain ⟨c, hc, hAsked⟩ := List.mem_flatMap.1 hQueued
  obtain ⟨d, hd, rfl⟩ := List.mem_map.1 hAsked
  exact ⟨c, hc, rfl, hd⟩

/-- A package that is asked for by a version of another package is listed before that package. -/
theorem Consistent.exists_behind (hBooks : Consistent source s h) {l l₁ l₂ : List Selection}
    {x : Selection} (hSelections : s.selections = .ok l) (hSplit : l = l₁ ++ x :: l₂)
    {e : Specifier × Specifier} (he : e ∈ considered h) (hId : e.2.id = x.specifier.id) :
    ∃ y ∈ l₂, y.specifier.id = e.1.id := by
  obtain ⟨packages, hOrder, hMap⟩ := selections_eq_ok hSelections
  obtain ⟨hIds, -⟩ := mapM_selectionOf_eq_ok hMap
  obtain ⟨ds, hDeclared⟩ := hBooks.declared
  obtain ⟨hNodup, hBefore⟩ := hDeclared.represents.order_topological hOrder
  have hPrecedes := hBefore e.1.id e.2.id (hDeclared.edge_declared e he) nofun nofun
  rw [← hIds] at hNodup hPrecedes
  have hIdSplit : l.map (·.specifier.id) =
      l₁.map (·.specifier.id) ++ e.2.id :: l₂.map (·.specifier.id) := by
    rw [hSplit, hId, List.map_append, List.map_cons]
  exact List.mem_map.1 (hPrecedes.mem_of_append_eq hNodup hIdSplit)

/-- Whatever calls were made on a selector, each package in an order that it gives out was asked for
by something that is still to be accounted for: a direct request has found it, or a package that
is listed behind it depends on it, in the listed version or in a lesser one that was the pin
before. -/
theorem listed_is_asked_for (hSession : Session source s made h faults) {fuel : Nat} {w w' : σ}
    {l l₁ l₂ : List Selection} {x : Selection}
    (hOrder : order source fuel s w = some (.ok l, s', w')) (hSplit : l = l₁ ++ x :: l₂) :
    (∃ token request shortcut, .direct token request shortcut ∈ made ∧
      ∃ z ∈ h ++ steps source fuel s w, z.request = .direct token request shortcut ∧
        ∃ c v, find source request z.world = (.ok c, v) ∧ c.specifier.id = x.specifier.id) ∨
    ∃ y ∈ l₂, ∃ c ∈ expansions source (h ++ steps source fuel s w),
      c.2.specifier.id = y.specifier.id ∧
      (c.2.specifier = y.specifier ∨ c.2.specifier.version < y.specifier.version) ∧
      ∃ d ∈ c.2.dependencies, d.id = x.specifier.id := by
  have hBooks := consistent_of_run (hSession.lifetime.order fuel w hOrder)
  have hAccounted := (hSession.order fuel w hOrder).accounted
  rcases order_eq_some hOrder with ⟨hDrain, hSelections⟩ | ⟨f, -, hAnswer⟩
  · have hx : x ∈ l := by simp [hSplit]
    obtain ⟨v, hv, hId⟩ := (hBooks.listed_iff hSelections.symm).1 ⟨x, hx, rfl⟩
    obtain ⟨z, hz, hVersion⟩ := List.mem_filterMap.1 hv
    rcases Step.version_cases hVersion with
      ⟨token, request, shortcut, c, w₁, hRequest, hFind, rfl⟩ | ⟨parent, hDependency⟩
    · have hMade : .direct token request shortcut ∈ made := by
        rw [← hAccounted]
        apply List.mem_append_left
        have hMem : z.request ∈ (h ++ steps source fuel s w).map (·.request) :=
          List.mem_map_of_mem hz
        rw [hRequest] at hMem
        exact List.mem_filter.2 ⟨hMem, rfl⟩
      exact .inl ⟨token, request, shortcut, hMade, z, hz, hRequest, c, w₁, hFind, hId⟩
    · have he : (parent, v) ∈ considered (h ++ steps source fuel s w) :=
        List.mem_filterMap.2 ⟨z, hz, hDependency⟩
      obtain ⟨c, hc, hParent, hd⟩ := hBooks.expanded_of_considered he
      obtain ⟨y, hy, hBehind⟩ := hBooks.exists_behind hSelections.symm hSplit he hId
      have hSame : c.2.specifier.id = y.specifier.id := by
        rw [hParent, hBehind]
      -- the pin is at least what was expanded, so another version that was is a lesser one
      have hLe : c.2.specifier.version ≤ y.specifier.version := by
        obtain ⟨packages, -, hMap⟩ := selections_eq_ok hSelections.symm
        have hy' : y ∈ l := by simp [hSplit, hy]
        have hSelection := (mapM_selectionOf_eq_ok hMap).2 y hy'
        exact hBooks.le_of_requested hSelection (hBooks.expanded_requested c hc) hSame.symm
      refine .inr ⟨y, hy, c, hc, hSame, ?_, v, hd, hId⟩
      by_cases hVersion : c.2.specifier.version = y.specifier.version
      · exact .inl (Specifier.eq_of_parts hSame hVersion)
      · exact .inr (Std.lt_of_le_of_ne hLe hVersion)
  · cases hAnswer

/-! ## A leftover -/

/-- The two packages of the table that are asked for directly. -/
def stockRequests : List PendingRequest :=
  [ .direct 1 (.exactly (stockSpecifier "a" 1)) none
  , .direct 2 (.exactly (stockSpecifier "b" 1)) none ]

theorem stock_session : Session stockSource stockSelector stockRequests [] [] :=
  .add _ _ (.add _ _ .new)

/-- Neither of the direct requests is for the fourth package of the table. -/
theorem not_requested_directly {token : Nat} {request : Request} {shortcut : Option String}
    (hMade : .direct token request shortcut ∈ stockRequests) {v : Specifier}
    (hAdmits : request.Admits v) : v.id ≠ ⟨"d", "x"⟩ := by
  simp only [stockRequests, List.mem_cons, List.not_mem_nil, or_false,
    PendingRequest.direct.injEq] at hMade
  rcases hMade with ⟨-, rfl, -⟩ | ⟨-, rfl, -⟩
  · have hFirst : v = stockSpecifier "a" 1 := hAdmits
    simp [hFirst, stockSpecifier]
  · have hSecond : v = stockSpecifier "b" 1 := hAdmits
    simp [hSecond, stockSpecifier]

/-- The fourth package of the table is listed on account of the lesser version of the third. -/
theorem listed_is_asked_for_superseded :
    Session stockSource stockSelector stockRequests [] [] ∧
    (order stockSource 10 stockSelector ()).map (·.1) = some (.ok stockOrder) ∧
    ∃ y ∈ stockOrder.drop 1,
      ∃ c ∈ expansions stockSource ([] ++ steps stockSource 10 stockSelector ()),
        c.2.specifier.id = y.specifier.id ∧
        (c.2.specifier = y.specifier ∨ c.2.specifier.version < y.specifier.version) ∧
        ∃ d ∈ c.2.dependencies, d.id = ⟨"d", "x"⟩ := by
  have hAnswer : (order stockSource 10 stockSelector ()).map (·.1) = some (.ok stockOrder) := by
    decide +kernel
  obtain ⟨⟨answer, s, w⟩, hOrder, hOk⟩ := Option.map_eq_some_iff.1 hAnswer
  obtain rfl : answer = .ok stockOrder := hOk
  have hSplit : stockOrder = [] ++ ⟨5, stockSpecifier "d" 1, .ofFileNames ["d"], none⟩ ::
      stockOrder.drop 1 := rfl
  refine ⟨stock_session, hAnswer, ?_⟩
  rcases listed_is_asked_for stock_session hOrder hSplit with
    ⟨token, request, shortcut, hMade, z, -, -, c, v, hFind, hId⟩ | hBehind
  · exact absurd hId (not_requested_directly hMade (admits_of_find hFind))
  · exact hBehind

/-- With no call failing, a package can be listed that was not asked for directly and that no listed
version depends on. -/
theorem order_lists_leftover :
    Session stockSource stockSelector stockRequests [] [] ∧
    (order stockSource 10 stockSelector ()).map (·.1) = some (.ok stockOrder) ∧
    ∃ x ∈ stockOrder,
      (∀ token request shortcut v, .direct token request shortcut ∈ stockRequests →
        request.Admits v → v.id ≠ x.specifier.id) ∧
      ∀ y ∈ stockOrder, (stock.package y.specifier).toOption.any fun r =>
        r.dependencies.toList.all fun d => d.id ≠ x.specifier.id := by
  refine ⟨stock_session, by decide +kernel, ⟨5, stockSpecifier "d" 1, .ofFileNames ["d"], none⟩,
    by decide, ?_, by decide +kernel⟩
  intro token request shortcut v hMade hAdmits
  exact not_requested_directly hMade hAdmits

end Selector

end PackageManager
