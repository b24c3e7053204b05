import Mathlib.Data.List.Nodup
import PackageManager.Catalog.Table
import PackageManager.Proofs.DependencySet.Declarations
import PackageManager.Proofs.Selector.History
import PackageManager.Proofs.Traversal

/-!
# What a selector keeps books of

A selector has four books that are kept by different hands: the pins, the dependency set, the noted
urls and the queue. This module says what each of them records about a history, and that every step
keeps all four true, however it ends.

## How the books belong together

A version is asked for before it can become a pin, and its dependencies are put into the queue only
when it does. So a version that becomes a pin has not been asked for, and what has been put into the
queue once is never put there again (`Greatest.pin?_cases`). A dependency leaves the queue with its
edge declared and its version asked for, whatever happens then. An edge is declared for a version
that was asked for, so its package is in the set and the declaration is not refused
(`Declared.declare`).

## Main results

* `consistent_of_run` — the books are true after every run.
* `pin_is_greatest` — exactly the packages in the dependency set are pinned, each at the greatest
  version that was asked for, and no version has its dependencies asked for twice.
-/

namespace PackageManager.Selector

open DependencySet

/-! ## Pins -/

/-- The pins are the greatest of some versions. -/
structure Greatest (pins : OrderedMap PackageId Version) (versions : List Specifier) : Prop where
  mem_of_pin : ∀ id v, pins.get? id = some v → ⟨id, v⟩ ∈ versions
  pin_of_mem : ∀ v ∈ versions, ∃ u, pins.get? v.id = some u ∧ v.version ≤ u

theorem greatest_empty : Greatest ∅ [] where
  mem_of_pin := by
    intro id v hPin
    cases hPin
  pin_of_mem := by
    intro v hv
    cases hv

/-- A version is passed over, or becomes a pin and is greater than all of its package before it. -/
theorem Greatest.pin?_cases {s : Selector} {versions : List Specifier}
    (h : Greatest s.pins versions) (v : Specifier) :
    (s.pin? v = none ∧ Greatest s.pins (versions ++ [v])) ∨
      s.pin? v = some { s with pins := s.pins.insert v.id v.version } ∧ v ∉ versions ∧
        Greatest (s.pins.insert v.id v.version) (versions ++ [v]) := by
  by_cases hPinned : (s.pins.get? v.id).any (v.version ≤ ·)
  · refine .inl ⟨if_pos hPinned, fun id u hPin => ?_, fun u hu => ?_⟩
    · exact List.mem_append_left _ (h.mem_of_pin id u hPin)
    · rcases List.mem_append.1 hu with hu | hu
      · exact h.pin_of_mem u hu
      · obtain rfl := List.mem_singleton.1 hu
        obtain ⟨w, hPin, hLe⟩ := (Option.any_eq_true _ _).1 hPinned
        exact ⟨w, hPin, of_decide_eq_true hLe⟩
  · have hAbove : ∀ u, s.pins.get? v.id = some u → u < v.version := by
      intro u hu
      rw [hu] at hPinned
      exact Std.not_le.1 (by simpa using hPinned)
    have hGet := OrderedMap.get?_insert s.pins v.id
    refine .inr ⟨if_neg hPinned, fun hOld => ?_, fun id u hPin => ?_, fun u hu => ?_⟩
    · obtain ⟨u, hPin, hLe⟩ := h.pin_of_mem v hOld
      exact Std.lt_irrefl (Std.lt_of_lt_of_le (hAbove u hPin) hLe)
    · rw [hGet] at hPin
      split at hPin
      · next hId =>
          cases hPin
          exact List.mem_append_right _ (by simp [hId])
      · exact List.mem_append_left _ (h.mem_of_pin id u hPin)
    · rw [hGet]
      rcases List.mem_append.1 hu with hu | hu
      · obtain ⟨w, hPin, hLe⟩ := h.pin_of_mem u hu
        split
        · next hId =>
            rw [hId] at hPin
            exact ⟨_, rfl, Std.le_of_lt (Std.lt_of_le_of_lt hLe (hAbove w hPin))⟩
        · exact ⟨w, hPin, hLe⟩
      · obtain rfl := List.mem_singleton.1 hu
        exact ⟨u.version, if_pos rfl, Std.le_refl _⟩

/-! ## Declarations -/

/-- A dependency set has an edge for each of some dependencies, and its packages are those of some
versions. -/
structure Declared (d : DependencySet) (ds : List Declaration) (versions : List Specifier)
    (edges : List (Specifier × Specifier)) : Prop where
  represents : Represents none d ds
  about_iff : ∀ id, (∃ x, Declares ds x id) ↔ ∃ v ∈ versions, v.id = id
  edge_declared : ∀ e ∈ edges, Declares ds (some e.1.id) e.2.id

theorem declared_empty : Declared {} [] [] [] where
  represents := represents_ofRoot none
  about_iff := by simp [Declares]
  edge_declared := by simp

theorem declares_append {ds : List Declaration} {d : Declaration} {x : Option PackageId}
    {id : PackageId} : Declares (ds ++ [d]) x id ↔
      Declares ds x id ∨ x = d.dependent ∧ d.dependency.id = id := by
  simp only [Declares, List.mem_append, List.mem_singleton, or_and_right, exists_or,
    exists_eq_left, eq_comm (a := x)]

/-- A dependency of a package in the set is declared, and nothing else is. -/
theorem declare_exact {s : Selector} {ds : List Declaration}
    (h : Represents none s.dependencies ds) {parent : Specifier}
    (hParent : s.dependencies.contains parent.id) (dependency : Specifier) :
    ∃ d ds', s.declare parent dependency = (.ok (), { s with dependencies := d }) ∧
      Represents none d ds' ∧ ∀ x id, Declares ds' x id ↔
        Declares ds x id ∨ x = some parent.id ∧ dependency.id = id := by
  by_cases hOld : s.dependencies.containsDependency parent.id dependency.id
  · have hDeclares := h.containsDependency_iff.1 hOld
    refine ⟨s.dependencies, ds, if_pos hOld, h, ?_⟩
    intro x id
    constructor
    · exact .inl
    · rintro (hDeclared | ⟨rfl, rfl⟩)
      · exact hDeclared
      · exact hDeclares
  · have hNew := mt h.containsDependency_iff.2 hOld
    let declared : Dependency := ⟨dependency.id, .ofList [.caret dependency.version]⟩
    obtain ⟨d, hAdd⟩ := h.add_ok (d := declared) hParent hNew
    rcases h.perform_cases (.of parent.id declared) with ⟨f, hRefused⟩ | ⟨d', hCall, hSet⟩
    · exact absurd (hAdd.symm.trans hRefused) (by simp)
    · have hSame : d' = d := congrArg Prod.snd (hCall.symm.trans hAdd)
      subst hSame
      refine ⟨d', _, ?_, hSet, ?_⟩
      · have hDeclare : s.declare parent dependency =
            ((s.dependencies.add parent.id declared).1,
              { s with dependencies := (s.dependencies.add parent.id declared).2 }) := if_neg hOld
        rw [hDeclare, hAdd]
      · exact fun x id => declares_append

namespace Declared

variable {d : DependencySet} {ds : List Declaration} {versions : List Specifier}
  {edges : List (Specifier × Specifier)}

theorem contains_iff (h : Declared d ds versions edges) {id : PackageId} :
    d.contains id ↔ ∃ v ∈ versions, v.id = id := by
  rw [h.represents.contains_iff, h.about_iff]
  simp

/-- One more declaration about a package, or the same one again, and a version of that package. -/
theorem grow (h : Declared d ds versions edges) {d' : DependencySet} {ds' : List Declaration}
    {y : Option PackageId} {v : Specifier} (hSet : Represents none d' ds')
    (hLinks : ∀ x id, Declares ds' x id ↔ Declares ds x id ∨ x = y ∧ v.id = id) :
    Declared d' ds' (versions ++ [v]) edges where
  represents := hSet
  about_iff := by
    intro id
    simp only [hLinks, exists_or, h.about_iff]
    simp [or_and_right, exists_or]
  edge_declared := fun e he => (hLinks _ _).2 (.inl (h.edge_declared e he))

theorem append_edge (h : Declared d ds versions edges) {e : Specifier × Specifier}
    (he : Declares ds (some e.1.id) e.2.id) : Declared d ds versions (edges ++ [e]) where
  represents := h.represents
  about_iff := h.about_iff
  edge_declared := by
    intro e' he'
    rcases List.mem_append.1 he' with he' | he'
    · exact h.edge_declared e' he'
    · obtain rfl := List.mem_singleton.1 he'
      exact he

/-- A direct request is refused and changes nothing, or its package is in the set then. -/
theorem addDirect_cases (h : Declared d ds versions edges) (v : Specifier)
    (requirements : OrderedSet Requirement) :
    (∃ f, d.addDirect { id := v.id, requirements } = (.error f, d)) ∨
      ∃ d' ds', d.addDirect { id := v.id, requirements } = (.ok (), d') ∧
        Declared d' ds' (versions ++ [v]) edges := by
  rcases h.represents.perform_cases (.direct { id := v.id, requirements }) with
    ⟨f, hRefused⟩ | ⟨d', hAccepted, hSet⟩
  · exact .inl ⟨f, hRefused⟩
  · exact .inr ⟨d', _, hAccepted, h.grow hSet fun x id => declares_append⟩

end Declared

/-- A dependency of a version that was asked for is never refused. -/
theorem Declared.declare {s : Selector} {ds : List Declaration} {versions : List Specifier}
    {edges : List (Specifier × Specifier)} (h : Declared s.dependencies ds versions edges)
    {parent : Specifier} (hParent : parent ∈ versions) (dependency : Specifier) :
    ∃ d' ds', s.declare parent dependency = (.ok (), { s with dependencies := d' }) ∧
      Declared d' ds' (versions ++ [dependency]) (edges ++ [(parent, dependency)]) := by
  have hIn := h.contains_iff.2 ⟨parent, hParent, rfl⟩
  obtain ⟨d', ds', hDeclare, hSet, hLinks⟩ := declare_exact h.represents hIn dependency
  exact ⟨d', ds', hDeclare, (h.grow hSet hLinks).append_edge ((hLinks _ _).2 (.inr ⟨rfl, rfl⟩))⟩

/-! ## Urls and the queue -/

/-- The dependencies that are put into the queue for a version. -/
def asked (c : Candidate) : List (Specifier × Specifier) :=
  c.dependencies.map (c.specifier, ·)

/-- Of some versions, each was expanded once: it is noted with where it is, and its dependencies are
those that have left the queue and those that wait, in this order. -/
structure Booked (expanded : OrderedMap Specifier Expansion)
    (waiting edges : List (Specifier × Specifier)) (versions : List (Nat × Candidate)) : Prop where
  recorded : ∀ v e, expanded.get? v = some e ↔
    ∃ x ∈ versions, x.2.specifier = v ∧ e = { token := x.1, url := x.2.url }
  nodup : (versions.map (·.2.specifier)).Nodup
  queued : edges ++ waiting = versions.flatMap fun x => asked x.2

namespace Booked

variable {expanded : OrderedMap Specifier Expansion} {waiting edges : List (Specifier × Specifier)}
  {versions : List (Nat × Candidate)}

/-- What stands first in the queue leaves it. -/
theorem leave {first : List (Specifier × Specifier)}
    (h : Booked expanded (first ++ waiting) edges versions) :
    Booked expanded waiting (edges ++ first) versions where
  recorded := h.recorded
  nodup := h.nodup
  queued := by rw [List.append_assoc, h.queued]

/-- A version that has not been expanded puts its dependencies behind all others. -/
theorem expand (h : Booked expanded waiting edges versions) (token : Nat) {c : Candidate}
    (hFresh : ∀ x ∈ versions, x.2.specifier ≠ c.specifier) :
    Booked (expanded.insert c.specifier { token, url := c.url }) (waiting ++ asked c)
      edges (versions ++ [(token, c)]) where
  recorded := by
    intro v e
    rw [OrderedMap.get?_insert]
    split
    · next hSame =>
        subst hSame
        constructor
        · intro hNew
          cases hNew
          exact ⟨(token, c), List.mem_append_right _ (List.mem_singleton.2 rfl), rfl, rfl⟩
        · rintro ⟨x, hx, hId, rfl⟩
          rcases List.mem_append.1 hx with hx | hx
          · exact absurd hId (hFresh x hx)
          · obtain rfl := List.mem_singleton.1 hx
            rfl
    · next hOther =>
        rw [h.recorded]
        constructor
        · rintro ⟨x, hx, hRest⟩
          exact ⟨x, List.mem_append_left _ hx, hRest⟩
        · rintro ⟨x, hx, hId, hRest⟩
          rcases List.mem_append.1 hx with hx | hx
          · exact ⟨x, hx, hId, hRest⟩
          · obtain rfl := List.mem_singleton.1 hx
            exact absurd hId.symm hOther
  nodup := by
    rw [List.map_append]
    refine List.nodup_append.2 ⟨h.nodup, List.nodup_singleton _, ?_⟩
    intro v hv u hu
    obtain ⟨x, hx, rfl⟩ := List.mem_map.1 hv
    obtain rfl := List.mem_singleton.1 hu
    exact hFresh x hx
  queued := by
    rw [← List.append_assoc, h.queued, List.flatMap_append]
    simp

end Booked

theorem booked_empty : Booked ∅ [] [] [] where
  recorded := by
    intro v e
    simp
  nodup := List.nodup_nil
  queued := rfl

/-- The dependencies of a list of new requests, whatever their tokens are. -/
theorem dependencies_mapIdx (parent : Specifier) (l : List Specifier) (token : Nat → Nat) :
    (l.mapIdx fun i d => PendingRequest.transitive (token i) parent d).filterMap
      PendingRequest.dependency = l.map (parent, ·) := by
  induction l generalizing token with
  | nil => rfl
  | cons d l ih =>
      rw [List.mapIdx_cons, List.filterMap_cons, List.map_cons, ← ih fun i => token (i + 1)]
      rfl

theorem waiting_expand (s : Selector) (token : Nat) (c : Candidate) :
    (s.expand token c).waiting = s.waiting ++ asked c := by
  unfold waiting expand asked
  rw [List.filterMap_append, dependencies_mapIdx c.specifier c.dependencies (s.issued + · + 1)]

/-! ## Settling a request -/

/-- What settling a request does to the pins and the declarations, which is all that it does. -/
structure Settles (s s' : Selector) (versions : List Specifier)
    (edges : List (Specifier × Specifier)) : Prop where
  greatest : Greatest s'.pins versions
  declared : ∃ ds, Declared s'.dependencies ds versions edges
  expanded : s'.expanded = s.expanded
  pending : s'.pending = s.pending

/-- What is found is the version that was looked for. -/
theorem specifier_of_findExactly {σ : Type} {source : PackageSource σ} {v : Specifier} {w : σ}
    {c : Candidate} (hFind : (findExactly source v w).1 = .ok c) : c.specifier = v :=
  ((findExactly_eq_ok_iff source).1 hFind).1

section Settling

variable {s : Selector} {ds : List Declaration} {versions : List Specifier}
  {edges : List (Specifier × Specifier)} (hGreatest : Greatest s.pins versions)
  (hDeclared : Declared s.dependencies ds versions edges)

include hGreatest hDeclared

/-- A version that was asked for directly is refused and changes nothing, or it is pinned unless a
greater one is. -/
theorem commit_cases (token : Nat) (shortcut : Option String) (c : Candidate) :
    (∃ f, s.commit token shortcut c = (.error f, s)) ∨
      ∃ answer s', s.commit token shortcut c = (.ok answer, s') ∧
        Settles s s' (versions ++ [c.specifier]) edges ∧
        ∀ c', answer = some c' → c' = c ∧ c.specifier ∉ versions := by
  unfold commit
  rcases hDeclared.addDirect_cases c.specifier (.ofList [.exact c.specifier.version]) with
    ⟨f, hRefused⟩ | ⟨d', ds', hAccepted, hDeclared'⟩
  · refine .inl ⟨f, ?_⟩
    simp only [hRefused]
  · let t : Selector := { s with
      dependencies := d'
      shortcuts := shortcut.elim s.shortcuts fun name => s.shortcuts.insert c.specifier.id name
      directTokens := s.directTokens.insert c.specifier.id token }
    have hPins : Greatest t.pins versions := hGreatest
    simp only [hAccepted]
    rcases hPins.pin?_cases c.specifier with ⟨hPin, hGreatest'⟩ | ⟨hPin, hNew, hGreatest'⟩
    · simp only [t] at hPin
      rw [hPin]
      refine .inr ⟨none, t, rfl, ⟨hGreatest', ⟨ds', hDeclared'⟩, rfl, rfl⟩, fun c' hEq => ?_⟩
      cases hEq
    · simp only [t] at hPin
      rw [hPin]
      refine .inr ⟨some c, _, rfl, ⟨hGreatest', ⟨ds', hDeclared'⟩, rfl, rfl⟩, fun c' hEq => ?_⟩
      cases hEq
      exact ⟨rfl, hNew⟩

/-- A dependency of a version that was asked for is declared and asked for in any case. -/
theorem settleTransitive_spec {σ : Type} (source : PackageSource σ) (w : σ)
    {parent dependency : Specifier} (hParent : parent ∈ versions) :
    Settles s (settleTransitive source parent dependency s w).2.1 (versions ++ [dependency])
        (edges ++ [(parent, dependency)]) ∧
      ∀ c, (settleTransitive source parent dependency s w).1 = .ok (some c) →
        c.specifier = dependency ∧ dependency ∉ versions := by
  obtain ⟨d', ds', hDeclare, hDeclared'⟩ := hDeclared.declare hParent dependency
  let t : Selector := { s with dependencies := d' }
  have hPins : Greatest t.pins versions := hGreatest
  unfold settleTransitive
  simp only [hDeclare]
  rcases hPins.pin?_cases dependency with ⟨hPin, hGreatest'⟩ | ⟨hPin, hNew, hGreatest'⟩
  · simp only [t] at hPin
    rw [hPin]
    refine ⟨⟨hGreatest', ⟨ds', hDeclared'⟩, rfl, rfl⟩, fun c hEq => ?_⟩
    cases hEq
  · simp only [t] at hPin
    rw [hPin]
    rcases hFind : findExactly source dependency w with ⟨answer, v⟩
    cases answer with
    | ok c =>
        refine ⟨⟨hGreatest', ⟨ds', hDeclared'⟩, rfl, rfl⟩, fun c' hEq => ?_⟩
        cases hEq
        exact ⟨specifier_of_findExactly (congrArg Prod.fst hFind), hNew⟩
    | error f =>
        refine ⟨⟨hGreatest', ⟨ds', hDeclared'⟩, rfl, rfl⟩, fun c hEq => ?_⟩
        cases hEq

end Settling

/-! ## Steps -/

section Steps

variable {σ : Type} {source : PackageSource σ}

/-- What settling the request of a step does, in terms of the history. -/
theorem Step.settled_spec (source : PackageSource σ) (x : Step σ) {ds : List Declaration}
    {versions : List Specifier} {edges : List (Specifier × Specifier)}
    (hGreatest : Greatest x.before.pins versions)
    (hDeclared : Declared x.before.dependencies ds versions edges)
    (hParent : ∀ e, x.request.dependency = some e → e.1 ∈ versions) :
    Settles x.before (x.settled source).2.1 (versions ++ (x.version source).toList)
        (edges ++ x.request.dependency.toList) ∧
      ∀ c, (x.settled source).1 = .ok (some c) →
        x.version source = some c.specifier ∧ c.specifier ∉ versions := by
  obtain ⟨request, s, w⟩ := x
  cases request with
  | direct token request shortcut =>
      have hUnchanged : Settles s s (versions ++ []) (edges ++ []) := by
        rw [List.append_nil, List.append_nil]
        exact ⟨hGreatest, ⟨ds, hDeclared⟩, rfl, rfl⟩
      unfold Step.version Step.settled settle settleDirect
      rcases hFind : find source request w with ⟨answer, v⟩
      cases answer with
      | error f =>
          simp only [hFind]
          refine ⟨hUnchanged, fun c hEq => ?_⟩
          cases hEq
      | ok c =>
          rcases commit_cases hGreatest hDeclared token shortcut c with
            ⟨f, hCommit⟩ | ⟨answer, s', hCommit, hSettles, hNew⟩
          · simp only [hFind, hCommit]
            refine ⟨hUnchanged, fun c' hEq => ?_⟩
            cases hEq
          · simp only [hFind, hCommit]
            rw [← List.append_nil edges] at hSettles
            refine ⟨hSettles, fun c' hEq => ?_⟩
            obtain ⟨rfl, hFresh⟩ := hNew c' (Except.ok.inj hEq)
            exact ⟨rfl, hFresh⟩
  | transitive token parent dependency =>
      have hParent := hParent (parent, dependency) rfl
      obtain ⟨hSettles, hNew⟩ := settleTransitive_spec hGreatest hDeclared source w hParent
      refine ⟨hSettles, fun c hEq => ?_⟩
      obtain ⟨hId, hFresh⟩ := hNew c hEq
      exact ⟨congrArg some hId.symm, hId ▸ hFresh⟩

/-- Working off a request settles it, and then expands what has become a pin by that. -/
theorem Step.outcome_cases (source : PackageSource σ) (x : Step σ) :
    (∃ c, (x.settled source).1 = .ok (some c) ∧ x.expansion source = some (x.request.token, c) ∧
      (x.outcome source).2.1 = (x.settled source).2.1.expand x.request.token c) ∨
    x.expansion source = none ∧ (x.outcome source).2.1 = (x.settled source).2.1 := by
  unfold Step.expansion Step.outcome process Step.settled
  rcases settle source x.request x.before x.world with ⟨answer, s, w⟩
  cases answer with
  | error f => exact .inr ⟨rfl, rfl⟩
  | ok result =>
      cases result with
      | none => exact .inr ⟨rfl, rfl⟩
      | some c => exact .inl ⟨c, rfl, rfl, rfl⟩

/-- The books of a selector are true of a history. -/
structure Consistent (source : PackageSource σ) (s : Selector) (h : List (Step σ)) : Prop where
  greatest : Greatest s.pins (requested source h)
  declared : ∃ ds, Declared s.dependencies ds (requested source h) (considered h)
  booked : Booked s.expanded s.waiting (considered h) (expansions source h)
  expanded_requested : ∀ x ∈ expansions source h, x.2.specifier ∈ requested source h
  considered_requested : ∀ e ∈ considered h, e.2 ∈ requested source h

theorem consistent_new : Consistent source {} [] where
  greatest := greatest_empty
  declared := ⟨[], declared_empty⟩
  booked := booked_empty
  expanded_requested := by
    intro x hx
    cases hx
  considered_requested := by
    intro e he
    cases he

theorem consistent_add {s : Selector} {h : List (Step σ)} (hBooks : Consistent source s h)
    (request : Request) (shortcut : Option String) :
    Consistent source (s.add request shortcut).2 h where
  greatest := hBooks.greatest
  declared := hBooks.declared
  booked := by
    have hWaiting : (s.add request shortcut).2.waiting = s.waiting := by
      unfold add waiting
      rw [List.filterMap_append]
      exact List.append_nil _
    rw [hWaiting]
    exact hBooks.booked
  expanded_requested := hBooks.expanded_requested
  considered_requested := hBooks.considered_requested

/-- The parent of a dependency that waits was expanded, so it has been asked for. -/
theorem Consistent.parent_requested {s : Selector} {h : List (Step σ)}
    (hBooks : Consistent source s h) {e : Specifier × Specifier} (he : e ∈ s.waiting) :
    e.1 ∈ requested source h := by
  have hQueued := hBooks.booked.queued ▸ List.mem_append_right (considered h) he
  obtain ⟨x, hx, he⟩ := List.mem_flatMap.1 hQueued
  obtain ⟨d, -, rfl⟩ := List.mem_map.1 he
  exact hBooks.expanded_requested x hx

/-- The books before the first step are those of the selector, but for the queue. -/
theorem firstStep_spec {s : Selector} {w : σ} {x : Step σ} (hFirst : s.firstStep w = some x) :
    x.before.pins = s.pins ∧ x.before.dependencies = s.dependencies ∧
      x.before.expanded = s.expanded ∧
      s.waiting = x.request.dependency.toList ++ x.before.waiting := by
  obtain ⟨hPending, hBefore⟩ := firstStep_eq_some hFirst
  refine ⟨by rw [hBefore], by rw [hBefore], by rw [hBefore], ?_⟩
  unfold waiting
  rw [hPending]
  cases x.request with
  | direct token request shortcut => rfl
  | transitive token parent dependency => rfl

/-- What a step works off, it asks for. -/
theorem Consistent.considered_requested_concat {s : Selector} {h : List (Step σ)}
    (hBooks : Consistent source s h) (x : Step σ) :
    ∀ e ∈ considered (h ++ [x]), e.2 ∈ requested source (h ++ [x]) := by
  intro e he
  rw [considered_concat] at he
  rcases List.mem_append.1 he with he | he
  · exact mem_requested_concat.2 (.inl (hBooks.considered_requested e he))
  · exact mem_requested_concat.2 (.inr (Step.version_of_dependency (Option.mem_toList.1 he)))

/-- What a step expands has been asked for, if that is what the step asks for. -/
theorem Consistent.expanded_requested_concat {s : Selector} {h : List (Step σ)}
    (hBooks : Consistent source s h) {x : Step σ}
    (hNew : ∀ y, x.expansion source = some y → x.version source = some y.2.specifier) :
    ∀ y ∈ expansions source (h ++ [x]), y.2.specifier ∈ requested source (h ++ [x]) := by
  intro y hy
  rw [expansions_concat] at hy
  rcases List.mem_append.1 hy with hy | hy
  · exact mem_requested_concat.2 (.inl (hBooks.expanded_requested y hy))
  · exact mem_requested_concat.2 (.inr (hNew y (Option.mem_toList.1 hy)))

/-- What a step does that comes first is what settling its request does, in terms of the history. -/
theorem Consistent.settled_spec {s : Selector} {h : List (Step σ)} {w : σ} {x : Step σ}
    (hBooks : Consistent source s h) (hFirst : s.firstStep w = some x) :
    Settles x.before (x.settled source).2.1 (requested source (h ++ [x])) (considered (h ++ [x])) ∧
      ∀ c, (x.settled source).1 = .ok (some c) →
        x.version source = some c.specifier ∧ c.specifier ∉ requested source h := by
  obtain ⟨ds, hDeclared⟩ := hBooks.declared
  obtain ⟨hPins, hDependencies, -, hWaiting⟩ := firstStep_spec hFirst
  rw [requested_concat, considered_concat]
  exact x.settled_spec source (hPins ▸ hBooks.greatest) (hDependencies ▸ hDeclared) fun e he =>
    hBooks.parent_requested (by simp [hWaiting, he])

/-- Every step keeps the books true. -/
theorem consistent_step {s : Selector} {h : List (Step σ)} {w : σ} {x : Step σ}
    (hBooks : Consistent source s h) (hFirst : s.firstStep w = some x) :
    Consistent source (x.outcome source).2.1 (h ++ [x]) := by
  obtain ⟨-, -, hExpanded, hWaiting⟩ := firstStep_spec hFirst
  obtain ⟨hSettles, hNew⟩ := hBooks.settled_spec hFirst
  have hLeft : Booked (x.settled source).2.1.expanded (x.settled source).2.1.waiting
      (considered (h ++ [x])) (expansions source h) := by
    have hSame : (x.settled source).2.1.waiting = x.before.waiting :=
      congrArg (·.filterMap PendingRequest.dependency) hSettles.pending
    rw [hSame, hSettles.expanded, hExpanded, considered_concat]
    exact (hWaiting ▸ hBooks.booked).leave
  rcases x.outcome_cases source with ⟨c, hAnswer, hExpansion, hOutcome⟩ |
    ⟨hExpansion, hOutcome⟩
  · obtain ⟨hVersion, hFresh⟩ := hNew c hAnswer
    rw [hOutcome]
    refine ⟨hSettles.greatest, hSettles.declared, ?_,
      hBooks.expanded_requested_concat fun y hy => ?_, hBooks.considered_requested_concat x⟩
    · rw [waiting_expand, expansions_concat, hExpansion]
      refine hLeft.expand x.request.token fun y hy hEq => ?_
      exact hFresh (hEq ▸ hBooks.expanded_requested y hy)
    · rw [hExpansion] at hy
      cases hy
      exact hVersion
  · rw [hOutcome]
    refine ⟨hSettles.greatest, hSettles.declared, ?_,
      hBooks.expanded_requested_concat fun y hy => ?_, hBooks.considered_requested_concat x⟩
    · rw [expansions_concat, hExpansion, Option.toList_none, List.append_nil]
      exact hLeft
    · rw [hExpansion] at hy
      cases hy

/-- The books are true after every run. -/
theorem consistent_of_run {s : Selector} {h : List (Step σ)} (hRun : Run source s h) :
    Consistent source s h :=
  hRun.induction (fun _ _ _ _ hBooks hFirst => consistent_step hBooks hFirst) consistent_new
    fun _ _ request shortcut hBooks => consistent_add hBooks request shortcut

/-- Each step of a run came first in a selector whose books were true. -/
theorem Lifetime.exists_first {s : Selector} {h : List (Step σ)} (hRun : Run source s h)
    {x : Step σ} (hx : x ∈ h) : ∃ t h' w, Consistent source t h' ∧ t.firstStep w = some x := by
  have hAll : Consistent source s h ∧
      ∀ x ∈ h, ∃ t h' w, Consistent source t h' ∧ t.firstStep w = some x := by
    refine hRun.induction (P := fun s h => Consistent source s h ∧
      ∀ x ∈ h, ∃ t h' w, Consistent source t h' ∧ t.firstStep w = some x) ?_ ?_ ?_
    · intro s h w x hOld hFirst
      constructor
      · exact consistent_step hOld.1 hFirst
      intro y hy
      rcases List.mem_append.1 hy with hy | hy
      · exact hOld.2 y hy
      · obtain rfl := List.mem_singleton.1 hy
        exact ⟨s, h, w, hOld.1, hFirst⟩
    · exact ⟨consistent_new, nofun⟩
    · exact fun s h request shortcut hOld => ⟨consistent_add hOld.1 request shortcut, hOld.2⟩
  exact hAll.2 x hx

/-- Whatever calls were made on a selector, the pinned packages are those in the dependency set, and
each is pinned at the greatest version of it that was asked for. A version that is noted is at most
the pin. No version was expanded twice, so that its note is the one made then, and the dependencies
that have left the queue or wait in it are exactly those of the expanded versions. And these are the
dependencies in the record that the source has answered, or in the manifest of the package at the
path that was asked for. -/
theorem pin_is_greatest {s : Selector} {h : List (Step σ)} (hRun : Run source s h) :
    (∀ id, s.dependencies.contains id ↔ ∃ v, s.pins.get? id = some v) ∧
    (∀ id v, s.pins.get? id = some v ↔
      ⟨id, v⟩ ∈ requested source h ∧ ∀ u, ⟨id, u⟩ ∈ requested source h → u ≤ v) ∧
    (∀ v e, s.expanded.get? v = some e → ∃ u, s.pins.get? v.id = some u ∧ v.version ≤ u) ∧
    ((expansions source h).map (·.2.specifier)).Nodup ∧
    (∀ v e, s.expanded.get? v = some e ↔
      ∃ x ∈ expansions source h, x.2.specifier = v ∧ e = { token := x.1, url := x.2.url }) ∧
    considered h ++ s.waiting =
      ((expansions source h).flatMap fun x => x.2.dependencies.map (x.2.specifier, ·)) ∧
    ∀ x ∈ h, ∀ c, x.expansion source = some c →
      c.1 = x.request.token ∧ Yields source x.request.subject x.world c.2 := by
  have hBooks := consistent_of_run hRun
  obtain ⟨ds, hDeclared⟩ := hBooks.declared
  refine ⟨fun id => ?_, fun id v => ?_, fun v e hNoted => ?_, hBooks.booked.nodup,
    hBooks.booked.recorded, hBooks.booked.queued, fun x _ c => Step.yields_of_expansion⟩
  · rw [hDeclared.contains_iff]
    constructor
    · rintro ⟨v, hv, rfl⟩
      obtain ⟨u, hPin, -⟩ := hBooks.greatest.pin_of_mem v hv
      exact ⟨u, hPin⟩
    · rintro ⟨v, hPin⟩
      exact ⟨_, hBooks.greatest.mem_of_pin id v hPin, rfl⟩
  · constructor
    · intro hPin
      refine ⟨hBooks.greatest.mem_of_pin id v hPin, fun u hu => ?_⟩
      obtain ⟨u', hPin', hLe⟩ := hBooks.greatest.pin_of_mem _ hu
      rw [hPin] at hPin'
      exact Option.some.inj hPin' ▸ hLe
    · rintro ⟨hv, hGreatest⟩
      obtain ⟨u, hPin, hLe⟩ := hBooks.greatest.pin_of_mem _ hv
      have hGe := hGreatest u (hBooks.greatest.mem_of_pin id u hPin)
      rw [hPin, Std.le_antisymm hGe hLe]
  · obtain ⟨x, hx, rfl, -⟩ := (hBooks.booked.recorded v e).1 hNoted
    exact hBooks.greatest.pin_of_mem _ (hBooks.expanded_requested x hx)

end Steps

/-! ## A version that is superseded -/

/-- A version of a package of the domain `x`. -/
def stockSpecifier (name : String) (major : UInt32) : Specifier := ⟨⟨name, "x"⟩, ⟨major, 0, 0⟩⟩

/-- The record of such a version. -/
def stockRecord (name : String) (major : UInt32) (dependencies : List Specifier) : PackageRecord :=
  { id := ⟨name, "x"⟩
    version := ⟨major, 0, 0⟩
    dependencies := .ofList dependencies
    url := .ofFileNames [name] }

/-- Two packages that ask for different versions of a third, of which only the lesser one depends on
a fourth. -/
def stock : PackageTable :=
  .ofRecords
    [ stockRecord "a" 1 [stockSpecifier "c" 1]
    , stockRecord "b" 1 [stockSpecifier "c" 2]
    , stockRecord "c" 1 [stockSpecifier "d" 1]
    , stockRecord "c" 2 []
    , stockRecord "d" 1 [] ]

/-- The table as a source. There are no files. -/
def stockSource : PackageSource Unit := stock.source fun _ => {}

/-- The first two packages are asked for directly. -/
def stockSelector : Selector :=
  ((({} : Selector).add (.exactly (stockSpecifier "a" 1))).2.add
    (.exactly (stockSpecifier "b" 1))).2

/-- A package in a file, which asks for the greater version as well. -/
def unpackedFiles : FileStore where
  entries := .ofList
    [ (["t"], .directory)
    , (["t", "package.toml"], .file
        "[package]\nspecifier = \"t-1.0.0@x\"\n[requirements]\n\"c@x\" = \"2.0.0\"\n".toUTF8) ]

/-- What the file says. -/
def unpackedPackage : LocalPackage where
  manifest :=
    { specifier := stockSpecifier "t" 1, requirements := .ofList [(⟨"c", "x"⟩, ⟨2, 0, 0⟩)] }
  url := .ofFileNames ["t"]

/-- The table as a source, beside the file. -/
def unpackedSource : PackageSource Unit := stock.source fun _ => unpackedFiles

/-- The first package and the one in the file are asked for directly. -/
def unpackedSelector : Selector :=
  ((({} : Selector).add (.exactly (stockSpecifier "a" 1))).2.add (.unpacked (.ofText "/t"))).2

/-- The requests that are worked off then. -/
def unpackedSteps : List (Step Unit) := steps unpackedSource 10 unpackedSelector ()

theorem load_unpackedFiles : LocalPackage.load unpackedFiles (.ofText "/t") = .ok unpackedPackage :=
  ok_of_toOption (by decide +kernel)

/-- What the file requires is asked for once, and so is what the superseded version depends on. -/
theorem pin_is_greatest_superseded : ∃ s x c,
    Run unpackedSource s unpackedSteps ∧
    requested unpackedSource unpackedSteps =
      [ stockSpecifier "a" 1, stockSpecifier "t" 1, stockSpecifier "c" 1, stockSpecifier "c" 2
      , stockSpecifier "d" 1 ] ∧
    s.dependencies.contains ⟨"c", "x"⟩ ∧ s.pins.get? ⟨"c", "x"⟩ = some ⟨2, 0, 0⟩ ∧
    (∃ e, s.expanded.get? (stockSpecifier "c" 1) = some e) ∧
    considered unpackedSteps =
      [ (stockSpecifier "a" 1, stockSpecifier "c" 1), (stockSpecifier "t" 1, stockSpecifier "c" 2)
      , (stockSpecifier "c" 1, stockSpecifier "d" 1) ] ∧ s.waiting = [] ∧
    x ∈ unpackedSteps ∧ x.request = .direct 2 (.unpacked (.ofText "/t")) none ∧
    x.expansion unpackedSource = some c ∧
    c.2.dependencies.map (fun d => (d.id, d.version)) =
      unpackedPackage.manifest.requirements.entries := by
  have hSome : (drain unpackedSource 10 unpackedSelector ()).isSome := by decide +kernel
  have hRequested : requested unpackedSource unpackedSteps =
      [ stockSpecifier "a" 1, stockSpecifier "t" 1, stockSpecifier "c" 1, stockSpecifier "c" 2
      , stockSpecifier "d" 1 ] := by decide +kernel
  have hNoted : (3, ⟨stockSpecifier "c" 1, .ofFileNames ["c"], [stockSpecifier "d" 1]⟩) ∈
      expansions unpackedSource unpackedSteps := by decide +kernel
  have hConsidered : considered unpackedSteps =
      [ (stockSpecifier "a" 1, stockSpecifier "c" 1), (stockSpecifier "t" 1, stockSpecifier "c" 2)
      , (stockSpecifier "c" 1, stockSpecifier "d" 1) ] := by decide +kernel
  have hAll : ((expansions unpackedSource unpackedSteps).flatMap fun x =>
      x.2.dependencies.map (x.2.specifier, ·)) = considered unpackedSteps := by decide +kernel
  have hOfFile : ∃ x ∈ unpackedSteps, (x.request, (x.expansion unpackedSource).isSome) =
      (.direct 2 (.unpacked (.ofText "/t")) none, true) :=
    List.mem_map.1 (by decide +kernel)
  obtain ⟨⟨answer, s, w⟩, hDrain⟩ := Option.isSome_iff_exists.1 hSome
  obtain ⟨x, hx, hBoth⟩ := hOfFile
  obtain ⟨hRequest, hExpands⟩ := Prod.mk.inj hBoth
  obtain ⟨c, hExpansion⟩ := Option.isSome_iff_exists.1 hExpands
  have hRun : Run unpackedSource s unpackedSteps :=
    .select 10 () (.add _ _ (.add _ _ .new)) hDrain
  obtain ⟨hVertex, hPins, -, -, hExpanded, hQueue, hYields⟩ := pin_is_greatest hRun
  have hPin : s.pins.get? ⟨"c", "x"⟩ = some ⟨2, 0, 0⟩ := by
    refine (hPins _ _).2 ⟨?_, fun u hu => ?_⟩
    · rw [hRequested]
      decide
    · rw [hRequested] at hu
      have hCases : u = ⟨1, 0, 0⟩ ∨ u = ⟨2, 0, 0⟩ := by simpa [stockSpecifier] using hu
      rcases hCases with rfl | rfl
      · decide
      · decide
  have hFound : Yields unpackedSource (.unpacked (.ofText "/t")) x.world c.2 := by
    obtain ⟨-, hSubject⟩ := hYields x hx c hExpansion
    rwa [hRequest] at hSubject
  obtain ⟨found, hLoad, -, -, hDependencies⟩ := hFound
  obtain rfl : unpackedPackage = found := Except.ok.inj (load_unpackedFiles.symm.trans hLoad)
  rw [hAll] at hQueue
  exact ⟨s, x, c, hRun, hRequested, (hVertex _).2 ⟨_, hPin⟩, hPin,
    ⟨_, (hExpanded _ _).2 ⟨_, hNoted, rfl, rfl⟩⟩, hConsidered, List.append_right_eq_self.1 hQueue,
    hx, hRequest, hExpansion, hDependencies⟩

end PackageManager.Selector
