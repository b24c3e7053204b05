import PackageManager.Proofs.Selector.Reach

/-!
# The first time that requests are worked off

A new selector, of which some packages are asked for directly, works its requests off for the first
time. `Ongoing` says what holds at each moment as long as no request has failed, in words that do
not speak of the order in which the requests were made.

## What the order cannot change

Direct requests come first in the queue, so all of them have been worked off before the first
dependency is. From then on each version that becomes a pin is greater than those found directly,
which is what `Reached` asks of it. So only versions that can be reached at all are ever looked up,
and if each of these can be found, no request fails.

## Main results

* `Ongoing.step` — working off a request keeps all of this, unless it fails.
* `Ongoing.failure_eq_none` — no request fails if all that can be asked for can be worked off.
* `Ongoing.drain_cases` — how the first call that works off requests can end.
-/

namespace PackageManager

/-- What was asked for directly, if a request was made so. -/
def PendingRequest.ask : PendingRequest → Option (Request × Option String)
  | .direct _ request shortcut => some (request, shortcut)
  | .transitive _ _ _ => none

namespace Selector

open DependencySet

variable {σ : Type} {source : PackageSource σ}

/-! ## What a step does -/

theorem Step.failure_of_ok {x : Step σ} {t : Selector} {v : σ}
    (hOutcome : x.outcome source = (.ok (), t, v)) : x.failure source = none := by
  rw [Step.failure, hOutcome]
  rfl

theorem Step.failure_of_error {x : Step σ} {f : Fault} {t : Selector} {v : σ}
    (hOutcome : x.outcome source = (.error f, t, v)) : x.failure source = some f := by
  rw [Step.failure, hOutcome]
  rfl

/-- What a package is declared with when a version of it is asked for directly. -/
def pinned (v : Specifier) : Dependency :=
  { id := v.id, requirements := .ofList [.exact v.version] }

/-- A version that was found directly is refused, or it is declared and noted, and becomes the pin
unless that is at least as great. -/
theorem commit_eq (s : Selector) (token : Nat) (shortcut : Option String) (c : Candidate) :
    (∃ f d, s.dependencies.addDirect (pinned c.specifier) = (.error f, d) ∧
      s.commit token shortcut c = (.error f, { s with dependencies := d })) ∨
    ∃ d t, s.dependencies.addDirect (pinned c.specifier) = (.ok (), d) ∧ t.dependencies = d ∧
      t.shortcuts = shortcut.elim s.shortcuts (s.shortcuts.insert c.specifier.id) ∧
      t.directTokens = s.directTokens.insert c.specifier.id token ∧
      ((s.covers c.specifier ∧ s.commit token shortcut c = (.ok none, t)) ∨
        ¬s.covers c.specifier ∧ s.commit token shortcut c = (.ok (some c), t)) := by
  unfold commit
  rcases hAdd : s.dependencies.addDirect (pinned c.specifier) with ⟨f | u, d⟩
  · unfold pinned at hAdd
    simp only [hAdd]
    exact .inl ⟨f, d, rfl, rfl⟩
  · unfold pinned at hAdd
    simp only [hAdd]
    right
    let t : Selector := { s with
      dependencies := d
      shortcuts := shortcut.elim s.shortcuts fun name => s.shortcuts.insert c.specifier.id name
      directTokens := s.directTokens.insert c.specifier.id token }
    have hCovers : t.covers c.specifier = s.covers c.specifier := rfl
    cases hPin : t.pin? c.specifier with
    | none =>
        rw [pin?_eq_none_iff, hCovers] at hPin
        exact ⟨d, t, rfl, rfl, rfl, rfl, .inl ⟨hPin, rfl⟩⟩
    | some t' =>
        have hNew : ¬s.covers c.specifier := by simp [← hCovers, ← pin?_eq_none_iff, hPin]
        unfold pin? at hPin
        split at hPin
        · cases hPin
        · cases hPin
          exact ⟨d, _, rfl, rfl, rfl, rfl, .inr ⟨hNew, rfl⟩⟩

/-- What working off a direct request does. -/
theorem Step.direct_cases (source : PackageSource σ) {x : Step σ} {token : Nat} {request : Request}
    {shortcut : Option String} (hRequest : x.request = .direct token request shortcut) :
    (∃ f, x.failure source = some f ∧ x.version source = none ∧
      (((find source request x.world).1 = .error f ∧ (x.outcome source).2.1 = x.before) ∨
        ∃ c d, (find source request x.world).1 = .ok c ∧
          x.before.dependencies.addDirect (pinned c.specifier) = (.error f, d) ∧
          (x.outcome source).2.1 = { x.before with dependencies := d })) ∨
    ∃ c d, (find source request x.world).1 = .ok c ∧
      x.before.dependencies.addDirect (pinned c.specifier) = (.ok (), d) ∧
      x.failure source = none ∧ x.version source = some c.specifier ∧
      (x.outcome source).2.1.dependencies = d ∧
      (x.outcome source).2.1.shortcuts =
        shortcut.elim x.before.shortcuts (x.before.shortcuts.insert c.specifier.id) ∧
      (x.outcome source).2.1.directTokens =
        x.before.directTokens.insert c.specifier.id token ∧
      ((x.before.covers c.specifier ∧ x.expansion source = none) ∨
        ¬x.before.covers c.specifier ∧ x.expansion source = some (token, c)) := by
  obtain ⟨p, s, w⟩ := x
  obtain rfl : p = _ := hRequest
  simp only [Step.failure, Step.version, Step.expansion, Step.settled, Step.outcome, process,
    settle, settleDirect]
  rcases hFind : find source request w with ⟨f | c, w'⟩
  · exact .inl ⟨f, rfl, rfl, .inl ⟨rfl, rfl⟩⟩
  · rcases s.commit_eq token shortcut c with ⟨f, d, hAdd, hCommit⟩ |
      ⟨d, t, hAdd, hSet, hNames, hTokens, ⟨hCovers, hCommit⟩ | ⟨hNew, hCommit⟩⟩
    · left
      simp only [hCommit]
      exact ⟨f, rfl, trivial, .inr ⟨c, d, rfl, hAdd, rfl⟩⟩
    · right
      simp only [hCommit]
      exact ⟨c, d, rfl, hAdd, rfl, rfl, hSet, hNames, hTokens, .inl ⟨hCovers, trivial⟩⟩
    · right
      simp only [hCommit]
      exact ⟨c, d, rfl, hAdd, rfl, rfl, hSet, hNames, hTokens, .inr ⟨hNew, rfl⟩⟩

/-- What working off a dependency does that can be declared. -/
theorem Step.transitive_cases (source : PackageSource σ) {x : Step σ} {token : Nat}
    {parent dependency : Specifier} {d : DependencySet}
    (hRequest : x.request = .transitive token parent dependency)
    (hDeclare : x.before.declare parent dependency =
      (.ok (), { x.before with dependencies := d })) :
    (x.outcome source).2.1.dependencies = d ∧
    (x.outcome source).2.1.shortcuts = x.before.shortcuts ∧
    (x.outcome source).2.1.directTokens = x.before.directTokens ∧
    ((x.before.covers dependency ∧ x.failure source = none ∧ x.expansion source = none) ∨
      ¬x.before.covers dependency ∧
        ((∃ c, (findExactly source dependency x.world).1 = .ok c ∧ x.failure source = none ∧
          x.expansion source = some (token, c)) ∨
        ∃ f, (findExactly source dependency x.world).1 = .error f ∧
          x.failure source = some f)) := by
  obtain ⟨p, s, w⟩ := x
  obtain rfl : p = _ := hRequest
  let t : Selector := { s with dependencies := d }
  have hDeclare : s.declare parent dependency = (.ok (), t) := hDeclare
  have hCovers : t.covers dependency = s.covers dependency := rfl
  simp only [Step.failure, Step.expansion, Step.settled, Step.outcome, process, settle,
    settleTransitive, hDeclare]
  cases hPin : t.pin? dependency with
  | none =>
      rw [pin?_eq_none_iff, hCovers] at hPin
      exact ⟨rfl, rfl, rfl, .inl ⟨hPin, rfl, rfl⟩⟩
  | some t' =>
      have hNew : ¬s.covers dependency := by simp [← hCovers, ← pin?_eq_none_iff, hPin]
      have hRest : t'.dependencies = d ∧ t'.shortcuts = s.shortcuts ∧
          t'.directTokens = s.directTokens := by
        unfold pin? at hPin
        split at hPin
        · cases hPin
        · cases hPin
          exact ⟨rfl, rfl, rfl⟩
      obtain ⟨hSet, hNames, hTokens⟩ := hRest
      rcases hFind : findExactly source dependency w with ⟨f | c, w'⟩
      · dsimp only
        exact ⟨hSet, hNames, hTokens, .inr ⟨hNew, .inr ⟨f, rfl, rfl⟩⟩⟩
      · dsimp only
        exact ⟨hSet, hNames, hTokens, .inr ⟨hNew, .inl ⟨c, rfl, rfl, rfl⟩⟩⟩

/-- Working off a request puts dependencies behind those that wait, and nothing else. -/
theorem Step.pending_outcome (source : PackageSource σ) (x : Step σ) :
    ∃ l, (x.outcome source).2.1.pending = x.before.pending ++ l ∧
      ∀ p ∈ l, p.ask = none := by
  have hRises := rises_settle source x.request x.before x.world
  rcases x.outcome_cases source with ⟨c, -, -, hOutcome⟩ | ⟨-, hOutcome⟩
  · let new := c.dependencies.mapIdx fun i d =>
      PendingRequest.transitive ((x.settled source).2.1.issued + i + 1) c.specifier d
    refine ⟨new, ?_, ?_⟩
    · rw [hOutcome]
      exact congrArg (· ++ new) hRises.pending
    · intro p hp
      obtain ⟨i, hi, rfl⟩ := List.mem_mapIdx.1 hp
      rfl
  · exact ⟨[], by rw [hOutcome, List.append_nil]; exact hRises.pending, nofun⟩

/-! ## Declarations, exactly -/

/-- A direct request is refused if its package has been declared so before, and only then. -/
theorem addDirect_exact {d : DependencySet} {ds : List Declaration} (h : Represents none d ds)
    (x : Dependency) :
    (Declares ds none x.id ∧ ∃ f, d.addDirect x = (.error f, d)) ∨
      ¬Declares ds none x.id ∧ ∃ d', d.addDirect x = (.ok (), d') ∧
        Represents none d' (ds ++ [⟨none, x⟩]) := by
  have hRoot := h.indexed.root_isVertex
  have hCases := h.declare_cases hRoot x
  rw [h.root_id] at hCases
  rcases hCases with ⟨v, hId, hEdge, hRefused⟩ | ⟨hNew, d', hAccepted, hSet⟩
  · have hDeclares := (h.edge_iff hRoot hId).1 hEdge
    rw [h.root_id] at hDeclares
    exact .inl ⟨hDeclares, _, hRefused⟩
  · refine .inr ⟨?_, d', hAccepted, hSet⟩
    intro hDeclares
    obtain ⟨v, hId⟩ := h.exists_vertex_of_declares hDeclares
    rw [← h.root_id] at hDeclares
    exact hNew v hId ((h.edge_iff hRoot hId).2 hDeclares)

/-- If the pins cover a version, then one at least as great was asked for. -/
theorem Consistent.exists_requested_of_covers {s : Selector} {h : List (Step σ)}
    (hBooks : Consistent source s h) {u : Specifier} (hCovers : s.covers u) :
    ∃ t ∈ requested source h, Surpasses t u := by
  obtain ⟨version, hPin, hLe⟩ := (Option.any_eq_true _ _).1 hCovers
  exact ⟨⟨u.id, version⟩, hBooks.greatest.mem_of_pin _ _ hPin, rfl, of_decide_eq_true hLe⟩

/-- What waits for its turn as a dependency is one of a package in the set. -/
theorem Consistent.contains_parent {s : Selector} {h : List (Step σ)} {w : σ} {x : Step σ}
    (hBooks : Consistent source s h) (hFirst : s.firstStep w = some x) {token : Nat}
    {parent dependency : Specifier} (hRequest : x.request = .transitive token parent dependency) :
    x.before.dependencies.contains parent.id := by
  obtain ⟨ds, hDeclared⟩ := hBooks.declared
  obtain ⟨-, hSet, -, hWaiting⟩ := firstStep_spec hFirst
  rw [hSet, hDeclared.contains_iff]
  refine ⟨parent, hBooks.parent_requested (e := (parent, dependency)) ?_, rfl⟩
  rw [hWaiting, hRequest]
  exact List.mem_cons_self

/-! ## The first time that requests are worked off -/

/-- The direct requests among some. -/
def asksOf (l : List PendingRequest) : List Ask := l.filterMap PendingRequest.ask

theorem asksOf_cons (p : PendingRequest) (l : List PendingRequest) :
    asksOf (p :: l) = p.ask.toList ++ asksOf l := by
  unfold asksOf
  cases hAsk : p.ask with
  | none => rw [List.filterMap_cons_none hAsk, Option.toList_none, List.nil_append]
  | some a => rw [List.filterMap_cons_some hAsk, Option.toList_some, List.singleton_append]

theorem asksOf_append (l l' : List PendingRequest) : asksOf (l ++ l') = asksOf l ++ asksOf l' :=
  List.filterMap_append

/-- The direct requests that some steps worked off. -/
def answered (h : List (Step σ)) : List Ask := asksOf (h.map (·.request))

theorem answered_concat (h : List (Step σ)) (x : Step σ) :
    answered (h ++ [x]) = answered h ++ x.request.ask.toList := by
  unfold answered
  rw [List.map_append, asksOf_append]
  exact congrArg _ (filterMap_concat PendingRequest.ask [] x.request)

/-- A new selector of which some packages are asked for directly. -/
def asking (asks : List Ask) : Selector := asks.foldl (fun s a => (s.add a.1 a.2).2) {}

/-- What holds while the requests of a new selector are worked off, as long as none has failed. -/
structure Ongoing (source : PackageSource σ) (w : σ) (asks : List Ask) (s : Selector)
    (h : List (Step σ)) : Prop where
  books : Consistent source s h
  accounted : answered h ++ asksOf s.pending = asks
  /-- No direct request stands behind a dependency. -/
  directs_first : s.pending.Pairwise fun p q => p.ask = none → q.ask = none
  /-- No dependency has been worked off before the last direct request. -/
  dependencies_last : considered h = [] ∨ answered h = asks
  found_requested : ∀ a ∈ answered h, ∃ c, (find source a.1 w).1 = .ok c ∧
    c.specifier ∈ requested source h
  distinct : (foundIds source w (answered h)).Nodup
  /-- The declarations are those of the direct requests and of the dependencies that have been
  worked off. -/
  linked : ∃ ds, Represents none s.dependencies ds ∧ ∀ x id, Declares ds x id ↔
    (x = none ∧ id ∈ foundIds source w (answered h)) ∨
      ∃ e ∈ considered h, x = some e.1.id ∧ e.2.id = id
  /-- Of each package that was asked for, a version at least as great has been expanded. -/
  surpassed : ∀ v ∈ requested source h, ∃ c ∈ expansions source h, Surpasses c.2.specifier v
  sound : ∀ c ∈ expansions source h,
    Reached source w (found source w asks) c.2.specifier ∧
      Offered source w (found source w asks) c.2
  named : ∀ id name, s.shortcuts.get? id = some name ↔ Named source w (answered h) id name

theorem foundIds_concat {source : PackageSource σ} {w : σ} {asks : List Ask} {a : Ask}
    {c : Candidate} (hFind : (find source a.1 w).1 = .ok c) :
    foundIds source w (asks ++ [a]) = foundIds source w asks ++ [c.specifier.id] := by
  unfold foundIds
  rw [filterMap_concat, hFind]
  rfl

theorem named_concat {source : PackageSource σ} {w : σ} {asks : List Ask} {a : Ask} {c : Candidate}
    (hFind : (find source a.1 w).1 = .ok c) {id : PackageId} {name : String} :
    Named source w (asks ++ [a]) id name ↔
      Named source w asks id name ∨ a.2 = some name ∧ c.specifier.id = id := by
  simp only [Named, List.mem_append, List.mem_singleton, or_and_right, exists_or,
    exists_eq_left, hFind, Except.ok.injEq, exists_eq_left']

theorem Named.mem_foundIds {source : PackageSource σ} {w : σ} {asks : List Ask} {id : PackageId}
    {name : String} (hNamed : Named source w asks id name) : id ∈ foundIds source w asks := by
  obtain ⟨a, ha, -, c, hFind, rfl⟩ := hNamed
  exact mem_foundIds_iff.2 ⟨c, ⟨a, ha, hFind⟩, rfl⟩

section Ongoing

variable {w : σ} {asks : List Ask} {s : Selector} {h : List (Step σ)}

theorem asking_concat (asks : List Ask) (a : Ask) :
    asking (asks ++ [a]) = ((asking asks).add a.1 a.2).2 := by
  unfold asking
  rw [List.foldl_append]
  rfl

theorem run_asking (source : PackageSource σ) (asks : List Ask) :
    Run source (asking asks) [] := by
  induction asks using List.reverseRecOn with
  | nil => exact .new
  | append_singleton asks a ih =>
      rw [asking_concat]
      exact .add a.1 a.2 ih

/-- Making direct requests puts them into the queue, and does nothing else. -/
theorem asking_spec (source : PackageSource σ) (asks : List Ask) :
    Consistent source (asking asks) [] ∧ asksOf (asking asks).pending = asks ∧
      (∀ p ∈ (asking asks).pending, p.ask ≠ none) ∧ (asking asks).dependencies = {} ∧
      (asking asks).shortcuts = ∅ := by
  refine ⟨consistent_of_run (run_asking source asks), ?_⟩
  induction asks using List.reverseRecOn with
  | nil => exact ⟨rfl, nofun, rfl, rfl⟩
  | append_singleton asks a ih =>
      obtain ⟨hAsks, hDirect, hSet, hNames⟩ := ih
      rw [asking_concat]
      refine ⟨?_, ?_, hSet, hNames⟩
      · show asksOf ((asking asks).pending ++ [_]) = asks ++ [a]
        rw [asksOf_append, hAsks]
        rfl
      · intro p hp
        rcases List.mem_append.1 hp with hp | hp
        · exact hDirect p hp
        · obtain rfl := List.mem_singleton.1 hp
          exact nofun

/-- The requests wait in their order, under the tokens from one on. -/
theorem pending_asking (asks : List Ask) :
    (asking asks).pending = asks.mapIdx (fun i a => .direct (i + 1) a.1 a.2) ∧
      (asking asks).issued = asks.length := by
  induction asks using List.reverseRecOn with
  | nil => exact ⟨rfl, rfl⟩
  | append_singleton asks a ih =>
      obtain ⟨hPending, hIssued⟩ := ih
      rw [asking_concat]
      simp [add, hPending, hIssued]

theorem ongoing_start (source : PackageSource σ) (w : σ) (asks : List Ask) :
    Ongoing source w asks (asking asks) [] := by
  obtain ⟨hBooks, hAsks, hDirect, hSet, hNames⟩ := asking_spec source asks
  exact {
    books := hBooks
    accounted := hAsks
    directs_first := by
      apply List.Pairwise.imp_of_mem (R := fun _ _ => True)
      · intro p q hp _ _ hNone
        exact absurd hNone (hDirect p hp)
      · exact List.pairwise_of_forall fun _ _ => trivial
    dependencies_last := .inl rfl
    found_requested := nofun
    distinct := List.nodup_nil
    linked := by
      refine ⟨[], hSet ▸ represents_ofRoot none, ?_⟩
      intro x id
      simp [Declares, foundIds, answered, asksOf, considered]
    surpassed := nofun
    sound := nofun
    named := by
      intro id name
      rw [hNames]
      simp [Named, answered, asksOf] }

/-- The step that comes first leaves the short names alone. -/
theorem shortcuts_firstStep {v : σ} {x : Step σ} (hFirst : s.firstStep v = some x) :
    x.before.shortcuts = s.shortcuts := by
  rw [(firstStep_eq_some hFirst).2]

namespace Ongoing

variable (hOngoing : Ongoing source w asks s h) {v : σ} {x : Step σ}
  (hFirst : s.firstStep v = some x)

include hOngoing

theorem covers_of_requested {t u : Specifier} (ht : t ∈ requested source h)
    (hSurpasses : Surpasses t u) : s.covers u := by
  obtain ⟨hId, hLe⟩ := hSurpasses
  obtain ⟨version, hPin, hPinned⟩ := hOngoing.books.greatest.pin_of_mem t ht
  rw [hId] at hPin
  exact (Option.any_eq_true _ _).2 ⟨version, hPin, decide_eq_true (Std.le_trans hLe hPinned)⟩

/-- What a step expands can become a pin, if that is so of all that the step expands. -/
theorem sound_step (hNew : ∀ y, x.expansion source = some y →
      Reached source w (found source w asks) y.2.specifier ∧
        Offered source w (found source w asks) y.2) :
    ∀ c ∈ expansions source (h ++ [x]),
      Reached source w (found source w asks) c.2.specifier ∧
        Offered source w (found source w asks) c.2 := by
  intro c hc
  rw [expansions_concat] at hc
  rcases List.mem_append.1 hc with hc | hc
  · exact hOngoing.sound c hc
  · exact hNew c (Option.mem_toList.1 hc)

include hFirst

/-- The direct requests, of which the first one to be worked off may be the next. -/
theorem accounted_first :
    answered h ++ (x.request.ask.toList ++ asksOf x.before.pending) = asks := by
  have hAccounted := hOngoing.accounted
  rwa [(firstStep_eq_some hFirst).1, asksOf_cons] at hAccounted

/-- The queue after a step. -/
theorem queue_step : answered (h ++ [x]) ++ asksOf (x.outcome source).2.1.pending = asks ∧
    (x.outcome source).2.1.pending.Pairwise fun p q => p.ask = none → q.ask = none := by
  obtain ⟨l, hOutcome, hNone⟩ := x.pending_outcome source
  have hSorted := hOngoing.directs_first
  rw [(firstStep_eq_some hFirst).1] at hSorted
  rw [hOutcome]
  constructor
  · have hNew : asksOf l = [] := List.filterMap_eq_nil_iff.2 hNone
    rw [answered_concat, asksOf_append, hNew, List.append_nil, List.append_assoc]
    exact hOngoing.accounted_first hFirst
  · apply List.pairwise_append.2
    refine ⟨(List.pairwise_cons.1 hSorted).2, ?_, fun p _ q hq _ => hNone q hq⟩
    exact List.Pairwise.imp_of_mem (fun _ hq _ _ => hNone _ hq)
      (List.pairwise_of_forall (R := fun _ _ => True) fun _ _ => trivial)

/-- Of what a step asks for, a version at least as great has been expanded. -/
theorem surpassed_step (hNew : ∀ u, x.version source = some u →
      x.before.covers u ∨ ∃ y, x.expansion source = some y ∧ y.2.specifier = u) :
    ∀ u ∈ requested source (h ++ [x]), ∃ c ∈ expansions source (h ++ [x]),
      Surpasses c.2.specifier u := by
  have hOld : ∀ u ∈ requested source h, ∃ c ∈ expansions source (h ++ [x]),
      Surpasses c.2.specifier u := by
    intro u hu
    obtain ⟨c, hc, hRest⟩ := hOngoing.surpassed u hu
    exact ⟨c, by rw [expansions_concat]; exact List.mem_append_left _ hc, hRest⟩
  intro u hu
  rcases mem_requested_concat.1 hu with hu | hu
  · exact hOld u hu
  · rcases hNew u hu with hCovers | ⟨y, hy, rfl⟩
    · rw [covers_firstStep hFirst] at hCovers
      obtain ⟨t, ht, hSurpasses⟩ := hOngoing.books.exists_requested_of_covers hCovers
      obtain ⟨c, hc, hAbove⟩ := hOld t ht
      exact ⟨c, hc, hAbove.trans hSurpasses⟩
    · refine ⟨y, ?_, rfl, Std.le_refl _⟩
      rw [expansions_concat, hy]
      exact List.mem_append_right _ (List.mem_singleton.2 rfl)

/-- A direct request that is worked off first was made. -/
theorem ask_mem {a : Ask} (ha : x.request.ask = some a) : a ∈ asks := by
  rw [← hOngoing.accounted_first hFirst, ha]
  simp

/-- A direct request is only worked off before all dependencies. -/
theorem considered_eq_nil {a : Ask} (ha : x.request.ask = some a) : considered h = [] := by
  rcases hOngoing.dependencies_last with hNone | hDone
  · exact hNone
  · have hAccounted := hOngoing.accounted_first hFirst
    rw [hDone, ha] at hAccounted
    simp at hAccounted

/-- A version that was found directly is declared, unless an earlier request has found one of the
same package. -/
theorem declare_direct (c : Candidate) :
    (c.specifier.id ∈ foundIds source w (answered h) ∧
      ∃ f d, x.before.dependencies.addDirect (pinned c.specifier) = (.error f, d)) ∨
    c.specifier.id ∉ foundIds source w (answered h) ∧ ∃ d ds,
      x.before.dependencies.addDirect (pinned c.specifier) = (.ok (), d) ∧
      Represents none d ds ∧ ∀ y id, Declares ds y id ↔
        (y = none ∧ id ∈ foundIds source w (answered h) ++ [c.specifier.id]) ∨
          ∃ e ∈ considered h, y = some e.1.id ∧ e.2.id = id := by
  obtain ⟨ds, hRepresents, hLinks⟩ := hOngoing.linked
  rw [(firstStep_spec hFirst).2.1]
  have hDeclares : Declares ds none c.specifier.id ↔
      c.specifier.id ∈ foundIds source w (answered h) := by
    rw [hLinks]
    simp
  rcases addDirect_exact hRepresents (pinned c.specifier) with
    ⟨hOld, f, hRefused⟩ | ⟨hNew, d, hAccepted, hRepresents'⟩
  · exact .inl ⟨hDeclares.1 hOld, f, _, hRefused⟩
  · refine .inr ⟨mt hDeclares.2 hNew, d, _, hAccepted, hRepresents', ?_⟩
    intro y id
    rw [declares_append, hLinks, List.mem_append, List.mem_singleton]
    have hLast : (pinned c.specifier).id = id ↔ id = c.specifier.id := eq_comm
    rw [hLast, and_or_left]
    exact or_right_comm

omit hFirst in
/-- A short name is noted for a package that has none yet. -/
theorem named_direct {request : Request} {shortcut : Option String} {c : Candidate}
    (hFind : (find source request w).1 = .ok c)
    (hNew : c.specifier.id ∉ foundIds source w (answered h)) (id : PackageId) (name : String) :
    (shortcut.elim s.shortcuts (s.shortcuts.insert c.specifier.id)).get? id = some name ↔
      Named source w (answered h ++ [(request, shortcut)]) id name := by
  have hOld := hOngoing.named id name
  rw [named_concat hFind]
  cases shortcut with
  | none => simpa using hOld
  | some n =>
      rw [Option.elim_some, OrderedMap.get?_insert]
      by_cases hId : id = c.specifier.id
      · subst hId
        have hUnnamed : ¬Named source w (answered h) c.specifier.id name :=
          fun hNamed => hNew hNamed.mem_foundIds
        simp [hUnnamed]
      · have hOther : c.specifier.id ≠ id := Ne.symm hId
        simp [hId, hOther, hOld]

theorem direct_step (hSource : source.Deterministic) {token : Nat} {request : Request}
    {shortcut : Option String} (hRequest : x.request = .direct token request shortcut)
    (hFine : x.failure source = none) :
    Ongoing source w asks (x.outcome source).2.1 (h ++ [x]) := by
  have hAsk : x.request.ask = some (request, shortcut) := by rw [hRequest]; rfl
  have hAnswered : answered (h ++ [x]) = answered h ++ [(request, shortcut)] := by
    rw [answered_concat, hAsk, Option.toList_some]
  have hConsidered : considered (h ++ [x]) = considered h := by
    rw [considered_concat, hRequest]
    exact List.append_nil _
  obtain ⟨hAccounted, hSorted⟩ := hOngoing.queue_step hFirst
  rcases Step.direct_cases source hRequest with ⟨f, hFailed, -⟩ |
    ⟨c, d, hFind, hAdd, -, hVersion, hSet, hNames, -, hPin⟩
  · rw [hFine] at hFailed
    cases hFailed
  · rw [find_congr hSource request x.world w] at hFind
    rcases hOngoing.declare_direct hFirst c with
      ⟨-, f, d', hRefused⟩ | ⟨hNew, d', ds, hAccepted, hRepresents, hLinks⟩
    · rw [hRefused] at hAdd
      cases hAdd
    · rw [hAccepted] at hAdd
      obtain rfl : d' = d := congrArg Prod.snd hAdd
      exact {
        books := consistent_step hOngoing.books hFirst
        accounted := hAccounted
        directs_first := hSorted
        dependencies_last := .inl (hConsidered.trans (hOngoing.considered_eq_nil hFirst hAsk))
        found_requested := by
          intro a ha
          rw [hAnswered] at ha
          rcases List.mem_append.1 ha with ha | ha
          · obtain ⟨c', hc', hRequested⟩ := hOngoing.found_requested a ha
            exact ⟨c', hc', mem_requested_concat.2 (.inl hRequested)⟩
          · obtain rfl := List.mem_singleton.1 ha
            exact ⟨c, hFind, mem_requested_concat.2 (.inr hVersion)⟩
        distinct := by
          rw [hAnswered, foundIds_concat hFind, ← List.concat_eq_append]
          exact hOngoing.distinct.concat hNew
        linked := by
          rw [hAnswered, foundIds_concat hFind, hConsidered]
          exact ⟨ds, hSet ▸ hRepresents, hLinks⟩
        surpassed := by
          apply hOngoing.surpassed_step hFirst
          intro u hu
          rw [hVersion] at hu
          cases hu
          rcases hPin with ⟨hCovers, -⟩ | ⟨-, hExpansion⟩
          · exact .inl hCovers
          · exact .inr ⟨_, hExpansion, rfl⟩
        sound := by
          apply hOngoing.sound_step
          intro y hy
          rcases hPin with ⟨-, hExpansion⟩ | ⟨-, hExpansion⟩
          · rw [hExpansion] at hy
            cases hy
          · rw [hExpansion] at hy
            cases hy
            have hDirect : c ∈ found source w asks := ⟨_, hOngoing.ask_mem hFirst hAsk, hFind⟩
            exact ⟨.direct hDirect, .inl hDirect⟩
        named := by
          rw [hNames, shortcuts_firstStep hFirst, hAnswered]
          exact hOngoing.named_direct hFind hNew }

/-- Dependencies are only worked off when all direct requests have been. -/
theorem answered_eq (hAsk : x.request.ask = none) : answered h = asks := by
  have hAccounted := hOngoing.accounted_first hFirst
  have hSorted := hOngoing.directs_first
  rw [(firstStep_eq_some hFirst).1] at hSorted
  have hNone : asksOf x.before.pending = [] := by
    apply List.filterMap_eq_nil_iff.2
    intro p hp
    exact (List.pairwise_cons.1 hSorted).1 p hp hAsk
  rwa [hAsk, hNone, Option.toList_none, List.append_nil, List.append_nil] at hAccounted

/-- A dependency that no pin is as great as can become a pin, and was not found directly. -/
theorem reached_of_not_covers {token : Nat} {parent dependency : Specifier}
    (hRequest : x.request = .transitive token parent dependency)
    (hNew : ¬x.before.covers dependency) :
    Reached source w (found source w asks) dependency ∧
      ∀ c ∈ found source w asks, c.specifier ≠ dependency := by
  have hDone : answered h = asks := hOngoing.answered_eq hFirst (by rw [hRequest]; rfl)
  rw [covers_firstStep hFirst] at hNew
  have hBelow : ∀ c ∈ found source w asks, c.specifier.id = dependency.id →
      c.specifier.version < dependency.version := by
    rintro c ⟨a, ha, hFind⟩ hId
    obtain ⟨c', hFind', hRequested⟩ := hOngoing.found_requested a (hDone ▸ ha)
    rw [hFind] at hFind'
    obtain rfl := Except.ok.inj hFind'
    apply Std.not_le.1
    intro hLe
    exact hNew (hOngoing.covers_of_requested hRequested ⟨hId, hLe⟩)
  have hWaiting : (parent, dependency) ∈ s.waiting := by
    rw [(firstStep_spec hFirst).2.2.2, hRequest]
    exact List.mem_cons_self
  have hQueued := hOngoing.books.booked.queued ▸ List.mem_append_right (considered h) hWaiting
  obtain ⟨c, hc, hAsked⟩ := List.mem_flatMap.1 hQueued
  obtain ⟨d, hd, hSame⟩ := List.mem_map.1 hAsked
  obtain ⟨rfl, rfl⟩ := Prod.mk.inj hSame
  obtain ⟨hReached, hOffered⟩ := hOngoing.sound c hc
  refine ⟨.dependency hReached hOffered hd hBelow, ?_⟩
  rintro c' hc' rfl
  exact Std.lt_irrefl (hBelow c' hc' rfl)

theorem declare_step {token : Nat} {parent dependency : Specifier}
    (hRequest : x.request = .transitive token parent dependency) :
    ∃ d ds, x.before.declare parent dependency = (.ok (), { x.before with dependencies := d }) ∧
      Represents none d ds ∧ ∀ y id, Declares ds y id ↔
        (y = none ∧ id ∈ foundIds source w (answered h)) ∨
          ∃ e ∈ considered (h ++ [x]), y = some e.1.id ∧ e.2.id = id := by
  obtain ⟨ds, hRepresents, hLinks⟩ := hOngoing.linked
  have hParent := hOngoing.books.contains_parent hFirst hRequest
  rw [← (firstStep_spec hFirst).2.1] at hRepresents
  obtain ⟨d, ds', hDeclare, hRepresents', hLinks'⟩ :=
    declare_exact hRepresents hParent dependency
  refine ⟨d, ds', hDeclare, hRepresents', ?_⟩
  intro y id
  have hConsidered : considered (h ++ [x]) = considered h ++ [(parent, dependency)] := by
    rw [considered_concat, hRequest]
    rfl
  rw [hLinks', hLinks, hConsidered]
  simp only [List.mem_append, List.mem_singleton, or_and_right, exists_or, exists_eq_left, or_assoc]

theorem transitive_step (hSource : source.Deterministic) {token : Nat}
    {parent dependency : Specifier} (hRequest : x.request = .transitive token parent dependency)
    (hFine : x.failure source = none) :
    Ongoing source w asks (x.outcome source).2.1 (h ++ [x]) := by
  have hAnswered : answered (h ++ [x]) = answered h := by
    rw [answered_concat, hRequest]
    exact List.append_nil _
  have hVersion : x.version source = some dependency :=
    Step.version_of_dependency (e := (parent, dependency)) (by rw [hRequest]; rfl)
  obtain ⟨d, ds, hDeclare, hRepresents, hLinks⟩ := hOngoing.declare_step hFirst hRequest
  obtain ⟨hSet, hNames, -, hPin⟩ := Step.transitive_cases source hRequest hDeclare
  have hCases : (x.before.covers dependency ∧ x.expansion source = none) ∨
      ¬x.before.covers dependency ∧ ∃ c, (findExactly source dependency w).1 = .ok c ∧
        x.expansion source = some (token, c) := by
    rcases hPin with ⟨hCovers, -, hExpansion⟩ | ⟨hNew, ⟨c, hFind, -, hExpansion⟩ | ⟨f, -, hFailed⟩⟩
    · exact .inl ⟨hCovers, hExpansion⟩
    · rw [findExactly_congr hSource dependency x.world w] at hFind
      exact .inr ⟨hNew, c, hFind, hExpansion⟩
    · rw [hFine] at hFailed
      cases hFailed
  obtain ⟨hAccounted, hSorted⟩ := hOngoing.queue_step hFirst
  exact {
    books := consistent_step hOngoing.books hFirst
    accounted := hAccounted
    directs_first := hSorted
    dependencies_last :=
      .inr (hAnswered.trans (hOngoing.answered_eq hFirst (by rw [hRequest]; rfl)))
    found_requested := by
      intro a ha
      rw [hAnswered] at ha
      obtain ⟨c, hc, hRequested⟩ := hOngoing.found_requested a ha
      exact ⟨c, hc, mem_requested_concat.2 (.inl hRequested)⟩
    distinct := by
      rw [hAnswered]
      exact hOngoing.distinct
    linked := by
      rw [hAnswered]
      exact ⟨ds, hSet ▸ hRepresents, hLinks⟩
    surpassed := by
      apply hOngoing.surpassed_step hFirst
      intro u hu
      rw [hVersion] at hu
      cases hu
      rcases hCases with ⟨hCovers, -⟩ | ⟨-, c, hFind, hExpansion⟩
      · exact .inl hCovers
      · exact .inr ⟨_, hExpansion, specifier_of_findExactly hFind⟩
    sound := by
      apply hOngoing.sound_step
      intro y hy
      rcases hCases with ⟨-, hExpansion⟩ | ⟨hNew, c, hFind, hExpansion⟩
      · rw [hExpansion] at hy
        cases hy
      · rw [hExpansion] at hy
        cases hy
        obtain ⟨hReached, hOther⟩ := hOngoing.reached_of_not_covers hFirst hRequest hNew
        have hSpecifier : c.specifier = dependency := specifier_of_findExactly hFind
        rw [← hSpecifier] at hReached hOther hFind
        exact ⟨hReached, .inr ⟨hOther, hFind⟩⟩
    named := by
      rw [hNames, shortcuts_firstStep hFirst, hAnswered]
      exact hOngoing.named }

/-- Working off a request without a failure goes on like that. -/
theorem step (hSource : source.Deterministic) (hFine : x.failure source = none) :
    Ongoing source w asks (x.outcome source).2.1 (h ++ [x]) := by
  cases hRequest : x.request with
  | direct token request shortcut => exact hOngoing.direct_step hFirst hSource hRequest hFine
  | transitive token parent dependency =>
      exact hOngoing.transitive_step hFirst hSource hRequest hFine

/-- A direct request can be worked off if it finds something, and something else than the others. -/
theorem direct_failure_eq_none (hSource : source.Deterministic)
    (hSolvable : Solvable source w asks) {token : Nat} {request : Request}
    {shortcut : Option String} (hRequest : x.request = .direct token request shortcut) :
    x.failure source = none := by
  have hAsk : x.request.ask = some (request, shortcut) := by rw [hRequest]; rfl
  obtain ⟨c, hFound⟩ := hSolvable.answered _ (hOngoing.ask_mem hFirst hAsk)
  have hNew : c.specifier.id ∉ foundIds source w (answered h) := by
    have hDistinct : (foundIds source w (answered h ++ [(request, shortcut)])).Nodup := by
      refine List.Nodup.sublist (List.Sublist.filterMap _ ?_) hSolvable.distinct
      rw [← hOngoing.accounted_first hFirst, hAsk, ← List.append_assoc]
      exact List.sublist_append_left ..
    rw [foundIds_concat hFound, ← List.concat_eq_append, List.nodup_concat] at hDistinct
    exact hDistinct.1
  rcases Step.direct_cases source hRequest with
    ⟨f, -, -, ⟨hFind, -⟩ | ⟨c', d, hFind, hAdd, -⟩⟩ |
    ⟨c', d, -, -, hFine, -⟩
  · rw [find_congr hSource request x.world w, hFound] at hFind
    cases hFind
  · rw [find_congr hSource request x.world w, hFound] at hFind
    cases hFind
    rcases hOngoing.declare_direct hFirst c with ⟨hOld, -⟩ | ⟨-, d', ds, hAccepted, -⟩
    · exact absurd hOld hNew
    · rw [hAccepted] at hAdd
      cases hAdd
  · exact hFine

/-- A dependency can be worked off if it can be found in case that it can become a pin. -/
theorem transitive_failure_eq_none (hSource : source.Deterministic)
    (hSolvable : Solvable source w asks) {token : Nat} {parent dependency : Specifier}
    (hRequest : x.request = .transitive token parent dependency) : x.failure source = none := by
  obtain ⟨d, ds, hDeclare, -, -⟩ := hOngoing.declare_step hFirst hRequest
  obtain ⟨-, -, -, ⟨-, hFine, -⟩ | ⟨hNew, ⟨c, -, hFine, -⟩ | ⟨f, hFind, -⟩⟩⟩ :=
    Step.transitive_cases source hRequest hDeclare
  · exact hFine
  · exact hFine
  · obtain ⟨hReached, hOther⟩ := hOngoing.reached_of_not_covers hFirst hRequest hNew
    obtain ⟨c, hOffered, rfl⟩ := hSolvable.offered _ hReached
    rcases hOffered with hFound | ⟨-, hFound⟩
    · exact absurd rfl (hOther c hFound)
    · rw [findExactly_congr hSource c.specifier x.world w, hFound] at hFind
      cases hFind

/-- If all that can be asked for can be worked off, no request fails. -/
theorem failure_eq_none (hSource : source.Deterministic) (hSolvable : Solvable source w asks) :
    x.failure source = none := by
  cases hRequest : x.request with
  | direct token request shortcut =>
      exact hOngoing.direct_failure_eq_none hFirst hSource hSolvable hRequest
  | transitive token parent dependency =>
      exact hOngoing.transitive_failure_eq_none hFirst hSource hSolvable hRequest

omit hFirst

/-- A dependency that has been worked off is surpassed by what has been expanded. -/
theorem exists_expanded_of_considered {e : Specifier × Specifier} (he : e ∈ considered h) :
    ∃ c ∈ expansions source h, Surpasses c.2.specifier e.2 :=
  hOngoing.surpassed _ (hOngoing.books.considered_requested e he)

section Done

variable (hDone : answered h = asks)

include hDone

/-- When all direct requests have been worked off, so is what they have found. -/
theorem exists_expanded_of_found {c : Candidate} (hc : c ∈ found source w asks) :
    ∃ e ∈ expansions source h, Surpasses e.2.specifier c.specifier := by
  obtain ⟨a, ha, hFind⟩ := hc
  rw [← hDone] at ha
  obtain ⟨c', hFind', hRequested⟩ := hOngoing.found_requested a ha
  rw [hFind] at hFind'
  obtain rfl := Except.ok.inj hFind'
  exact hOngoing.surpassed _ hRequested

theorem found_unique : ∀ c ∈ found source w asks, ∀ c' ∈ found source w asks,
    c.specifier.id = c'.specifier.id → c = c' :=
  direct_unique (hDone ▸ hOngoing.distinct)

/-- If what is expanded stands for all that can become a pin, then all that can be asked for can be
worked off. -/
theorem solvable {expanded : Set Candidate}
    (hExhausts : Exhausts source w (found source w asks) expanded)
    (hCumulative : Cumulative source w (found source w asks)) : Solvable source w asks where
  answered := by
    intro a ha
    rw [← hDone] at ha
    obtain ⟨c, hFind, -⟩ := hOngoing.found_requested a ha
    exact ⟨c, hFind⟩
  distinct := hDone ▸ hOngoing.distinct
  offered := fun _ => hExhausts.exists_offered (hOngoing.found_unique hDone) hCumulative

end Done

/-- The requests are worked off without a failure, or up to the first one that fails. -/
theorem drain_cases (hSource : source.Deterministic) {fuel : Nat}
    {r : Except Fault Unit × Selector × σ} (hDrain : drain source fuel s v = some r) :
    (∃ s' h' v', r = (.ok (), s', v') ∧ Ongoing source w asks s' h' ∧ s'.pending = []) ∨
      ∃ s' h' v' x f, Ongoing source w asks s' h' ∧ s'.firstStep v' = some x ∧
        x.failure source = some f ∧ r.1 = .error f := by
  induction fuel generalizing s h v with
  | zero =>
      rcases Selector.drain_cases hDrain with ⟨hEmpty, rfl, -⟩ | ⟨x, k, -, hFuel, -⟩
      · exact .inl ⟨s, h, v, rfl, hOngoing, hEmpty⟩
      · cases hFuel
  | succ fuel ih =>
      rcases Selector.drain_cases hDrain with ⟨hEmpty, rfl, -⟩ |
        ⟨x, k, hFirst, hFuel, hNext | hLast⟩
      · exact .inl ⟨s, h, v, rfl, hOngoing, hEmpty⟩
      · cases hFuel
        obtain ⟨t, v', hOutcome, hRest, -⟩ := hNext
        have hGoesOn := hOngoing.step hFirst hSource (Step.failure_of_ok hOutcome)
        rw [hOutcome] at hGoesOn
        exact ih hGoesOn hRest
      · obtain ⟨f, t, v', hOutcome, rfl, -⟩ := hLast
        exact .inr ⟨s, h, v, x, f, hOngoing, hFirst, Step.failure_of_error hOutcome, rfl⟩

end Ongoing

end Ongoing

end Selector

end PackageManager
