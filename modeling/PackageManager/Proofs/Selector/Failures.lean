import PackageManager.Proofs.DependencySet.Refusals
import PackageManager.Proofs.Selector.FirstDrain

/-!
# What a selector can fail with

A selector guards against contradictions in its own books. A declaration may be refused, a package
may stand in the order without a pin, and a pin may have no url. This module says which of these
guards ever speak up, whatever requests were made, whatever the source answered and however earlier
calls ended.

## Why the pins have urls

When a dependency becomes a pin, it is looked up next, and its url is noted unless the source
refuses it. Only then is there a pin without a url (`Lifetime.asked_backed`): the call ends with
what the source has answered, and the pin stays. A later call does not look the version up again,
since it is covered by its own pin, and so comes to an order in which the url is missing.

## Main results

* `Consistent.failure_iff` — the reasons why a request cannot be worked off.
* `Lifetime.missed_of_pin` — a pin without a url is one that the source has refused.
* `order_blames_source` — no package in an order lacks a pin, no dependency is refused by the books,
  and where a url is missing, the source has refused that version in an earlier call.
-/

namespace PackageManager

variable {σ : Type}

/-- The source refuses what a request asks it for. -/
def PackageSource.Refuses (source : PackageSource σ) (w : σ) : PendingRequest → Fault → Prop
  | .direct _ (.latest id) _, f => (source.collection id w).1 = .error f ∨
    ∃ c w' v, source.collection id w = (.ok c, w') ∧ c.latest = some v ∧
      (source.package ⟨id, v⟩ w').1 = .error f
  | .direct _ (.exactly v) _, f => (source.package v w).1 = .error f
  | .direct _ (.unpacked p) _, f => (source.packageAt p w).1 = .error f
  | .transitive _ _ v, f => (source.package v w).1 = .error f

/-- The source has no version of a package, or has withdrawn all of them. -/
def PackageSource.Withdrawn (source : PackageSource σ) (w : σ) (id : PackageId) : Prop :=
  ∃ c, (source.collection id w).1 = .ok c ∧ c.latest = none

namespace Selector

open DependencySet

variable {source : PackageSource σ} {s s' : Selector} {h : List (Step σ)} {x : Step σ} {f : Fault}

/-! ## Why a request cannot be worked off -/

theorem findExactly_eq_error {v : Specifier} {w : σ} :
    (findExactly source v w).1 = .error f ↔ (source.package v w).1 = .error f := by
  unfold findExactly
  rcases source.package v w with ⟨g | r, w'⟩
  · simp
  · simp

/-- A direct request finds nothing if the source refuses it, or if everything is withdrawn. -/
theorem find_eq_error {request : Request} {w : σ} (token : Nat) (shortcut : Option String) :
    (find source request w).1 = .error f ↔
      source.Refuses w (.direct token request shortcut) f ∨
        ∃ id, request = .latest id ∧ source.Withdrawn w id ∧
          f = .resolution (.noUsableVersion id) := by
  cases request with
  | latest id =>
      unfold find PackageSource.Refuses PackageSource.Withdrawn
      rcases hCollection : source.collection id w with ⟨g | c, w'⟩
      · simp [hCollection]
      · cases hLatest : c.latest with
        | none => simp [hCollection, hLatest, eq_comm]
        | some v => simp [hCollection, hLatest, findExactly_eq_error]
  | exactly v => simpa [find, PackageSource.Refuses] using findExactly_eq_error
  | unpacked p =>
      unfold find PackageSource.Refuses
      rcases hFile : source.packageAt p w with ⟨g | r, w'⟩
      · simp [hFile]
      · simp [hFile]

/-- A dependency whose turn it is can be declared. -/
theorem Consistent.declare_first {w : σ} (hBooks : Consistent source s h)
    (hFirst : s.firstStep w = some x) {token : Nat} {parent dependency : Specifier}
    (hRequest : x.request = .transitive token parent dependency) :
    ∃ d, x.before.declare parent dependency = (.ok (), { x.before with dependencies := d }) := by
  obtain ⟨ds, hDeclared⟩ := hBooks.declared
  have hRepresents := hDeclared.represents
  rw [← (firstStep_spec hFirst).2.1] at hRepresents
  obtain ⟨d, -, hDeclare, -⟩ :=
    declare_exact hRepresents (hBooks.contains_parent hFirst hRequest) dependency
  exact ⟨d, hDeclare⟩

/-- A direct request fails if it finds nothing, or if the project depends on what it finds. -/
theorem Consistent.direct_failure_iff {w : σ} (hBooks : Consistent source s h)
    (hFirst : s.firstStep w = some x) {token : Nat} {request : Request} {shortcut : Option String}
    (hRequest : x.request = .direct token request shortcut) :
    x.failure source = some f ↔
      (find source request x.world).1 = .error f ∨
        ∃ c, (find source request x.world).1 = .ok c ∧
          x.before.dependencies.containsDirect c.specifier.id ∧
          f = .graph (.alreadyDeclared c.specifier.id none) := by
  obtain ⟨ds, hDeclared⟩ := hBooks.declared
  have hRepresents := hDeclared.represents
  rw [← (firstStep_spec hFirst).2.1] at hRepresents
  have hRefused := fun (c : Candidate) (g : Fault) (d : DependencySet) =>
    hRepresents.addDirect_eq_error_iff (d := pinned c.specifier) (f := g) (t := d)
  simp only [← hRepresents.containsDirect_iff] at hRefused
  rcases Step.direct_cases source hRequest with
    ⟨g, hFailed, -, ⟨hFind, -⟩ | ⟨c, d, hFind, hAdd, -⟩⟩ | ⟨c, d, hFind, hAdd, hFine, -⟩
  · simp [hFailed, hFind]
  · obtain ⟨⟨hOld, rfl⟩, -⟩ := (hRefused c g d).1 hAdd
    rw [hFailed, hFind]
    constructor
    · intro hSame
      cases hSame
      exact .inr ⟨c, rfl, hOld, rfl⟩
    · rintro (hError | ⟨c', hSame, -, rfl⟩)
      · cases hError
      · cases hSame
        rfl
  · have hNew : ¬x.before.dependencies.containsDirect c.specifier.id := by
      intro hOld
      rw [(hRefused c _ _).2 ⟨⟨hOld, rfl⟩, rfl⟩] at hAdd
      cases hAdd
    simp [hFine, hFind, hNew]

/-- A dependency fails if no pin covers it and the source refuses it. -/
theorem Consistent.transitive_failure_iff {w : σ} (hBooks : Consistent source s h)
    (hFirst : s.firstStep w = some x) {token : Nat} {parent dependency : Specifier}
    (hRequest : x.request = .transitive token parent dependency) :
    x.failure source = some f ↔
      ¬x.before.covers dependency ∧ (source.package dependency x.world).1 = .error f := by
  obtain ⟨d, hDeclare⟩ := hBooks.declare_first hFirst hRequest
  rw [← findExactly_eq_error]
  obtain ⟨-, -, -, ⟨hCovers, hFine, -⟩ | ⟨hNew, ⟨c, hFind, hFine, -⟩ | ⟨g, hFind, hFailed⟩⟩⟩ :=
    Step.transitive_cases source hRequest hDeclare
  · simp [hFine, hCovers]
  · simp [hFine, hFind]
  · simp [hFailed, hFind, hNew]

/-- The reasons why the request of a step cannot be worked off. -/
inductive Step.Fails (source : PackageSource σ) (x : Step σ) : Fault → Prop
  /-- The source refuses it. A dependency is only looked up if no pin covers it. -/
  | refused {f : Fault} : (∀ e, x.request.dependency = some e → ¬x.before.covers e.2) →
    source.Refuses x.world x.request f → Fails source x f
  | withdrawn {token : Nat} {id : PackageId} {shortcut : Option String} :
    x.request = .direct token (.latest id) shortcut → source.Withdrawn x.world id →
    Fails source x (.resolution (.noUsableVersion id))
  /-- The project depends on the package already. -/
  | repeated {token : Nat} {request : Request} {shortcut : Option String} {c : Candidate} :
    x.request = .direct token request shortcut → (find source request x.world).1 = .ok c →
    x.before.dependencies.containsDirect c.specifier.id →
    Fails source x (.graph (.alreadyDeclared c.specifier.id none))

/-- A request that is worked off fails for one of these reasons, and only then. -/
theorem Consistent.failure_iff {w : σ} (hBooks : Consistent source s h)
    (hFirst : s.firstStep w = some x) : x.failure source = some f ↔ x.Fails source f := by
  cases hRequest : x.request with
  | direct token request shortcut =>
      have hDirect : ∀ e, x.request.dependency = some e → ¬x.before.covers e.2 := by
        intro e he
        rw [hRequest] at he
        cases he
      rw [hBooks.direct_failure_iff hFirst hRequest, find_eq_error token shortcut]
      constructor
      · rintro ((hRefuses | ⟨id, rfl, hNone, rfl⟩) | ⟨c, hFind, hOld, rfl⟩)
        · exact .refused hDirect (hRequest ▸ hRefuses)
        · exact .withdrawn hRequest hNone
        · exact .repeated hRequest hFind hOld
      · rintro (⟨-, hRefuses⟩ | ⟨hSame, hNone⟩ | ⟨hSame, hFind, hOld⟩)
        · exact .inl (.inl (hRequest ▸ hRefuses))
        · rw [hRequest] at hSame
          cases hSame
          exact .inl (.inr ⟨_, rfl, hNone, rfl⟩)
        · rw [hRequest] at hSame
          cases hSame
          exact .inr ⟨_, hFind, hOld, rfl⟩
  | transitive token parent dependency =>
      rw [hBooks.transitive_failure_iff hFirst hRequest]
      constructor
      · rintro ⟨hNew, hRefuses⟩
        refine .refused ?_ ?_
        · intro e he
          rw [hRequest] at he
          cases he
          exact hNew
        · rw [hRequest]
          exact hRefuses
      · rintro (⟨hNew, hRefuses⟩ | ⟨hSame, -⟩ | ⟨hSame, -⟩)
        · rw [hRequest] at hRefuses
          exact ⟨hNew (parent, dependency) (by rw [hRequest]; rfl), hRefuses⟩
        · rw [hRequest] at hSame
          cases hSame
        · rw [hRequest] at hSame
          cases hSame

/-- Unless the source refuses it, a request fails only if it is a direct one. -/
theorem Step.Fails.reason (hFails : x.Fails source f) : source.Refuses x.world x.request f ∨
    x.request.isDirect ∧ ∃ id, f = .resolution (.noUsableVersion id) ∨
      f = .graph (.alreadyDeclared id none) := by
  cases hFails with
  | refused _ hRefuses => exact .inl hRefuses
  | withdrawn hRequest => exact .inr ⟨by rw [hRequest]; rfl, _, .inl rfl⟩
  | repeated hRequest => exact .inr ⟨by rw [hRequest]; rfl, _, .inr rfl⟩

/-! ## Versions without urls -/

/-- A step has looked a version up that another one depends on, and failed as the source refused
it. -/
def Step.Misses (source : PackageSource σ) (x : Step σ) (v : Specifier) : Prop :=
  ∃ token parent f, x.request = .transitive token parent v ∧ x.failure source = some f ∧
    (source.package v x.world).1 = .error f

/-- What a step asks for is covered by a pin, or it is expanded, unless the source refuses it. -/
theorem Consistent.asked_cases {w : σ} (hBooks : Consistent source s h)
    (hFirst : s.firstStep w = some x) {v : Specifier} (hVersion : x.version source = some v) :
    x.before.covers v ∨ (∃ y, x.expansion source = some y ∧ y.2.specifier = v) ∨
      x.Misses source v := by
  cases hRequest : x.request with
  | direct token request shortcut =>
      rcases Step.direct_cases source hRequest with
        ⟨f, -, hNone, -⟩ | ⟨c, d, -, -, -, hSome, -, -, -, hPin⟩
      · rw [hNone] at hVersion
        cases hVersion
      · rw [hSome] at hVersion
        cases hVersion
        rcases hPin with ⟨hCovers, -⟩ | ⟨-, hExpansion⟩
        · exact .inl hCovers
        · exact .inr (.inl ⟨_, hExpansion, rfl⟩)
  | transitive token parent dependency =>
      have hSome : x.version source = some dependency :=
        Step.version_of_dependency (e := (parent, dependency)) (by rw [hRequest]; rfl)
      rw [hSome] at hVersion
      cases hVersion
      obtain ⟨d, hDeclare⟩ := hBooks.declare_first hFirst hRequest
      obtain ⟨-, -, -, ⟨hCovers, -, -⟩ | ⟨-, ⟨c, hFind, -, hExpansion⟩ | ⟨f, hFind, hFailed⟩⟩⟩ :=
        Step.transitive_cases source hRequest hDeclare
      · exact .inl hCovers
      · exact .inr (.inl ⟨_, hExpansion, specifier_of_findExactly hFind⟩)
      · exact .inr (.inr ⟨token, parent, f, hRequest, hFailed, findExactly_eq_error.1 hFind⟩)

/-- Some steps have expanded a version, or the source has refused it to one of them. -/
def Backed (source : PackageSource σ) (h : List (Step σ)) (v : Specifier) : Prop :=
  (∃ y ∈ expansions source h, y.2.specifier = v) ∨ ∃ x ∈ h, x.Misses source v

theorem Backed.concat {v : Specifier} (hBacked : Backed source h v) (x : Step σ) :
    Backed source (h ++ [x]) v := by
  rcases hBacked with ⟨y, hy, hSame⟩ | ⟨z, hz, hMisses⟩
  · refine .inl ⟨y, ?_, hSame⟩
    rw [expansions_concat]
    exact List.mem_append_left _ hy
  · exact .inr ⟨z, List.mem_append_left _ hz, hMisses⟩

/-- Of each package that was asked for, a version at least as great was expanded or refused. -/
theorem Lifetime.asked_backed (hRun : Run source s h) :
    ∀ v ∈ requested source h, ∃ u, Surpasses u v ∧ Backed source h u := by
  have hAll : Consistent source s h ∧
      ∀ v ∈ requested source h, ∃ u, Surpasses u v ∧ Backed source h u := by
    refine hRun.induction (P := fun s h => Consistent source s h ∧
      ∀ v ∈ requested source h, ∃ u, Surpasses u v ∧ Backed source h u) ?_ ?_ ?_
    · intro s h w x ⟨hBooks, hOld⟩ hFirst
      have hKept : ∀ v ∈ requested source h, ∃ u, Surpasses u v ∧ Backed source (h ++ [x]) u := by
        intro v hv
        obtain ⟨u, hSurpasses, hBacked⟩ := hOld v hv
        exact ⟨u, hSurpasses, hBacked.concat x⟩
      constructor
      · exact consistent_step hBooks hFirst
      intro v hv
      rcases mem_requested_concat.1 hv with hv | hVersion
      · exact hKept v hv
      · rcases hBooks.asked_cases hFirst hVersion with hCovers | ⟨y, hy, hSame⟩ | hMisses
        · rw [covers_firstStep hFirst] at hCovers
          obtain ⟨t, ht, hAbove⟩ := hBooks.exists_requested_of_covers hCovers
          obtain ⟨u, hSurpasses, hBacked⟩ := hKept t ht
          exact ⟨u, hSurpasses.trans hAbove, hBacked⟩
        · refine ⟨v, ⟨rfl, Std.le_refl _⟩, .inl ⟨y, ?_, hSame⟩⟩
          rw [expansions_concat, hy]
          exact List.mem_append_right _ (List.mem_singleton.2 rfl)
        · exact ⟨v, ⟨rfl, Std.le_refl _⟩,
            .inr ⟨x, List.mem_append_right _ (List.mem_singleton.2 rfl), hMisses⟩⟩
    · exact ⟨consistent_new, nofun⟩
    · exact fun s h request shortcut ⟨hBooks, hOld⟩ =>
        ⟨consistent_add hBooks request shortcut, hOld⟩
  exact hAll.2

/-- A pin without a url is one that the source has refused. -/
theorem Lifetime.missed_of_pin (hRun : Run source s h) {v : Specifier}
    (hPin : s.pins.get? v.id = some v.version) (hUrl : s.expanded.get? v = none) :
    ∃ x ∈ h, x.Misses source v := by
  have hBooks := consistent_of_run hRun
  obtain ⟨u, ⟨hId, hLe⟩, hBacked⟩ :=
    hRun.asked_backed v (hBooks.greatest.mem_of_pin v.id v.version hPin)
  -- nothing greater than a pin was asked for
  have hSame : u ∈ requested source h → u = v := by
    intro hu
    obtain ⟨version, hPin', hGe⟩ := hBooks.greatest.pin_of_mem u hu
    rw [hId, hPin] at hPin'
    obtain rfl := Option.some.inj hPin'
    exact Specifier.eq_of_parts hId (Std.le_antisymm hGe hLe)
  rcases hBacked with ⟨y, hy, rfl⟩ | ⟨x, hx, hMisses⟩
  · have hNoted := (hBooks.booked.recorded v _).2
      ⟨y, hy, hSame (hBooks.expanded_requested y hy), rfl⟩
    rw [hUrl] at hNoted
    cases hNoted
  · obtain ⟨token, parent, f, hRequest, hRest⟩ := hMisses
    have hVersion : x.version source = some u :=
      Step.version_of_dependency (e := (parent, u)) (by rw [hRequest]; rfl)
    obtain rfl := hSame (List.mem_filterMap.2 ⟨x, hx, hVersion⟩)
    exact ⟨x, hx, token, parent, f, hRequest, hRest⟩

/-! ## Orders that cannot be given out -/

/-- The selected versions cannot be listed if packages depend on each other in a circle, or if a pin
has no url. -/
theorem Consistent.selections_error (hBooks : Consistent source s h)
    (hError : s.selections = .error f) :
    (∃ id, f = .graph (.dependencyCycle (some id))) ∨
      ∃ v, f = .graph (.withoutUrl v) ∧ s.pins.get? v.id = some v.version ∧
        s.expanded.get? v = none := by
  obtain ⟨ds, hDeclared⟩ := hBooks.declared
  unfold selections at hError
  cases hOrder : s.dependencies.resolutionOrder with
  | error g =>
      rw [hOrder] at hError
      cases hError
      obtain ⟨id, rfl, -⟩ := hDeclared.represents.onCycle_of_error hOrder
      exact .inl ⟨id, rfl⟩
  | ok packages =>
      rw [hOrder] at hError
      obtain ⟨p, hp, hSelection⟩ := exists_error_of_mapM hError
      obtain ⟨hAbout, -⟩ :=
        (hDeclared.represents.mem_ids_iff hOrder).1 (List.mem_map_of_mem hp)
      obtain ⟨v, hv, hId⟩ := (hDeclared.about_iff p.id).1 hAbout
      obtain ⟨version, hPin, -⟩ := hBooks.greatest.pin_of_mem v hv
      rw [hId] at hPin
      unfold selectionOf at hSelection
      rw [hPin] at hSelection
      dsimp only at hSelection
      split at hSelection
      · next hUrl =>
          cases hSelection
          exact .inr ⟨⟨p.id, version⟩, rfl, hPin, hUrl⟩
      · cases hSelection

/-- A call that is to give out an order fails because one of its requests does, or because the
selected versions cannot be listed. -/
theorem failure_of_order {fuel : Nat} {w w' : σ}
    (hOrder : order source fuel s w = some (.error f, s', w')) :
    (∃ x ∈ steps source fuel s w, x.failure source = some f) ∨
      (∀ x ∈ steps source fuel s w, x.failure source = none) ∧ s'.selections = .error f := by
  rcases order_eq_some hOrder with ⟨hDrain, hSelections⟩ | ⟨g, hDrain, hAnswer⟩
  · exact .inr ⟨List.filterMap_eq_nil_iff.1 (failures_steps hDrain), hSelections.symm⟩
  · cases hAnswer
    have hLast : f ∈ (steps source fuel s w).filterMap (Step.failure source) := by
      rw [failures_steps hDrain]
      exact List.mem_singleton.2 rfl
    exact .inl (List.mem_filterMap.1 hLast)

/-- Whatever calls were made on a selector, a dependency that is worked off is declared without
objection, and fails only with what the source answers when asked for that version. The packages of
an order all have pins, and where the url of a version is missing, the source has refused that
version as a dependency. So a call that is to give out an order fails with what the source answers,
or because a direct request finds nothing but withdrawn versions or a package that was asked for
before, or because packages depend on each other in a circle, or because the source has refused a
dependency in an earlier call. -/
theorem order_blames_source (hRun : Run source s h) :
    (∀ x ∈ h, ∀ token parent v, x.request = .transitive token parent v →
      (x.before.declare parent v).1 = .ok () ∧
      ∀ f, x.failure source = some f → (source.package v x.world).1 = .error f) ∧
    (∀ id, s.selections ≠ .error (.graph (.unpinned id))) ∧
    (∀ v, s.selections = .error (.graph (.withoutUrl v)) → ∃ x ∈ h, x.Misses source v) ∧
    (∀ fuel w f s' w', order source fuel s w = some (.error f, s', w') →
      (∃ x ∈ steps source fuel s w, x.failure source = some f ∧
        (source.Refuses x.world x.request f ∨
          x.request.isDirect ∧ ∃ id, f = .resolution (.noUsableVersion id) ∨
            f = .graph (.alreadyDeclared id none))) ∨
      (∃ id, f = .graph (.dependencyCycle (some id))) ∨
      ∃ v, f = .graph (.withoutUrl v) ∧ ∃ x ∈ h, x.Misses source v) ∧
    (∀ id, (Fault.graph (.unpinned id)).detail = "no version was pinned for " ++ id.text) ∧
    ∀ v, (Fault.graph (.withoutUrl v)).detail = "missing package url for " ++ v.text := by
  have hBooks := consistent_of_run hRun
  refine ⟨?_, ?_, ?_, ?_, fun id => rfl, fun v => rfl⟩
  · intro x hx token parent v hRequest
    obtain ⟨t, h', w, hBooks', hFirst⟩ := hRun.exists_first hx
    obtain ⟨d, hDeclare⟩ := hBooks'.declare_first hFirst hRequest
    constructor
    · rw [hDeclare]
    · intro f hFailure
      exact ((hBooks'.transitive_failure_iff hFirst hRequest).1 hFailure).2
  · intro id hError
    rcases hBooks.selections_error hError with ⟨id', hSame⟩ | ⟨v, hSame, -⟩
    · cases hSame
    · cases hSame
  · intro v hError
    rcases hBooks.selections_error hError with ⟨id', hSame⟩ | ⟨v', hSame, hPin, hUrl⟩
    · cases hSame
    · cases hSame
      exact hRun.missed_of_pin hPin hUrl
  · intro fuel w f s' w' hOrder
    have hNext := hRun.order fuel w hOrder
    rcases failure_of_order hOrder with ⟨x, hx, hFailure⟩ | ⟨hFine, hError⟩
    · obtain ⟨t, h', w, hBooks', hFirst⟩ := hNext.exists_first (List.mem_append_right h hx)
      exact .inl ⟨x, hx, hFailure, ((hBooks'.failure_iff hFirst).1 hFailure).reason⟩
    · rcases (consistent_of_run hNext).selections_error hError with hCycle | ⟨v, rfl, hPin, hUrl⟩
      · exact .inr (.inl hCycle)
      · obtain ⟨x, hx, hMisses⟩ := hNext.missed_of_pin hPin hUrl
        refine .inr (.inr ⟨v, rfl, x, ?_, hMisses⟩)
        -- the refusal has ended its call, so that was an earlier one
        rcases List.mem_append.1 hx with hx | hx
        · exact hx
        · obtain ⟨token, parent, g, -, hFailure, -⟩ := hMisses
          rw [hFine x hx] at hFailure
          cases hFailure

/-- A package that depends on one which does not exist. -/
def gappyStock : PackageTable := .ofRecords [stockRecord "a" 1 [stockSpecifier "c" 1]]

def gappySource : PackageSource Unit := gappyStock.source fun _ => {}

def gappySelector : Selector := (({} : Selector).add (.exactly (stockSpecifier "a" 1))).2

/-- The order is asked for twice. The first time the missing package is reported, and the second
time its url. -/
theorem order_blames_source_gappy : ∃ s h s' w,
    Run gappySource s h ∧
    order gappySource 10 s () =
      some (.error (.graph (.withoutUrl (stockSpecifier "c" 1))), s', w) ∧
    ∃ x ∈ h, x.Misses gappySource (stockSpecifier "c" 1) := by
  have hTwice : ((order gappySource 10 gappySelector ()).bind fun r =>
      (order gappySource 10 r.2.1 ()).map fun r' => (r.1, r'.1, r.2.1.selections)) =
      some (.error (.resolution (.missingPackage (stockSpecifier "c" 1))),
        .error (.graph (.withoutUrl (stockSpecifier "c" 1))),
        .error (.graph (.withoutUrl (stockSpecifier "c" 1)))) := by
    decide +kernel
  obtain ⟨⟨first, s, w⟩, hFirst, hRest⟩ := Option.bind_eq_some_iff.1 hTwice
  obtain ⟨⟨second, s', w'⟩, hSecond, hAnswers⟩ := Option.map_eq_some_iff.1 hRest
  obtain ⟨rfl, hAnswers⟩ := Prod.mk.inj hAnswers
  obtain ⟨rfl, hSelections⟩ := Prod.mk.inj hAnswers
  have hRun : Run gappySource s ([] ++ steps gappySource 10 gappySelector ()) :=
    .order 10 () (.add _ _ .new) hFirst
  obtain ⟨-, -, hMissing, -⟩ := order_blames_source hRun
  exact ⟨s, _, s', w', hRun, hSecond, hMissing _ hSelections⟩

end Selector

end PackageManager
