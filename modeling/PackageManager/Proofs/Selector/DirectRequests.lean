import PackageManager.Proofs.Selector.InstallOrder

/-!
# What becomes of direct requests

Whoever asks a selector for packages expects to find them in every order that it gives out later.
That holds as long as no call fails. A request leaves the queue before it is worked off, so the one
that a call fails at is gone: the call reports the failure, and a later call succeeds without the
package. This module says exactly which requests are lost.

## The accounts

No request disappears unnoticed: those that were made are those that have been worked off and those
that wait, in this order (`Calls.accounted`). And no failure is hidden: each request that could
not be worked off has ended a call, which reported it (`Calls.failures_reported`).

## Main results

* `order_answers_requests` — an order that is given out lists the package of each request made
  before, but for those of which an earlier call has reported the failure.
* `order_misses_failed_request` — there are such requests.
-/

namespace PackageManager

/-- Whether a request was made directly. -/
def PendingRequest.isDirect : PendingRequest → Bool
  | .direct _ _ _ => true
  | .transitive _ _ _ => false

/-- A version may answer a request. Which one a file holds is not known before it is read. -/
def Request.Admits : Request → Specifier → Prop
  | .latest id, v => v.id = id
  | .exactly u, v => v = u
  | .unpacked _, _ => True

namespace Selector

variable {σ : Type}

/-- The direct requests among some. -/
def directs (l : List PendingRequest) : List PendingRequest := l.filter (·.isDirect)

section Source

variable (source : PackageSource σ)

/-- Why the request of a step could not be worked off, if it could not. -/
def Step.failure (x : Step σ) : Option Fault := Selector.failure (x.outcome source).1

end Source

variable {source : PackageSource σ} {s s' : Selector} {made : List PendingRequest}
  {h : List (Step σ)} {faults : List Fault}

/-! ## The queue -/

theorem directs_append (l l' : List PendingRequest) : directs (l ++ l') = directs l ++ directs l' :=
  List.filter_append ..

theorem directs_expand (s : Selector) (token : Nat) (c : Candidate) :
    directs (s.expand token c).pending = directs s.pending := by
  have hNone : directs (c.dependencies.mapIdx fun i d =>
      .transitive (s.issued + i + 1) c.specifier d) = [] := by
    refine List.filter_eq_nil_iff.2 fun p hp => ?_
    obtain ⟨i, hi, rfl⟩ := List.mem_mapIdx.1 hp
    simp [PendingRequest.isDirect]
  unfold expand
  rw [directs_append, hNone, List.append_nil]

/-- The direct requests that were made are those worked off and those that wait. -/
def Accounted (made : List PendingRequest) (s : Selector) (h : List (Step σ)) : Prop :=
  directs (h.map (·.request)) ++ directs s.pending = made

theorem accounted_add (hMade : Accounted made s h) (request : Request) (shortcut : Option String) :
    Accounted (made ++ [.direct (s.add request shortcut).1 request shortcut])
      (s.add request shortcut).2 h := by
  unfold Accounted at hMade ⊢
  rw [← hMade, List.append_assoc]
  exact congrArg _ (directs_append s.pending _)

/-- Working off a request takes it from the queue, and puts no direct request there. -/
theorem accounted_step {w : σ} {x : Step σ} (hBooks : Consistent source s h)
    (hMade : Accounted made s h) (hFirst : s.firstStep w = some x) :
    Accounted made (x.outcome source).2.1 (h ++ [x]) := by
  have hQueue : directs (x.outcome source).2.1.pending = directs x.before.pending := by
    have hSettled := (hBooks.settled_spec hFirst).1.pending
    rcases x.outcome_cases source with ⟨c, -, -, hOutcome⟩ | ⟨-, hOutcome⟩
    · rw [hOutcome, directs_expand, hSettled]
    · rw [hOutcome, hSettled]
  unfold Accounted at hMade ⊢
  rw [hQueue, ← hMade, List.map_append, directs_append, List.append_assoc]
  rw [(firstStep_eq_some hFirst).1]
  exact congrArg _ (directs_append [x.request] x.before.pending).symm

theorem accounted_drain {fuel : Nat} {w : σ} {r : Except Fault Unit × Selector × σ}
    (hRun : Run source s h) (hMade : Accounted made s h)
    (hDrain : drain source fuel s w = some r) :
    Accounted made r.2.1 (h ++ steps source fuel s w) := by
  have hStep : ∀ (s : Selector) (h : List (Step σ)) w x,
      Consistent source s h ∧ Accounted made s h → s.firstStep w = some x →
        Consistent source (x.outcome source).2.1 (h ++ [x]) ∧
          Accounted made (x.outcome source).2.1 (h ++ [x]) :=
    fun _ _ _ _ ⟨hBooks, hMade⟩ hFirst =>
      ⟨consistent_step hBooks hFirst, accounted_step hBooks hMade hFirst⟩
  exact (drain_induction hStep ⟨consistent_of_run hRun, hMade⟩ hDrain).2

/-- No direct request disappears. -/
theorem Calls.accounted (hSession : Session source s made h faults) : Accounted made s h := by
  induction hSession with
  | new => rfl
  | add request shortcut _ ih => exact accounted_add ih request shortcut
  | select fuel w hSession hDrain ih => exact accounted_drain hSession.lifetime ih hDrain
  | order fuel w hSession hOrder ih =>
      rcases order_eq_some hOrder with ⟨hDrain, -⟩ | ⟨f, hDrain, -⟩
      · exact accounted_drain hSession.lifetime ih hDrain
      · exact accounted_drain hSession.lifetime ih hDrain

/-- A direct request that was worked off was made. -/
theorem Calls.made_of_step (hSession : Session source s made h faults) {x : Step σ} (hx : x ∈ h)
    (hDirect : x.request.isDirect) : x.request ∈ made := by
  rw [← hSession.accounted]
  exact List.mem_append_left _ (List.mem_filter.2 ⟨List.mem_map_of_mem hx, hDirect⟩)

/-- A request that was made has been worked off if none waits. -/
theorem Calls.step_of_made (hSession : Session source s made h faults) (hEmpty : s.pending = [])
    {p : PendingRequest} (hp : p ∈ made) : ∃ x ∈ h, x.request = p ∧ p.isDirect := by
  have hAccounted := hSession.accounted
  unfold Accounted at hAccounted
  rw [hEmpty, directs, directs, List.filter_nil, List.append_nil] at hAccounted
  rw [← hAccounted] at hp
  obtain ⟨hMem, hDirect⟩ := List.mem_filter.1 hp
  obtain ⟨x, hx, hRequest⟩ := List.mem_map.1 hMem
  exact ⟨x, hx, hRequest, hDirect⟩

/-! ## Failures -/

/-- The requests that could not be worked off are those at which calls ended. -/
theorem failures_steps {fuel : Nat} {w w' : σ} {answer : Except Fault Unit}
    (hDrain : drain source fuel s w = some (answer, s', w')) :
    (steps source fuel s w).filterMap (Step.failure source) = (failure answer).toList := by
  induction fuel generalizing s w with
  | zero =>
      rcases drain_cases hDrain with ⟨-, hResult, hSteps⟩ | ⟨x, k, -, hFuel, -⟩
      · cases hResult
        rw [hSteps]
        rfl
      · cases hFuel
  | succ fuel ih =>
      rcases drain_cases hDrain with ⟨-, hResult, hSteps⟩ | ⟨x, k, -, hFuel, hNext | hLast⟩
      · cases hResult
        rw [hSteps]
        rfl
      · cases hFuel
        obtain ⟨t, v, hOutcome, hRest, hSteps⟩ := hNext
        have hFine : x.failure source = none := by rw [Step.failure, hOutcome]; rfl
        rw [hSteps, List.filterMap_cons_none hFine]
        exact ih hRest
      · obtain ⟨f, t, v, hOutcome, hResult, hSteps⟩ := hLast
        cases hResult
        have hFailed : x.failure source = some f := by rw [Step.failure, hOutcome]; rfl
        rw [hSteps, List.filterMap_cons_some hFailed]
        rfl

/-- Whatever could not be worked off, a call has reported it. -/
theorem Calls.failures_reported (hSession : Session source s made h faults) :
    (h.filterMap (Step.failure source)).Sublist faults := by
  induction hSession with
  | new => exact .slnil
  | add request shortcut _ ih => exact ih
  | select fuel w _ hDrain ih =>
      rw [List.filterMap_append, failures_steps hDrain]
      exact ih.append (List.Sublist.refl _)
  | order fuel w _ hOrder ih =>
      rw [List.filterMap_append]
      rcases order_eq_some hOrder with ⟨hDrain, -⟩ | ⟨f, hDrain, rfl⟩
      · rw [failures_steps hDrain]
        exact ih.append (List.nil_sublist _)
      · rw [failures_steps hDrain]
        exact ih.append (List.Sublist.refl _)

/-! ## What is listed -/

/-- What a request finds may answer it. -/
theorem admits_of_find {request : Request} {w w' : σ} {c : Candidate}
    (hFind : find source request w = (.ok c, w')) : request.Admits c.specifier := by
  have hYields : Yields source request w c := (find_eq_ok_iff source).1 (congrArg Prod.fst hFind)
  cases request with
  | latest id =>
      obtain ⟨-, -, hId, -⟩ := hYields
      exact hId
  | exactly v => exact hYields.1
  | unpacked p => trivial

theorem Step.failure_eq (source : PackageSource σ) (x : Step σ) :
    x.failure source = Selector.failure (x.settled source).1 := by
  unfold Step.failure Step.outcome process Step.settled
  rcases settle source x.request x.before x.world with ⟨answer, s, w⟩
  cases answer with
  | error f => rfl
  | ok result => cases result <;> rfl

/-- A step that fails expands nothing. -/
theorem Step.expansion_of_failure {x : Step σ} {f : Fault} (hFailed : x.failure source = some f) :
    x.expansion source = none := by
  rw [Step.failure_eq] at hFailed
  unfold Step.expansion
  generalize (x.settled source).1 = answer at hFailed ⊢
  cases answer with
  | error f' => rfl
  | ok result => cases hFailed

/-- A direct request that has been worked off has found a version and asked for it. -/
theorem Step.version_of_direct {x : Step σ} {token : Nat} {request : Request}
    {shortcut : Option String} (hDirect : x.request = .direct token request shortcut)
    (hFine : x.failure source = none) :
    ∃ c w', find source request x.world = (.ok c, w') ∧
      x.version source = some c.specifier := by
  obtain ⟨p, s, w⟩ := x
  obtain rfl : p = _ := hDirect
  rw [Step.failure_eq] at hFine
  unfold Step.version
  rcases hFind : find source request w with ⟨f | c, w'⟩
  · have hSettled : (Step.settled source ⟨.direct token request shortcut, s, w⟩).1 = .error f := by
      simp only [Step.settled, settle, settleDirect, hFind]
    rw [hSettled] at hFine
    cases hFine
  · refine ⟨c, w', rfl, ?_⟩
    rcases hSettled : (Step.settled source ⟨.direct token request shortcut, s, w⟩).1 with f | result
    · rw [hSettled] at hFine
      cases hFine
    · simp only [hFind]

section Order

variable {fuel : Nat} {w w' : σ} {l : List Selection}

/-- The listed packages are those of the versions that were asked for. -/
theorem Consistent.listed_iff (hBooks : Consistent source s h) (hSelections : s.selections = .ok l)
    {id : PackageId} :
    (∃ y ∈ l, y.specifier.id = id) ↔ ∃ v ∈ requested source h, v.id = id := by
  obtain ⟨packages, hOrder, hMap⟩ := selections_eq_ok hSelections
  obtain ⟨hIds, -⟩ := mapM_selectionOf_eq_ok hMap
  obtain ⟨ds, hDeclared⟩ := hBooks.declared
  have hMem : id ∈ packages.map (·.id) ↔ _ := hDeclared.represents.mem_ids_iff hOrder
  rw [← hIds, hDeclared.about_iff] at hMem
  simpa using hMem

/-- A version that was asked for is listed, or a greater one of its package. -/
theorem Consistent.listed_of_requested (hBooks : Consistent source s h)
    (hSelections : s.selections = .ok l) {v : Specifier} (hv : v ∈ requested source h) :
    ∃ y ∈ l, y.specifier.id = v.id ∧ v.version ≤ y.specifier.version := by
  obtain ⟨y, hy, hId⟩ := (hBooks.listed_iff hSelections).2 ⟨v, hv, rfl⟩
  obtain ⟨packages, -, hMap⟩ := selections_eq_ok hSelections
  exact ⟨y, hy, hId, hBooks.le_of_requested ((mapM_selectionOf_eq_ok hMap).2 y hy) hv hId⟩

/-- Whatever calls were made on a selector, an order that it gives out accounts for all direct
requests made before. Each of them has been worked off once. Those that could not be have each ended
an earlier call, which reported why. For each of the others the order lists the package, in a
version that is at least the one found. The listed packages are those that were asked for and
nothing else, so the package of a request that could not be worked off is only listed if it was
asked for once more. -/
theorem order_answers_requests (hSession : Session source s made h faults)
    (hOrder : order source fuel s w = some (.ok l, s', w')) :
    directs ((h ++ steps source fuel s w).map (·.request)) = made ∧
    ((h ++ steps source fuel s w).filterMap (Step.failure source)).Sublist faults ∧
    (∀ token request shortcut, .direct token request shortcut ∈ made →
      ∃ x ∈ h ++ steps source fuel s w, x.request = .direct token request shortcut ∧
        ((x ∈ h ∧ ∃ f ∈ faults, x.failure source = some f) ∨
          ∃ c v, find source request x.world = (.ok c, v) ∧ request.Admits c.specifier ∧
            ∃ y ∈ l, y.specifier.id = c.specifier.id ∧
              c.specifier.version ≤ y.specifier.version)) ∧
    ∀ id, (∃ y ∈ l, y.specifier.id = id) ↔
      ∃ v ∈ requested source (h ++ steps source fuel s w), v.id = id := by
  have hBooks := consistent_of_run (hSession.lifetime.order fuel w hOrder)
  rcases order_eq_some hOrder with ⟨hDrain, hSelections⟩ | ⟨f, -, hAnswer⟩
  · have hMade : directs ((h ++ steps source fuel s w).map (·.request)) = made := by
      have hAccounted := (hSession.order fuel w hOrder).accounted
      unfold Accounted at hAccounted
      rwa [pending_of_drain hDrain, directs, directs, List.filter_nil, List.append_nil]
        at hAccounted
    have hReported := hSession.failures_reported
    -- this call has not failed, so whatever failed did so in an earlier one
    have hNoneNow : (steps source fuel s w).filterMap (Step.failure source) = [] :=
      failures_steps hDrain
    refine ⟨hMade, ?_, fun token request shortcut hRequest => ?_,
      fun id => hBooks.listed_iff hSelections.symm⟩
    · rw [List.filterMap_append, hNoneNow, List.append_nil]
      exact hReported
    · rw [← hMade] at hRequest
      obtain ⟨x, hx, hDirect⟩ := List.mem_map.1 (List.mem_filter.1 hRequest).1
      refine ⟨x, hx, hDirect, ?_⟩
      cases hFailure : x.failure source with
      | none =>
          obtain ⟨c, v, hFind, hVersion⟩ := Step.version_of_direct hDirect hFailure
          have hAsked := List.mem_filterMap.2 ⟨x, hx, hVersion⟩
          exact .inr ⟨c, v, hFind, admits_of_find hFind,
            hBooks.listed_of_requested hSelections.symm hAsked⟩
      | some f =>
          rcases List.mem_append.1 hx with hx | hx
          · exact .inl ⟨hx, f, hReported.subset (List.mem_filterMap.2 ⟨x, hx, hFailure⟩), rfl⟩
          · have hNow := List.mem_filterMap.2 ⟨x, hx, hFailure⟩
            rw [hNoneNow] at hNow
            cases hNow
  · cases hAnswer

end Order

/-! ## A request that is lost -/

/-- Of three packages that are asked for directly, the second one does not exist. -/
def lossySelector : Selector :=
  (((({} : Selector).add (.exactly (stockSpecifier "d" 1))).2.add
    (.exactly (stockSpecifier "z" 1))).2.add (.exactly (stockSpecifier "b" 1))).2

def lossyRequests : List PendingRequest :=
  [ .direct 1 (.exactly (stockSpecifier "d" 1)) none
  , .direct 2 (.exactly (stockSpecifier "z" 1)) none
  , .direct 3 (.exactly (stockSpecifier "b" 1)) none ]

/-- What is installed without the package that does not exist. -/
def lossyOrder : List Selection :=
  [ ⟨1, stockSpecifier "d" 1, .ofFileNames ["d"], none⟩
  , ⟨4, stockSpecifier "c" 2, .ofFileNames ["c"], none⟩
  , ⟨3, stockSpecifier "b" 1, .ofFileNames ["b"], none⟩ ]

/-- The order is asked for twice, and the second time it is given out. -/
theorem lossy_session : ∃ s h s' w,
    Session stockSource s lossyRequests h [.resolution (.missingPackage (stockSpecifier "z" 1))] ∧
    order stockSource 10 s () = some (.ok lossyOrder, s', w) := by
  have hTwice : ((order stockSource 10 lossySelector ()).bind fun r =>
      (order stockSource 10 r.2.1 ()).map fun r' => (r.1, r'.1)) =
      some (.error (.resolution (.missingPackage (stockSpecifier "z" 1))), .ok lossyOrder) := by
    decide +kernel
  obtain ⟨⟨first, s, w⟩, hFirst, hRest⟩ := Option.bind_eq_some_iff.1 hTwice
  obtain ⟨⟨second, s', w'⟩, hSecond, hAnswers⟩ := Option.map_eq_some_iff.1 hRest
  obtain ⟨rfl, rfl⟩ := Prod.mk.inj hAnswers
  exact ⟨s, _, s', w', .order 10 () (.add _ _ (.add _ _ (.add _ _ .new))) hFirst, hSecond⟩

theorem order_answers_requests_lossy : ∃ s h s' w,
    Session stockSource s lossyRequests h [.resolution (.missingPackage (stockSpecifier "z" 1))] ∧
    order stockSource 10 s () = some (.ok lossyOrder, s', w) ∧
    ∃ x ∈ h, x.request = .direct 2 (.exactly (stockSpecifier "z" 1)) none ∧
      x.failure stockSource = some (.resolution (.missingPackage (stockSpecifier "z" 1))) := by
  obtain ⟨s, h, s', w, hSession, hOrder⟩ := lossy_session
  obtain ⟨-, -, hAnswered, -⟩ := order_answers_requests hSession hOrder
  obtain ⟨x, -, hRequest, ⟨hx, f, hf, hFailure⟩ | ⟨c, v, -, hAdmits, y, hy, hId, -⟩⟩ :=
    hAnswered 2 (.exactly (stockSpecifier "z" 1)) none (by decide)
  · obtain rfl := List.mem_singleton.1 hf
    exact ⟨s, h, s', w, hSession, hOrder, x, hx, hRequest, hFailure⟩
  · have hListed : ∀ y ∈ lossyOrder, y.specifier.id ≠ (stockSpecifier "z" 1).id := by decide
    have hSpecifier : c.specifier = stockSpecifier "z" 1 := hAdmits
    exact absurd (hSpecifier ▸ hId) (hListed y hy)

/-- An order can be given out without the package of a direct request made before, if that request
has failed. -/
theorem order_misses_failed_request : ∃ s h s' w,
    Session stockSource s lossyRequests h [.resolution (.missingPackage (stockSpecifier "z" 1))] ∧
    order stockSource 10 s () = some (.ok lossyOrder, s', w) ∧
    .direct 2 (.exactly (stockSpecifier "z" 1)) none ∈ lossyRequests ∧
    ∀ y ∈ lossyOrder, y.specifier.id ≠ (stockSpecifier "z" 1).id := by
  obtain ⟨s, h, s', w, hSession, hOrder⟩ := lossy_session
  exact ⟨s, h, s', w, hSession, hOrder, by decide, by decide⟩

end Selector

end PackageManager
