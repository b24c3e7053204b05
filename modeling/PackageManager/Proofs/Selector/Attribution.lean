import PackageManager.Proofs.Selector.FirstDrain
import PackageManager.Proofs.Text.Parts

/-!
# Which request a selection answers

Whoever has asked for packages recognizes what was selected for which request by a token, or by the
short name that came with the request. Both are noted for the package when its request is worked
off, and stay when a greater version of the package is pinned on account of a dependency. So a
selection has the token of the one direct request for its package, if there was one.

## Why nothing is confused

No token is given out twice: the tokens of the requests that have been worked off and of those that
wait are the numbers from one on, in this order (`Numbered`). And no package is noted twice: a
second direct request for it is refused because the project depends on it already (`Credited`).

## Main results

* `attributed_of_run` — both are so after every run.
* `Attributed.label_of_credit` — a package that was asked for directly is listed with the token and
  the short name of that request.
* `Attributed.label_of_uncredited` — any other package has the token of a dependency, and no short
  name.
* `order_answers_pending` — the first time that requests are worked off, each direct request has its
  selection, and no other selection is labelled like one.
-/

namespace PackageManager.Selector

open DependencySet

variable {σ : Type} {source : PackageSource σ} {s t : Selector} {h : List (Step σ)}

/-! ## Tokens -/

/-- Tokens can be compared by their texts. -/
theorem tokenText_injective {m n : Nat} (hEq : tokenText m = tokenText n) : m = n := by
  unfold tokenText at hEq
  rw [← String.toList_inj, String.toList_append, String.toList_append, List.append_right_inj,
    Text.toList_decimal, Text.toList_decimal] at hEq
  exact Text.digits_injective hEq

/-- The tokens of all requests, worked off or waiting, are the numbers from one on. -/
def Numbered (s : Selector) (h : List (Step σ)) : Prop :=
  (h.map (·.request) ++ s.pending).map PendingRequest.token = List.range' 1 s.issued

theorem numbered_add (hNumbered : Numbered s h) (request : Request) (shortcut : Option String) :
    Numbered (s.add request shortcut).2 h := by
  unfold Numbered at hNumbered ⊢
  unfold add
  dsimp only
  rw [← List.append_assoc, List.map_append, hNumbered, List.range'_concat, Nat.one_mul,
    Nat.add_comm 1]
  rfl

/-- The tokens of the requests that a version leads to are the next ones. -/
theorem token_mapIdx (l : List Specifier) (parent : Specifier) (n : Nat) :
    (l.mapIdx fun i d => PendingRequest.transitive (n + i + 1) parent d).map PendingRequest.token =
      List.range' (1 + n) l.length := by
  refine List.ext_getElem (by simp) fun i hi hi' => ?_
  simp only [List.getElem_map, List.getElem_mapIdx, PendingRequest.token, List.getElem_range']
  omega

theorem numbered_step (hNumbered : Numbered s h) {w : σ} {x : Step σ}
    (hFirst : s.firstStep w = some x) : Numbered (x.outcome source).2.1 (h ++ [x]) := by
  have hRises : Rises x.before (x.settled source).2.1 :=
    rises_settle source x.request x.before x.world
  have hIssued : x.before.issued = s.issued := by rw [(firstStep_eq_some hFirst).2]
  -- the request has only moved from the queue to the history
  have hMoved : ((h ++ [x]).map (·.request) ++ x.before.pending).map PendingRequest.token =
      List.range' 1 s.issued := by
    unfold Numbered at hNumbered
    rw [(firstStep_eq_some hFirst).1] at hNumbered
    have hLonger : (h ++ [x]).map (·.request) = h.map (·.request) ++ [x.request] :=
      List.map_append
    rw [hLonger, List.append_assoc]
    exact hNumbered
  unfold Numbered
  rcases x.outcome_cases source with ⟨c, -, -, hOutcome⟩ | ⟨-, hOutcome⟩
  · rw [hOutcome]
    unfold expand
    dsimp only
    rw [hRises.pending, hRises.issued, hIssued, ← List.append_assoc, List.map_append, hMoved,
      token_mapIdx]
    exact List.range'_append_1
  · rw [hOutcome, hRises.pending, hRises.issued, hIssued]
    exact hMoved

theorem Numbered.nodup (hNumbered : Numbered s h) :
    ((h.map (·.request) ++ s.pending).map PendingRequest.token).Nodup := by
  rw [hNumbered]
  exact List.nodup_range'

/-- A token belongs to one request. -/
theorem Numbered.eq_of_token_eq (hNumbered : Numbered s h) {x y : Step σ} (hx : x ∈ h) (hy : y ∈ h)
    (hToken : x.request.token = y.request.token) : x = y := by
  have hNodup : (h.map fun x => x.request.token).Nodup := by
    have hAll := hNumbered.nodup
    rw [List.map_append, List.map_map] at hAll
    exact (List.nodup_append.1 hAll).1
  exact List.inj_on_of_nodup_map hNodup hx hy hToken

/-! ## Credits -/

/-- The version that a direct request has been worked off with. -/
structure Credit where
  token : Nat
  shortcut : Option String
  specifier : Specifier

/-- The version that a step has worked off a direct request with, if it has. -/
def Step.credit (source : PackageSource σ) (x : Step σ) : Option Credit :=
  match x.request with
  | .direct token _ shortcut => (x.version source).map (⟨token, shortcut, ·⟩)
  | .transitive _ _ _ => none

/-- The versions that some steps have worked off direct requests with. -/
def credits (source : PackageSource σ) (h : List (Step σ)) : List Credit :=
  h.filterMap (·.credit source)

/-- A credit has the token of its request, and the version that was asked for. -/
theorem Step.spec_of_credit {x : Step σ} {k : Credit} (hCredit : x.credit source = some k) :
    x.request.token = k.token ∧ x.version source = some k.specifier := by
  unfold Step.credit at hCredit
  split at hCredit
  · next token request shortcut hRequest =>
      obtain ⟨v, hVersion, rfl⟩ := Option.map_eq_some_iff.1 hCredit
      exact ⟨by rw [hRequest]; rfl, hVersion⟩
  · cases hCredit

theorem credits_concat (h : List (Step σ)) (x : Step σ) :
    credits source (h ++ [x]) = credits source h ++ (x.credit source).toList :=
  filterMap_concat _ h x

/-- The packages that the project depends on are those of some credits, each noted with the token
and the short name of its credit. -/
structure Credited (s : Selector) (credits : List Credit) : Prop where
  distinct : (credits.map (·.specifier.id)).Nodup
  declared : ∃ ds, Represents none s.dependencies ds ∧
    ∀ id, Declares ds none id ↔ ∃ k ∈ credits, k.specifier.id = id
  token : ∀ id token, s.directTokens.get? id = some token ↔
    ∃ k ∈ credits, k.specifier.id = id ∧ k.token = token
  shortcut : ∀ id name, s.shortcuts.get? id = some name ↔
    ∃ k ∈ credits, k.specifier.id = id ∧ k.shortcut = some name

theorem credited_new : Credited {} [] where
  distinct := List.nodup_nil
  declared := ⟨[], represents_ofRoot none, by simp [Declares]⟩
  token := by simp
  shortcut := by simp

variable {credits' : List Credit}

/-- A credit is determined by its package. -/
theorem Credited.eq_of_id_eq (hCredited : Credited s credits') {k k' : Credit} (hk : k ∈ credits')
    (hk' : k' ∈ credits') (hId : k.specifier.id = k'.specifier.id) : k = k' :=
  List.inj_on_of_nodup_map hCredited.distinct hk hk' hId

/-- What is noted for a new package is what its credit says, and for others what was noted. -/
theorem exists_mem_concat_iff {k : Credit} {P : Credit → Prop}
    (hFresh : ∀ k' ∈ credits', k'.specifier.id ≠ k.specifier.id) (id : PackageId) :
    (∃ k' ∈ credits' ++ [k], k'.specifier.id = id ∧ P k') ↔
      if id = k.specifier.id then P k else ∃ k' ∈ credits', k'.specifier.id = id ∧ P k' := by
  simp only [List.mem_append, List.mem_singleton, or_and_right, exists_or, exists_eq_left]
  split
  · next hId =>
      subst hId
      have hNone : ¬∃ k' ∈ credits', k'.specifier.id = k.specifier.id ∧ P k' := by
        rintro ⟨k', hk', hId, -⟩
        exact hFresh k' hk' hId
      simp [hNone]
  · next hId => simp [Ne.symm hId]

/-- A package that the project does not depend on yet is noted with its credit. -/
theorem Credited.credit (hCredited : Credited s credits') {k : Credit} {d : DependencySet}
    (hAdd : s.dependencies.addDirect (pinned k.specifier) = (.ok (), d))
    (hSet : t.dependencies = d)
    (hNames : t.shortcuts = k.shortcut.elim s.shortcuts (s.shortcuts.insert k.specifier.id))
    (hTokens : t.directTokens = s.directTokens.insert k.specifier.id k.token) :
    Credited t (credits' ++ [k]) := by
  obtain ⟨ds, hRepresents, hDeclares⟩ := hCredited.declared
  rcases addDirect_exact hRepresents (pinned k.specifier) with
    ⟨-, f, hRefused⟩ | ⟨hNew, d', hAccepted, hRepresents'⟩
  · rw [hAdd] at hRefused
    cases hRefused
  rw [hAdd] at hAccepted
  obtain rfl : d = d' := congrArg Prod.snd hAccepted
  have hFresh : ∀ k' ∈ credits', k'.specifier.id ≠ k.specifier.id := fun k' hk' hId =>
    hNew ((hDeclares _).2 ⟨k', hk', hId⟩)
  refine ⟨?_, ⟨_, hSet ▸ hRepresents', fun id => ?_⟩, fun id token => ?_, fun id name => ?_⟩
  · rw [List.map_append]
    refine List.nodup_append.2 ⟨hCredited.distinct, List.nodup_singleton _, ?_⟩
    intro i hi j hj
    obtain ⟨k', hk', rfl⟩ := List.mem_map.1 hi
    obtain rfl := List.mem_singleton.1 hj
    exact hFresh k' hk'
  · rw [declares_append, hDeclares]
    simp [pinned, or_and_right, exists_or]
  · rw [hTokens, OrderedMap.get?_insert, exists_mem_concat_iff hFresh]
    split
    · simp [eq_comm]
    · exact hCredited.token id token
  · rw [hNames, exists_mem_concat_iff hFresh]
    cases hShortcut : k.shortcut with
    | none =>
        rw [Option.elim_none, hCredited.shortcut]
        split
        · next hId =>
            subst hId
            constructor
            · rintro ⟨k', hk', hId, -⟩
              exact absurd hId (hFresh k' hk')
            · intro hSome
              cases hSome
        · exact Iff.rfl
    | some n =>
        rw [Option.elim_some, OrderedMap.get?_insert]
        split
        · exact Iff.rfl
        · exact hCredited.shortcut id name

/-! ## Steps and runs -/

/-- Every selection can be traced back to its request. -/
structure Attributed (source : PackageSource σ) (s : Selector) (h : List (Step σ)) : Prop where
  books : Consistent source s h
  numbered : Numbered s h
  credited : Credited s (credits source h)

theorem attributed_new : Attributed source {} [] where
  books := consistent_new
  numbered := rfl
  credited := credited_new

theorem attributed_add (hAttributed : Attributed source s h) (request : Request)
    (shortcut : Option String) : Attributed source (s.add request shortcut).2 h where
  books := consistent_add hAttributed.books request shortcut
  numbered := numbered_add hAttributed.numbered request shortcut
  credited := ⟨hAttributed.credited.distinct, hAttributed.credited.declared,
    hAttributed.credited.token, hAttributed.credited.shortcut⟩

theorem credited_direct_step (hAttributed : Attributed source s h) {w : σ} {x : Step σ}
    (hFirst : s.firstStep w = some x) {token : Nat} {request : Request} {shortcut : Option String}
    (hRequest : x.request = .direct token request shortcut) :
    Credited (x.outcome source).2.1 (credits source (h ++ [x])) := by
  have hCredit : x.credit source = (x.version source).map (⟨token, shortcut, ·⟩) := by
    unfold Step.credit
    rw [hRequest]
  have hBefore : Credited x.before (credits source h) := by
    rw [(firstStep_eq_some hFirst).2]
    exact ⟨hAttributed.credited.distinct, hAttributed.credited.declared,
      hAttributed.credited.token, hAttributed.credited.shortcut⟩
  rw [credits_concat, hCredit]
  rcases Step.direct_cases source hRequest with
    ⟨f, -, hVersion, ⟨-, hSame⟩ | ⟨c, d, -, hRefused, hSame⟩⟩ |
    ⟨c, d, -, hAdd, -, hVersion, hSet, hNames, hTokens, -⟩
  · rw [hVersion, hSame, Option.map_none, Option.toList_none, List.append_nil]
    exact hBefore
  · obtain ⟨ds, hRepresents, hDeclares⟩ := hBefore.declared
    have hUnchanged : d = x.before.dependencies := by
      rcases addDirect_exact hRepresents (pinned c.specifier) with
        ⟨-, f', hRefused'⟩ | ⟨-, d', hAccepted, -⟩
      · rw [hRefused] at hRefused'
        exact congrArg Prod.snd hRefused'
      · rw [hRefused] at hAccepted
        cases hAccepted
    rw [hVersion, hSame, Option.map_none, Option.toList_none, List.append_nil, hUnchanged]
    exact hBefore
  · rw [hVersion]
    exact hBefore.credit (k := ⟨token, shortcut, c.specifier⟩) hAdd hSet hNames hTokens

theorem credited_transitive_step (hAttributed : Attributed source s h) {w : σ} {x : Step σ}
    (hFirst : s.firstStep w = some x) {token : Nat} {parent dependency : Specifier}
    (hRequest : x.request = .transitive token parent dependency) :
    Credited (x.outcome source).2.1 (credits source (h ++ [x])) := by
  have hCredit : x.credit source = none := by
    unfold Step.credit
    rw [hRequest]
  obtain ⟨ds, hRepresents, hDeclares⟩ := hAttributed.credited.declared
  have hParent := hAttributed.books.contains_parent hFirst hRequest
  rw [← (firstStep_spec hFirst).2.1] at hRepresents
  obtain ⟨d, ds', hDeclare, hRepresents', hLinks⟩ := declare_exact hRepresents hParent dependency
  obtain ⟨hSet', hNames, hTokens, -⟩ := Step.transitive_cases source hRequest hDeclare
  have hBefore : x.before.shortcuts = s.shortcuts ∧ x.before.directTokens = s.directTokens := by
    rw [(firstStep_eq_some hFirst).2]
    exact ⟨rfl, rfl⟩
  rw [credits_concat, hCredit, Option.toList_none, List.append_nil]
  refine ⟨hAttributed.credited.distinct, ⟨ds', hSet' ▸ hRepresents', fun id => ?_⟩, ?_, ?_⟩
  · rw [hLinks, ← hDeclares]
    simp
  · rw [hTokens, hBefore.2]
    exact hAttributed.credited.token
  · rw [hNames, hBefore.1]
    exact hAttributed.credited.shortcut

theorem attributed_step (hAttributed : Attributed source s h) {w : σ} {x : Step σ}
    (hFirst : s.firstStep w = some x) :
    Attributed source (x.outcome source).2.1 (h ++ [x]) where
  books := consistent_step hAttributed.books hFirst
  numbered := numbered_step hAttributed.numbered hFirst
  credited := by
    cases hRequest : x.request with
    | direct token request shortcut => exact credited_direct_step hAttributed hFirst hRequest
    | transitive token parent dependency =>
        exact credited_transitive_step hAttributed hFirst hRequest

/-- Every selection can be traced back to its request after every run. -/
theorem attributed_of_run (hRun : Run source s h) : Attributed source s h :=
  hRun.induction (P := Attributed source)
    (fun _ _ _ _ hAttributed hFirst => attributed_step hAttributed hFirst) attributed_new
    fun _ _ request shortcut hAttributed => attributed_add hAttributed request shortcut

/-! ## What selections are labelled with -/

/-- A package that was asked for directly has the token and the short name of that request. -/
theorem Attributed.label_of_credit (hAttributed : Attributed source s h) {id : PackageId}
    {y : Selection} (hSelection : s.selectionOf id = .ok y) {k : Credit}
    (hk : k ∈ credits source h) (hId : k.specifier.id = y.specifier.id) :
    y.token = k.token ∧ y.shortcut = k.shortcut := by
  obtain ⟨hShortcut, e, -, hToken⟩ := labels_of_selectionOf hSelection
  constructor
  · rw [hToken, (hAttributed.credited.token _ _).2 ⟨k, hk, hId, rfl⟩, Option.getD_some]
  · rw [hShortcut]
    cases hName : k.shortcut with
    | some name => exact (hAttributed.credited.shortcut _ _).2 ⟨k, hk, hId, hName⟩
    | none =>
        refine Option.eq_none_iff_forall_ne_some.2 fun name hSome => ?_
        obtain ⟨k', hk', hId', hName'⟩ := (hAttributed.credited.shortcut _ _).1 hSome
        obtain rfl := hAttributed.credited.eq_of_id_eq hk hk' (hId.trans hId'.symm)
        rw [hName] at hName'
        cases hName'

/-- What a step expands is the version that it asks for. -/
theorem Step.version_of_expansion {x : Step σ} {c : Nat × Candidate}
    (hExpansion : x.expansion source = some c) : x.version source = some c.2.specifier := by
  cases hRequest : x.request with
  | direct token request shortcut =>
      rcases Step.direct_cases source hRequest with ⟨f, hFailed, -⟩ |
        ⟨c', d, -, -, -, hVersion, -, -, -, ⟨-, hNone⟩ | ⟨-, hSome⟩⟩
      · rw [Step.expansion_of_failure hFailed] at hExpansion
        cases hExpansion
      · rw [hNone] at hExpansion
        cases hExpansion
      · rw [hSome] at hExpansion
        cases hExpansion
        exact hVersion
  | transitive token parent dependency =>
      have hVersion : x.version source = some dependency :=
        Step.version_of_dependency (e := (parent, dependency)) (by rw [hRequest]; rfl)
      obtain ⟨-, hYields⟩ := Step.yields_of_expansion hExpansion
      rw [hRequest] at hYields
      rw [hVersion, hYields.1]

/-- What a direct request has expanded is the version that it is credited with. -/
theorem Step.credit_of_expansion {x : Step σ} {token : Nat} {request : Request}
    {shortcut : Option String} (hRequest : x.request = .direct token request shortcut)
    {c : Nat × Candidate} (hExpansion : x.expansion source = some c) :
    x.credit source = some ⟨token, shortcut, c.2.specifier⟩ := by
  unfold Step.credit
  rw [hRequest, Step.version_of_expansion hExpansion]
  rfl

/-- Any other package has no short name, and the token of a dependency that was worked off. -/
theorem Attributed.label_of_uncredited (hAttributed : Attributed source s h) {id : PackageId}
    {y : Selection} (hSelection : s.selectionOf id = .ok y)
    (hNone : ∀ k ∈ credits source h, k.specifier.id ≠ y.specifier.id) :
    y.shortcut = none ∧ ∃ x ∈ h, x.request.isDirect = false ∧ x.request.token = y.token ∧
      x.version source = some y.specifier := by
  obtain ⟨hShortcut, e, hNoted, hToken⟩ := labels_of_selectionOf hSelection
  constructor
  · rw [hShortcut]
    refine Option.eq_none_iff_forall_ne_some.2 fun name hSome => ?_
    obtain ⟨k, hk, hId, -⟩ := (hAttributed.credited.shortcut _ _).1 hSome
    exact hNone k hk hId
  · have hDirect : s.directTokens.get? y.specifier.id = none := by
      refine Option.eq_none_iff_forall_ne_some.2 fun token hSome => ?_
      obtain ⟨k, hk, hId, -⟩ := (hAttributed.credited.token _ _).1 hSome
      exact hNone k hk hId
    rw [hDirect, Option.getD_none] at hToken
    obtain ⟨c, hc, hSpecifier, rfl⟩ := (hAttributed.books.booked.recorded _ _).1 hNoted
    obtain ⟨x, hx, hExpansion⟩ := List.mem_filterMap.1 hc
    cases hRequest : x.request with
    | direct token request shortcut =>
        have hCredit := Step.credit_of_expansion hRequest hExpansion
        refine absurd ?_ (hNone _ (List.mem_filterMap.2 ⟨x, hx, hCredit⟩))
        rw [hSpecifier]
    | transitive token parent dependency =>
        refine ⟨x, hx, by rw [hRequest]; rfl, ?_, ?_⟩
        · rw [hToken, (Step.yields_of_expansion hExpansion).1]
        · rw [Step.version_of_expansion hExpansion, hSpecifier]

/-! ## The first order -/

/-- A selection answers the direct request that a step worked off: it has the labels of the request,
and is of the package that was found, in a version that is at least as great. -/
def Answers (source : PackageSource σ) (y : Selection) (x : Step σ) : Prop :=
  ∃ request c w', x.request = .direct y.token request y.shortcut ∧
    find source request x.world = (.ok c, w') ∧ y.specifier.id = c.specifier.id ∧
    c.specifier.version ≤ y.specifier.version

/-- A credit is for a direct request that has found its version. -/
theorem exists_step_of_credit {k : Credit} (hk : k ∈ credits source h) :
    ∃ x ∈ h, ∃ request c w', x.request = .direct k.token request k.shortcut ∧
      find source request x.world = (.ok c, w') ∧ c.specifier = k.specifier := by
  obtain ⟨x, hx, hCredit⟩ := List.mem_filterMap.1 hk
  unfold Step.credit at hCredit
  split at hCredit
  · next token request shortcut hRequest =>
      obtain ⟨v, hVersion, rfl⟩ := Option.map_eq_some_iff.1 hCredit
      rcases Step.version_cases hVersion with
        ⟨token', request', shortcut', c, w', hSame, hFind, rfl⟩ | ⟨parent, hDependency⟩
      · rw [hRequest] at hSame
        cases hSame
        exact ⟨x, hx, request, c, w', hRequest, hFind, rfl⟩
      · rw [hRequest] at hDependency
        cases hDependency
  · cases hCredit

theorem requested_of_credit {k : Credit} (hk : k ∈ credits source h) :
    k.specifier ∈ requested source h := by
  obtain ⟨x, hx, hCredit⟩ := List.mem_filterMap.1 hk
  exact List.mem_filterMap.2 ⟨x, hx, (Step.spec_of_credit hCredit).2⟩

/-- Nothing but direct requests waits in a new selector to which requests were added. -/
theorem directs_pending (hRun : Run source s []) : directs s.pending = s.pending := by
  have hNone : s.waiting = [] := by
    have hQueued := (consistent_of_run hRun).booked.queued
    simpa [considered, expansions] using hQueued
  refine List.filter_eq_self.2 fun p hp => ?_
  cases p with
  | direct token request shortcut => rfl
  | transitive token parent dependency =>
      have hWaits : (parent, dependency) ∈ s.waiting := List.mem_filterMap.2 ⟨_, hp, rfl⟩
      rw [hNone] at hWaits
      cases hWaits

/-- All of these requests are worked off if nothing fails, and no other direct request is. -/
theorem directs_steps (hRun : Run source s []) {fuel : Nat} {w w' : σ}
    (hDrain : drain source fuel s w = some (.ok (), t, w')) :
    directs ((steps source fuel s w).map (·.request)) = s.pending := by
  have hAccounted := accounted_drain hRun (directs_pending hRun) hDrain
  unfold Accounted at hAccounted
  rwa [pending_of_drain hDrain, directs, directs, List.filter_nil, List.append_nil,
    List.nil_append] at hAccounted

/-- The step that has worked off a direct request without a failure is credited. -/
theorem Step.credit_of_direct {x : Step σ} (hDirect : x.request.isDirect)
    (hFine : x.failure source = none) :
    ∃ token request shortcut c w', x.request = .direct token request shortcut ∧
      find source request x.world = (.ok c, w') ∧
      x.credit source = some ⟨token, shortcut, c.specifier⟩ := by
  cases hRequest : x.request with
  | transitive token parent dependency =>
      rw [hRequest] at hDirect
      cases hDirect
  | direct token request shortcut =>
      obtain ⟨c, w', hFind, hVersion⟩ := Step.version_of_direct hRequest hFine
      refine ⟨token, request, shortcut, c, w', rfl, hFind, ?_⟩
      unfold Step.credit
      rw [hRequest, hVersion]
      rfl

section Listed

variable {l : List Selection} (hAttributed : Attributed source s h)
  (hSelections : s.selections = .ok l)

include hAttributed hSelections

/-- A step that is credited has its selection. -/
theorem Attributed.exists_answer {x : Step σ} (hx : x ∈ h) (hDirect : x.request.isDirect)
    (hFine : x.failure source = none) : ∃ y ∈ l, Answers source y x := by
  obtain ⟨token, request, shortcut, c, w', hRequest, hFind, hCredit⟩ :=
    Step.credit_of_direct hDirect hFine
  have hk : ⟨token, shortcut, c.specifier⟩ ∈ credits source h :=
    List.mem_filterMap.2 ⟨x, hx, hCredit⟩
  obtain ⟨y, hy, hId, hLe⟩ :=
    hAttributed.books.listed_of_requested hSelections (requested_of_credit hk)
  obtain ⟨packages, -, hMap⟩ := selections_eq_ok hSelections
  have hSelection := (mapM_selectionOf_eq_ok hMap).2 y hy
  obtain ⟨hToken, hShortcut⟩ := hAttributed.label_of_credit hSelection hk hId.symm
  refine ⟨y, hy, request, c, w', ?_, hFind, hId, hLe⟩
  rw [hRequest, hToken, hShortcut]

/-- A selection answers a direct request, or it is labelled like a dependency. -/
theorem Attributed.answers_or {y : Selection} (hy : y ∈ l) :
    (∃ x ∈ h, x.request.isDirect ∧ Answers source y x) ∨
      y.shortcut = none ∧ ∃ x ∈ h, x.request.isDirect = false ∧ x.request.token = y.token := by
  obtain ⟨packages, -, hMap⟩ := selections_eq_ok hSelections
  have hSelection := (mapM_selectionOf_eq_ok hMap).2 y hy
  by_cases hCredited : ∃ k ∈ credits source h, k.specifier.id = y.specifier.id
  · obtain ⟨k, hk, hId⟩ := hCredited
    obtain ⟨hToken, hShortcut⟩ := hAttributed.label_of_credit hSelection hk hId
    obtain ⟨x, hx, request, c, w', hRequest, hFind, hSpecifier⟩ := exists_step_of_credit hk
    have hLe : c.specifier.version ≤ y.specifier.version := by
      rw [hSpecifier]
      exact hAttributed.books.le_of_requested hSelection (requested_of_credit hk) hId.symm
    refine .inl ⟨x, hx, by rw [hRequest]; rfl, request, c, w', ?_, hFind, ?_, hLe⟩
    · rw [hRequest, hToken, hShortcut]
    · rw [hSpecifier, hId]
  · obtain ⟨hShortcut, x, hx, hTransitive, hToken, -⟩ :=
      hAttributed.label_of_uncredited hSelection fun k hk hId => hCredited ⟨k, hk, hId⟩
    exact .inr ⟨hShortcut, x, hx, hTransitive, hToken⟩

end Listed

/-- A new selector to which requests were added gives out an order. Each of the requests has been
worked off and has its selection there. And each selection answers one of them, or it has no short
name and the token of none. -/
theorem order_answers_pending (hRun : Run source s []) {fuel : Nat} {w w' : σ} {l : List Selection}
    (hOrder : order source fuel s w = some (.ok l, t, w')) :
    (∀ p ∈ s.pending, ∃ x ∈ steps source fuel s w, x.request = p ∧ ∃ y ∈ l, Answers source y x) ∧
    ∀ y ∈ l, (∃ x ∈ steps source fuel s w, x.request ∈ s.pending ∧ Answers source y x) ∨
      y.shortcut = none ∧ ∀ p ∈ s.pending, p.token ≠ y.token := by
  have hAttributed := attributed_of_run (hRun.order fuel w hOrder)
  rcases order_eq_some hOrder with ⟨hDrain, hSelections⟩ | ⟨f, -, hAnswer⟩
  · have hMade := directs_steps hRun hDrain
    have hFine := List.filterMap_eq_nil_iff.1 (failures_steps hDrain)
    have hStep : ∀ p ∈ s.pending, ∃ x ∈ steps source fuel s w, x.request = p ∧ p.isDirect := by
      intro p hp
      rw [← hMade] at hp
      obtain ⟨hMem, hDirect⟩ := List.mem_filter.1 hp
      obtain ⟨x, hx, rfl⟩ := List.mem_map.1 hMem
      exact ⟨x, hx, rfl, hDirect⟩
    refine ⟨fun p hp => ?_, fun y hy => ?_⟩
    · obtain ⟨x, hx, rfl, hDirect⟩ := hStep p hp
      exact ⟨x, hx, rfl, hAttributed.exists_answer hSelections.symm hx hDirect (hFine x hx)⟩
    · rcases hAttributed.answers_or hSelections.symm hy with
        ⟨x, hx, hDirect, hAnswers⟩ | ⟨hShortcut, x, hx, hTransitive, hToken⟩
      · have hWaited : x.request ∈ s.pending := by
          rw [← hMade]
          exact List.mem_filter.2 ⟨List.mem_map_of_mem hx, hDirect⟩
        exact .inl ⟨x, hx, hWaited, hAnswers⟩
      · refine .inr ⟨hShortcut, fun p hp hSame => ?_⟩
        obtain ⟨z, hz, rfl, hDirect⟩ := hStep p hp
        obtain rfl := hAttributed.numbered.eq_of_token_eq hz hx (hSame.trans hToken.symm)
        rw [hTransitive] at hDirect
        cases hDirect
  · cases hAnswer

end PackageManager.Selector
