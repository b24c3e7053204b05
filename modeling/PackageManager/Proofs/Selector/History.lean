import PackageManager.Selector

/-!
# Runs of a selector

What is claimed of a selector is claimed of all that can be done with one: requests are added, and
now and then those that wait are worked off, with or without asking for the order of the selected
versions. Any of these calls may fail, and whoever is asked about packages may answer differently
each time. `Calls` says which selectors come about like this from a given one.

Calls carry a history: the requests that were worked off, each with the selector and the state of
the source at that time. The history is kept beside the selector and not in it. Which versions were
asked for (`requested`), whose dependencies were asked for (`expansions`) and which dependencies
were looked at (`considered`) is read off the history, by settling its requests once more.

Beside the history stands what the callers can see: the requests that they made and the failures
that they were told of. Where that does not matter, a `Lifetime` is calls with their history alone.
A `Session` and a `Run` are the same for a selector that was new.

## Main results

* `Lifetime.induction` — what holds of a selector at first, and is kept when a request is added and
  when one is worked off, holds after all calls.
-/

namespace PackageManager

/-- The dependency that a request is about, behind the version that has it. -/
def PendingRequest.dependency : PendingRequest → Option (Specifier × Specifier)
  | .direct _ _ _ => none
  | .transitive _ parent dependency => some (parent, dependency)

/-- What a request is about. A dependency is looked up like a version that is asked for directly. -/
def PendingRequest.subject : PendingRequest → Request
  | .direct _ request _ => request
  | .transitive _ _ dependency => .exactly dependency

namespace Selector

variable {σ : Type}

/-- A request that was worked off. -/
structure Step (σ : Type) where
  request : PendingRequest
  /-- The selector once the request had left the queue. -/
  before : Selector
  /-- The state of the source by then. -/
  world : σ

/-- The request that is worked off first, if one waits. -/
def firstStep (s : Selector) (w : σ) : Option (Step σ) :=
  match s.pending with
  | [] => none
  | p :: rest => some ⟨p, { s with pending := rest }, w⟩

section Source

variable (source : PackageSource σ)

/-- What settling the request of a step came to. -/
def Step.settled (x : Step σ) : Except Fault (Option Candidate) × Selector × σ :=
  settle source x.request x.before x.world

/-- What working off the request of a step came to. -/
def Step.outcome (x : Step σ) : Except Fault Unit × Selector × σ :=
  process source x.request x.before x.world

/-- The version that a step asked for. A dependency of a selected version is asked for whatever
becomes of it, and a direct request asks for what it finds, unless that is refused. -/
def Step.version (x : Step σ) : Option Specifier :=
  match x.request with
  | .transitive _ _ dependency => some dependency
  | .direct _ request _ =>
    match (find source request x.world).1, (x.settled source).1 with
    | .ok c, .ok _ => some c.specifier
    | _, _ => none

/-- The version whose dependencies a step put into the queue, with the token that it had. -/
def Step.expansion (x : Step σ) : Option (Nat × Candidate) :=
  match (x.settled source).1 with
  | .ok (some c) => some (x.request.token, c)
  | _ => none

/-- The versions that some steps asked for. -/
def requested (h : List (Step σ)) : List Specifier := h.filterMap (·.version source)

/-- The versions whose dependencies some steps put into the queue. -/
def expansions (h : List (Step σ)) : List (Nat × Candidate) := h.filterMap (·.expansion source)

/-- The dependencies that some steps worked off. -/
def considered (h : List (Step σ)) : List (Specifier × Specifier) :=
  h.filterMap (·.request.dependency)

/-- Why a call failed, if it did. -/
def failure {α : Type} : Except Fault α → Option Fault
  | .ok _ => none
  | .error f => some f

/-- The requests that `drain` works off. -/
def steps : Nat → Selector → σ → List (Step σ)
  | 0, _, _ => []
  | fuel + 1, s, w =>
    match s.firstStep w with
    | none => []
    | some x =>
      match x.outcome source with
      | (.ok (), s, w) => x :: steps fuel s w
      | (.error _, _, _) => [x]

/-- The selectors that calls on one lead to. With each come the direct requests that were made, the
requests that were worked off and the failures that calls reported, all of them in their order. A
call that works off requests may begin with the source in any state. -/
inductive Calls (first : Selector) :
    Selector → List PendingRequest → List (Step σ) → List Fault → Prop
  | new : Calls first first [] [] []
  | add {s : Selector} {made : List PendingRequest} {h : List (Step σ)} {faults : List Fault}
    (request : Request) (shortcut : Option String) : Calls first s made h faults →
    Calls first (s.add request shortcut).2
      (made ++ [.direct (s.add request shortcut).1 request shortcut]) h faults
  | select {s s' : Selector} {made : List PendingRequest} {h : List (Step σ)} {faults : List Fault}
    {answer : Except Fault Unit} {w' : σ} (fuel : Nat) (w : σ) : Calls first s made h faults →
    drain source fuel s w = some (answer, s', w') →
    Calls first s' made (h ++ steps source fuel s w) (faults ++ (failure answer).toList)
  | order {s s' : Selector} {made : List PendingRequest} {h : List (Step σ)} {faults : List Fault}
    {answer : Except Fault (List Selection)} {w' : σ} (fuel : Nat) (w : σ) :
    Calls first s made h faults → order source fuel s w = some (answer, s', w') →
    Calls first s' made (h ++ steps source fuel s w) (faults ++ (failure answer).toList)

/-- The selectors that calls on one lead to, each with the requests that were worked off. -/
def Lifetime (first s : Selector) (h : List (Step σ)) : Prop :=
  ∃ made faults, Calls source first s made h faults

/-- The selectors that calls on a new one lead to, with all that is known of the calls. -/
abbrev Session := Calls source {}

/-- The selectors that calls on a new one lead to, each with the requests that were worked off. -/
abbrev Run := Lifetime source {}

end Source

variable {source : PackageSource σ}

/-- The dependencies that wait. -/
def waiting (s : Selector) : List (Specifier × Specifier) :=
  s.pending.filterMap PendingRequest.dependency

/-! ## One more call -/

section Calls

variable {first s s' : Selector} {made : List PendingRequest} {h : List (Step σ)}
  {faults : List Fault}

theorem Calls.lifetime (hCalls : Calls source first s made h faults) : Lifetime source first s h :=
  ⟨made, faults, hCalls⟩

theorem Lifetime.new : Lifetime source first first [] := Calls.new.lifetime

theorem Lifetime.add (request : Request) (shortcut : Option String)
    (hLifetime : Lifetime source first s h) :
    Lifetime source first (s.add request shortcut).2 h := by
  obtain ⟨made, faults, hCalls⟩ := hLifetime
  exact (hCalls.add request shortcut).lifetime

theorem Lifetime.select {answer : Except Fault Unit} {w' : σ} (fuel : Nat) (w : σ)
    (hLifetime : Lifetime source first s h)
    (hDrain : drain source fuel s w = some (answer, s', w')) :
    Lifetime source first s' (h ++ steps source fuel s w) := by
  obtain ⟨made, faults, hCalls⟩ := hLifetime
  exact (hCalls.select fuel w hDrain).lifetime

theorem Lifetime.order {answer : Except Fault (List Selection)} {w' : σ} (fuel : Nat) (w : σ)
    (hLifetime : Lifetime source first s h)
    (hOrder : Selector.order source fuel s w = some (answer, s', w')) :
    Lifetime source first s' (h ++ steps source fuel s w) := by
  obtain ⟨made, faults, hCalls⟩ := hLifetime
  exact (hCalls.order fuel w hOrder).lifetime

end Calls

/-! ## One more step -/

theorem filterMap_concat {α β : Type} (f : α → Option β) (l : List α) (a : α) :
    (l ++ [a]).filterMap f = l.filterMap f ++ (f a).toList := by
  rw [List.filterMap_append]
  cases hValue : f a with
  | none => simp [hValue]
  | some b => simp [hValue]

theorem requested_concat (h : List (Step σ)) (x : Step σ) :
    requested source (h ++ [x]) = requested source h ++ (x.version source).toList :=
  filterMap_concat _ h x

theorem expansions_concat (h : List (Step σ)) (x : Step σ) :
    expansions source (h ++ [x]) = expansions source h ++ (x.expansion source).toList :=
  filterMap_concat _ h x

theorem considered_concat (h : List (Step σ)) (x : Step σ) :
    considered (h ++ [x]) = considered h ++ x.request.dependency.toList :=
  filterMap_concat _ h x

theorem mem_requested_concat {h : List (Step σ)} {x : Step σ} {v : Specifier} :
    v ∈ requested source (h ++ [x]) ↔ v ∈ requested source h ∨ x.version source = some v := by
  rw [requested_concat, List.mem_append, Option.mem_toList]

/-- A dependency that is worked off is asked for. -/
theorem Step.version_of_dependency {x : Step σ} {e : Specifier × Specifier}
    (he : x.request.dependency = some e) : x.version source = some e.2 := by
  obtain ⟨request, s, w⟩ := x
  cases request with
  | direct token request shortcut => cases he
  | transitive token parent dependency =>
      cases he
      rfl

/-! ## What is expanded -/

theorem eq_of_commit {s : Selector} {token : Nat} {shortcut : Option String} {c c' : Candidate}
    (hCommit : (s.commit token shortcut c).1 = .ok (some c')) : c' = c := by
  unfold commit at hCommit
  dsimp only at hCommit
  split at hCommit
  · cases hCommit
  · split at hCommit
    · cases hCommit
      rfl
    · cases hCommit

/-- Whatever a step expands is what the source has answered about its request. So it has exactly the
dependencies of the record that was looked up, or of the manifest that was read. -/
theorem Step.yields_of_expansion {x : Step σ} {c : Nat × Candidate}
    (hExpansion : x.expansion source = some c) :
    c.1 = x.request.token ∧ Yields source x.request.subject x.world c.2 := by
  obtain ⟨request, s, w⟩ := x
  unfold Step.expansion Step.settled at hExpansion
  split at hExpansion
  · next c' hSettled =>
      cases hExpansion
      refine ⟨rfl, ?_⟩
      cases request with
      | direct token request shortcut =>
          simp only [settle, settleDirect] at hSettled
          rcases hFind : find source request w with ⟨f | c, w'⟩
          · simp [hFind] at hSettled
          · simp only [hFind] at hSettled
            rw [eq_of_commit hSettled]
            exact (find_eq_ok_iff source).1 (congrArg Prod.fst hFind)
      | transitive token parent dependency =>
          simp only [settle, settleTransitive] at hSettled
          rcases hDeclare : s.declare parent dependency with ⟨f | u, t⟩
          · simp [hDeclare] at hSettled
          · simp only [hDeclare] at hSettled
            cases hPin : t.pin? dependency with
            | none => simp [hPin] at hSettled
            | some t' =>
                rcases hFind : findExactly source dependency w with ⟨f | c, w'⟩
                · simp [hPin, hFind] at hSettled
                · simp only [hPin, hFind] at hSettled
                  cases hSettled
                  exact (findExactly_eq_ok_iff source).1 (congrArg Prod.fst hFind)
  · cases hExpansion

/-! ## Working off the queue -/

/-- The step that comes first takes its request from the queue, and leaves the rest as it is. -/
theorem firstStep_eq_some {s : Selector} {w : σ} {x : Step σ} (hFirst : s.firstStep w = some x) :
    s.pending = x.request :: x.before.pending ∧
      x.before = { s with pending := x.before.pending } := by
  unfold firstStep at hFirst
  split at hFirst
  · cases hFirst
  · next p rest hPending =>
      cases hFirst
      exact ⟨hPending, rfl⟩

/-- Asking for the order works the requests off, and looks up the order if none of them fails. -/
theorem order_eq_some {fuel : Nat} {s s' : Selector} {w w' : σ}
    {answer : Except Fault (List Selection)}
    (hOrder : order source fuel s w = some (answer, s', w')) :
    (drain source fuel s w = some (.ok (), s', w') ∧ answer = s'.selections) ∨
      ∃ f, drain source fuel s w = some (.error f, s', w') ∧ answer = .error f := by
  unfold order at hOrder
  obtain ⟨⟨result, t, v⟩, hDrain, hAnswer⟩ := Option.map_eq_some_iff.1 hOrder
  cases result with
  | ok u =>
      cases hAnswer
      exact .inl ⟨hDrain, rfl⟩
  | error f =>
      cases hAnswer
      exact .inr ⟨f, hDrain, rfl⟩

/-- What `drain` does: nothing if no request waits, and otherwise it works off the first one and
goes on unless that fails. -/
theorem drain_cases {fuel : Nat} {s : Selector} {w : σ} {r : Except Fault Unit × Selector × σ}
    (hDrain : drain source fuel s w = some r) :
    (s.pending = [] ∧ r = (.ok (), s, w) ∧ steps source fuel s w = []) ∨
    ∃ x k, s.firstStep w = some x ∧ fuel = k + 1 ∧
      ((∃ t v, x.outcome source = (.ok (), t, v) ∧ drain source k t v = some r ∧
        steps source fuel s w = x :: steps source k t v) ∨
      ∃ f t v, x.outcome source = (.error f, t, v) ∧ r = (.error f, t, v) ∧
        steps source fuel s w = [x]) := by
  cases hPending : s.pending with
  | nil =>
      have hFirst : s.firstStep w = none := by simp [firstStep, hPending]
      refine .inl ⟨rfl, ?_, ?_⟩
      · unfold drain at hDrain
        rw [hPending] at hDrain
        exact (Option.some.inj hDrain).symm
      · cases fuel with
        | zero => rfl
        | succ k => simp [steps, hFirst]
  | cons p rest =>
      have hFirst : s.firstStep w = some ⟨p, { s with pending := rest }, w⟩ := by
        simp [firstStep, hPending]
      cases fuel with
      | zero =>
          unfold drain at hDrain
          rw [hPending] at hDrain
          cases hDrain
      | succ k =>
          refine .inr ⟨_, k, hFirst, rfl, ?_⟩
          unfold drain at hDrain
          rw [hPending] at hDrain
          simp only [steps, hFirst, Step.outcome]
          rcases hProcess : process source p { s with pending := rest } w with ⟨answer, t, v⟩
          simp only [hProcess] at hDrain
          cases answer with
          | ok u => exact .inl ⟨t, v, rfl, hDrain, rfl⟩
          | error f => exact .inr ⟨f, t, v, rfl, (Option.some.inj hDrain).symm, rfl⟩

/-- Requests that are worked off without a failure leave an empty queue. -/
theorem pending_of_drain {fuel : Nat} {s s' : Selector} {w w' : σ}
    (hDrain : drain source fuel s w = some (.ok (), s', w')) : s'.pending = [] := by
  induction fuel generalizing s w with
  | zero =>
      rcases drain_cases hDrain with ⟨hEmpty, hResult, -⟩ | ⟨x, k, -, hFuel, -⟩
      · cases hResult
        exact hEmpty
      · cases hFuel
  | succ fuel ih =>
      rcases drain_cases hDrain with ⟨hEmpty, hResult, -⟩ | ⟨x, k, -, hFuel, hNext | hLast⟩
      · cases hResult
        exact hEmpty
      · cases hFuel
        obtain ⟨t, v, -, hRest, -⟩ := hNext
        exact ih hRest
      · obtain ⟨f, t, v, -, hResult, -⟩ := hLast
        cases hResult

section Induction

variable {P : Selector → List (Step σ) → Prop}
  (hStep : ∀ s h w x, P s h → s.firstStep w = some x → P (x.outcome source).2.1 (h ++ [x]))

include hStep

/-- What working off one request keeps, working off all of them keeps. -/
theorem drain_induction {fuel : Nat} {s : Selector} {h : List (Step σ)} {w : σ}
    {r : Except Fault Unit × Selector × σ} (hP : P s h)
    (hDrain : drain source fuel s w = some r) : P r.2.1 (h ++ steps source fuel s w) := by
  induction fuel generalizing s h w with
  | zero =>
      rcases drain_cases hDrain with ⟨-, rfl, hSteps⟩ | ⟨x, k, -, hFuel, -⟩
      · rw [hSteps, List.append_nil]
        exact hP
      · cases hFuel
  | succ fuel ih =>
      rcases drain_cases hDrain with ⟨-, rfl, hSteps⟩ | ⟨x, k, hFirst, hFuel, hNext | hLast⟩
      · rw [hSteps, List.append_nil]
        exact hP
      · cases hFuel
        obtain ⟨t, v, hOutcome, hRest, hSteps⟩ := hNext
        have hOne := hStep s h w x hP hFirst
        rw [hOutcome] at hOne
        rw [hSteps, List.append_cons]
        exact ih hOne hRest
      · obtain ⟨f, t, v, hOutcome, rfl, hSteps⟩ := hLast
        have hOne := hStep s h w x hP hFirst
        rw [hOutcome] at hOne
        rw [hSteps]
        exact hOne

/-- What holds of a selector at first, and is kept when a request is added and when one is worked
off, holds after all calls. -/
theorem Lifetime.induction {first s : Selector} {h : List (Step σ)} (hNew : P first [])
    (hAdd : ∀ s h request shortcut, P s h → P (s.add request shortcut).2 h)
    (hLifetime : Lifetime source first s h) : P s h := by
  obtain ⟨made, faults, hCalls⟩ := hLifetime
  induction hCalls with
  | new => exact hNew
  | add request shortcut _ ih => exact hAdd _ _ request shortcut ih
  | select fuel w _ hDrain ih => exact drain_induction hStep ih hDrain
  | order fuel w _ hOrder ih =>
      rcases order_eq_some hOrder with ⟨hDrain, -⟩ | ⟨f, hDrain, -⟩
      · exact drain_induction hStep ih hDrain
      · exact drain_induction hStep ih hDrain

end Induction

end Selector

end PackageManager
