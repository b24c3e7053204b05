import Mathlib.Data.Set.Finite.Lattice
import PackageManager.Proofs.Selector.FirstDrain

/-!
# Every request gets its turn

The queue of a selector grows at its end only, so whatever is put into it is worked off some time
later, unless a request fails before. If a call never came to an end, all that it put into the queue
would be worked off sooner or later. This module draws the conclusion that matters: what is expanded
then stands for all versions that can become a pin, so that each of these can be found.

## Main results

* `solvable_of_endless` — a call that never ends would have nothing to fail at.
* `Ongoing.exists_drain` — but it ends if only so many versions can become a pin.
-/

namespace PackageManager.Selector

variable {σ : Type} {source : PackageSource σ}

/-- With more fuel, `drain` works off the same requests and perhaps more of them. -/
theorem steps_extend {n m : Nat} (hLe : n ≤ m) (s : Selector) (v : σ) :
    steps source n s v <+: steps source m s v := by
  induction n generalizing m s v with
  | zero => exact List.nil_prefix
  | succ n ih =>
      obtain ⟨m, rfl⟩ : ∃ k, m = k + 1 := ⟨m - 1, by omega⟩
      simp only [steps]
      cases hFirst : s.firstStep v with
      | none => exact List.prefix_rfl
      | some x =>
          rcases hOutcome : x.outcome source with ⟨f | u, t, v'⟩
          · simp only [hOutcome]
            exact List.prefix_rfl
          · simp only [hOutcome]
            exact (List.prefix_append_right_inj [x]).2 (ih (by omega) t v')

/-- Each step works off a direct request or a dependency. -/
theorem length_answered_add (h : List (Step σ)) :
    (answered h).length + (considered h).length = h.length := by
  unfold answered asksOf considered
  induction h with
  | nil => rfl
  | cons x h ih =>
      rw [List.map_cons, List.filterMap_cons, List.filterMap_cons, List.length_cons, ← ih]
      cases x.request with
      | direct token request shortcut =>
          simp only [PendingRequest.ask, PendingRequest.dependency, List.length_cons]
          omega
      | transitive token parent dependency =>
          simp only [PendingRequest.ask, PendingRequest.dependency, List.length_cons]
          omega

/-- The dependencies that some steps put into the queue. -/
def queued (source : PackageSource σ) (h : List (Step σ)) : List (Specifier × Specifier) :=
  (expansions source h).flatMap fun c => asked c.2

theorem queued_extend {h h' : List (Step σ)} (hPrefix : h <+: h') :
    queued source h <+: queued source h' := by
  obtain ⟨l, rfl⟩ := hPrefix
  unfold queued expansions
  rw [List.filterMap_append, List.flatMap_append]
  exact List.prefix_append ..

section Endless

variable {w : σ} {asks : List Ask} {s : Selector} {h : List (Step σ)} {v : σ}

/-- As long as there is no answer, there is one more step for each unit of fuel. -/
theorem Ongoing.goes_on (hOngoing : Ongoing source w asks s h) (hSource : source.Deterministic)
    {n : Nat} (hNone : drain source n s v = none) :
    (∃ t, Ongoing source w asks t (h ++ steps source n s v)) ∧
      (steps source n s v).length = n := by
  induction n generalizing s h v with
  | zero => exact ⟨⟨s, by simpa [steps] using hOngoing⟩, rfl⟩
  | succ n ih =>
      cases hFirst : s.firstStep v with
      | none =>
          rw [drain_of_firstStep_none hFirst] at hNone
          cases hNone
      | some x =>
          rw [drain_of_firstStep hFirst] at hNone
          simp only [steps, hFirst]
          rcases hOutcome : x.outcome source with ⟨f | u, t, v'⟩
          · rw [hOutcome] at hNone
            cases hNone
          · have hNext := hOngoing.step hFirst hSource (Step.failure_of_ok hOutcome)
            rw [hOutcome] at hNone hNext
            obtain ⟨hRest, hLength⟩ := ih hNext hNone
            simp only [List.length_cons, hLength, and_true]
            rwa [List.append_cons]

/-! ## Every request gets its turn -/

variable (hSource : source.Deterministic)
  (hEndless : ∀ n, drain source n (asking asks) v = none)

include hSource hEndless

/-- The steps of a call that does not come to an end. -/
theorem endless_steps (w : σ) (n : Nat) :
    (∃ t, Ongoing source w asks t (steps source n (asking asks) v)) ∧
      (steps source n (asking asks) v).length = n :=
  (ongoing_start source w asks).goes_on hSource (hEndless n)

/-- Direct requests take only so many steps, so all others work off dependencies. -/
theorem le_length_considered (n : Nat) :
    n ≤ asks.length + (considered (steps source n (asking asks) v)).length := by
  obtain ⟨⟨t, hOngoing⟩, hLength⟩ := endless_steps hSource hEndless v n
  have hSteps := length_answered_add (steps source n (asking asks) v)
  have hAccounted := congrArg List.length hOngoing.accounted
  rw [List.length_append] at hAccounted
  omega

/-- What has been put into the queue will be worked off. -/
theorem exists_considered (n : Nat) : ∃ m, n ≤ m ∧
    queued source (steps source n (asking asks) v) <+:
      considered (steps source m (asking asks) v) := by
  have hConsidered (k : Nat) : considered (steps source k (asking asks) v) <+:
      queued source (steps source k (asking asks) v) := by
    obtain ⟨⟨t, hOngoing⟩, -⟩ := endless_steps hSource hEndless v k
    exact ⟨_, hOngoing.books.booked.queued⟩
  let m := asks.length + (queued source (steps source n (asking asks) v)).length
  have hLater : n ≤ m := by
    have hNow := le_length_considered hSource hEndless n
    have hShorter := (hConsidered n).length_le
    omega
  have hLong := le_length_considered hSource hEndless m
  refine ⟨m, hLater, List.prefix_of_prefix_length_le ?_ (hConsidered m) (by omega)⟩
  exact queued_extend (steps_extend hLater (asking asks) v)

/-- From some time on, all direct requests have been worked off. -/
theorem answered_eq_of_le {n : Nat} (hLate : asks.length ≤ n) :
    answered (steps source n (asking asks) v) = asks := by
  obtain ⟨⟨t, hOngoing⟩, hLength⟩ := endless_steps hSource hEndless v n
  rcases hOngoing.dependencies_last with hNone | hDone
  · have hSteps := length_answered_add (steps source n (asking asks) v)
    have hAccounted := hOngoing.accounted
    have hCount := congrArg List.length hAccounted
    rw [hNone, List.length_nil] at hSteps
    rw [List.length_append] at hCount
    have hRest : asksOf t.pending = [] := List.eq_nil_of_length_eq_zero (by omega)
    rwa [hRest, List.append_nil] at hAccounted
  · exact hDone

/-- Sooner or later, what is expanded stands for all that can become a pin. -/
theorem exhausts_endless : Exhausts source w (found source w asks)
    {e | ∃ n, ∃ c ∈ expansions source (steps source n (asking asks) v), c.2 = e} where
  found := by
    intro c hc
    obtain ⟨⟨t, hOngoing⟩, -⟩ := endless_steps hSource hEndless w asks.length
    have hDone := answered_eq_of_le hSource hEndless (Nat.le_refl asks.length)
    obtain ⟨e, he, hSurpasses⟩ := hOngoing.exists_expanded_of_found hDone hc
    exact ⟨e.2, ⟨_, e, he, rfl⟩, hSurpasses⟩
  sound := by
    rintro e ⟨n, c, hc, rfl⟩
    obtain ⟨⟨t, hOngoing⟩, -⟩ := endless_steps hSource hEndless w n
    exact hOngoing.sound c hc
  closed := by
    rintro e ⟨n, c, hc, rfl⟩ d hd
    have hQueued : (c.2.specifier, d) ∈ queued source (steps source n (asking asks) v) :=
      List.mem_flatMap.2 ⟨c, hc, List.mem_map_of_mem hd⟩
    obtain ⟨m, -, hPrefix⟩ := exists_considered hSource hEndless n
    obtain ⟨⟨t, hOngoing⟩, -⟩ := endless_steps hSource hEndless w m
    obtain ⟨e, he, hSurpasses⟩ :=
      hOngoing.exists_expanded_of_considered (hPrefix.subset hQueued)
    exact ⟨e.2, ⟨m, e, he, rfl⟩, hSurpasses⟩

/-- If the requests are worked off without end, then each of them can be. -/
theorem solvable_of_endless (hCumulative : Cumulative source w (found source w asks)) :
    Solvable source w asks := by
  obtain ⟨⟨t, hOngoing⟩, -⟩ := endless_steps hSource hEndless w asks.length
  have hDone := answered_eq_of_le hSource hEndless (Nat.le_refl asks.length)
  exact hOngoing.solvable hDone (exhausts_endless hSource hEndless) hCumulative

end Endless

/-! ## Only so many versions -/

instance finite_version : Finite Version :=
  have hComponent : Finite UInt32 :=
    Finite.of_injective UInt32.toFin fun _ _ hSame => UInt32.toFin_inj.1 hSame
  Finite.of_injective (fun v : Version => (v.major, v.minor, v.patch)) fun u v hSame => by
    cases u
    cases v
    simp_all

/-- A package has only so many versions, so each version surpasses only so many. -/
theorem finite_surpassed (l : List Specifier) : {v | ∃ u ∈ l, Surpasses u v}.Finite := by
  have hVersions :
      (⋃ u ∈ {u | u ∈ l}, Set.range fun v : Version => (⟨u.id, v⟩ : Specifier)).Finite :=
    (List.finite_toSet l).biUnion fun u _ => Set.finite_range _
  apply hVersions.subset
  rintro v ⟨u, hu, hId, -⟩
  exact Set.mem_biUnion hu ⟨v.version, by rw [hId]⟩

/-- If only so many versions can become a pin, then the requests are worked off in finitely many
steps, or one of them fails. -/
theorem Ongoing.exists_drain {w : σ} {asks : List Ask} {s : Selector} {h : List (Step σ)}
    (hOngoing : Ongoing source w asks s h) (hSource : source.Deterministic)
    (known : Finset Specifier)
    (hKnown : ∀ u, Reached source w (found source w asks) u → u ∈ known) (v : σ) :
    ∃ fuel r, drain source fuel s v = some r := by
  cases hFirst : s.firstStep v with
  | none => exact ⟨0, _, drain_of_firstStep_none hFirst 0⟩
  | some x =>
      rcases hOutcome : x.outcome source with ⟨f | u, t, v'⟩
      · refine ⟨1, (.error f, t, v'), ?_⟩
        rw [drain_of_firstStep hFirst, hOutcome]
      · have hDecreases := remaining_decreases hFirst hOutcome fun _ _ _ hRequest _ hNew =>
          hKnown _ (hOngoing.reached_of_not_covers hFirst hRequest hNew).1
        have hNext := hOngoing.step hFirst hSource (Step.failure_of_ok hOutcome)
        rw [hOutcome] at hNext
        obtain ⟨fuel, r, hDrain⟩ := hNext.exists_drain hSource known hKnown v'
        refine ⟨fuel + 1, r, ?_⟩
        rw [drain_of_firstStep hFirst, hOutcome]
        exact hDrain
termination_by remaining known s
decreasing_by exact hDecreases

end PackageManager.Selector
