import Mathlib.Data.Set.Finite.Basic
import Mathlib.Data.Set.Finite.List
import PackageManager.Proofs.Selector.DirectRequests
import PackageManager.Proofs.Selector.Journal

/-!
# The queue is worked off

Versions of packages may depend on each other in circles, and each round of a circle may ask for
greater versions than the one before. All the same `drain` comes to an end if the source has only so
many versions to offer, and this module says so for every selector, whether calls lead to it or not.

## What decreases

The queue is no measure, since it grows while it is worked off. But a version is only expanded when
it becomes a pin that no pin was at least as great as before, and pins only rise. So the versions
that are still above the pins become fewer with each dependency that is expanded (`unpinned`). What
else is worked off makes the queue shorter. A direct request may expand a version that the source
does not know, a file for instance; but those requests are never put into the queue again, so they
are counted first (`remaining`).

The same observation says how often the source is asked. A dependency is only looked up if no pin
is at least as great, and from then on one is.

## Main results

* `exists_drain` — with enough fuel, `drain` has an answer.
* `selection_terminates` — that answer is the same for all greater fuel, and over the whole lifetime
  of a selector no version is looked up twice on account of another one.
-/

namespace PackageManager

/-- The versions that a source finds in some state. -/
def PackageSource.available {σ : Type} (source : PackageSource σ) : Set Specifier :=
  {v | ∃ w r w', source.package v w = (.ok r, w')}

/-- A table finds the versions that it has records of. -/
theorem PackageTable.available_finite {σ : Type} (t : PackageTable) (files : σ → FileStore) :
    (t.source files).available.Finite := by
  apply (List.finite_toSet t.records.keys).subset
  rintro v ⟨w, r, w', hPackage⟩
  have hAnswer : t.package v = .ok r := congrArg Prod.fst hPackage
  have hKey : t.records.contains v := by
    unfold PackageTable.package at hAnswer
    cases hGet : t.records.get? v with
    | none => simp [hGet] at hAnswer
    | some r => simp [OrderedMap.contains, hGet]
  exact OrderedMap.contains_iff_mem_keys.1 hKey

namespace Selector

variable {σ : Type} {source : PackageSource σ}

/-! ## Pins only rise -/

/-- Whether a version is pinned that is at least as great. -/
def covers (s : Selector) (v : Specifier) : Bool := (s.pins.get? v.id).any (v.version ≤ ·)

theorem pin?_eq_none_iff {s : Selector} {v : Specifier} : s.pin? v = none ↔ s.covers v := by
  unfold pin? covers
  split <;> simp_all

/-- A pin is only replaced by a greater one. -/
theorem covers_of_pin? {s t : Selector} {u v : Specifier} (hPin : s.pin? v = some t)
    (hCovers : s.covers u) : t.covers u := by
  have hNew : ¬s.covers v := by simp [← pin?_eq_none_iff, hPin]
  unfold pin? at hPin
  split at hPin
  · cases hPin
  · cases hPin
    unfold covers at hCovers hNew ⊢
    rw [OrderedMap.get?_insert]
    by_cases hId : u.id = v.id
    · rw [hId] at hCovers
      obtain ⟨w, hOld, hLe⟩ := (Option.any_eq_true _ _).1 hCovers
      have hBelow : w < v.version := by
        rw [hOld] at hNew
        exact Std.not_le.1 (by simpa using hNew)
      have hRises : u.version ≤ v.version :=
        Std.le_of_lt (Std.lt_of_le_of_lt (of_decide_eq_true hLe) hBelow)
      simp [hId, hRises]
    · simp [hId, hCovers]

theorem covers_self_of_pin? {s t : Selector} {v : Specifier} (hPin : s.pin? v = some t) :
    t.covers v := by
  unfold pin? at hPin
  split at hPin
  · cases hPin
  · cases hPin
    simp [covers, OrderedMap.get?_insert, Std.le_refl]

theorem queue_of_pin? {s t : Selector} {v : Specifier} (hPin : s.pin? v = some t) :
    t.pending = s.pending ∧ t.issued = s.issued := by
  unfold pin? at hPin
  split at hPin
  · cases hPin
  · cases hPin
    exact ⟨rfl, rfl⟩

/-! ## Settling a request in any selector -/

/-- A selector keeps its queue and gives out no token, and what is pinned in it or greater stays
so. -/
structure Rises (s t : Selector) : Prop where
  pending : t.pending = s.pending
  issued : t.issued = s.issued
  covers : ∀ v, s.covers v → t.covers v

theorem rises_refl (s : Selector) : Rises s s := ⟨rfl, rfl, fun _ => id⟩

theorem Rises.trans {s t u : Selector} (hst : Rises s t) (htu : Rises t u) : Rises s u :=
  ⟨htu.pending.trans hst.pending, htu.issued.trans hst.issued,
    fun v hv => htu.covers v (hst.covers v hv)⟩

theorem rises_of_pin? {s t : Selector} {v : Specifier} (hPin : s.pin? v = some t) : Rises s t :=
  ⟨(queue_of_pin? hPin).1, (queue_of_pin? hPin).2, fun _ => covers_of_pin? hPin⟩

theorem covers_declare (s : Selector) (parent dependency v : Specifier) :
    (s.declare parent dependency).2.covers v = s.covers v := by
  unfold declare
  split
  · rfl
  · rfl

theorem rises_declare (s : Selector) (parent dependency : Specifier) :
    Rises s (s.declare parent dependency).2 where
  pending := by
    unfold declare
    split
    · rfl
    · rfl
  issued := by
    unfold declare
    split
    · rfl
    · rfl
  covers := by
    intro v hv
    rw [covers_declare]
    exact hv

theorem rises_commit (s : Selector) (token : Nat) (shortcut : Option String) (c : Candidate) :
    Rises s (s.commit token shortcut c).2 := by
  unfold commit
  rcases hAdd : s.dependencies.addDirect
    { id := c.specifier.id, requirements := .ofList [.exact c.specifier.version] } with
    ⟨f | u, dependencies⟩
  · simp only [hAdd]
    exact ⟨rfl, rfl, fun _ => id⟩
  · let t : Selector := { s with
      dependencies
      shortcuts := shortcut.elim s.shortcuts fun name => s.shortcuts.insert c.specifier.id name
      directTokens := s.directTokens.insert c.specifier.id token }
    have hNoted : Rises s t := ⟨rfl, rfl, fun _ => id⟩
    simp only [hAdd]
    cases hPin : t.pin? c.specifier with
    | none => exact hNoted
    | some u => exact hNoted.trans (rises_of_pin? hPin)

/-- A dependency is refused or passed over without asking the source, or it becomes the pin and is
looked up then. Which of these it is does not depend on the source. -/
theorem settleTransitive_cases (parent dependency : Specifier) (s : Selector) : ∃ t, Rises s t ∧
    ((∃ answer, (∀ c, answer ≠ .ok (some c)) ∧ ∀ (τ : Type) (source : PackageSource τ) w,
      settleTransitive source parent dependency s w = (answer, t, w)) ∨
    ¬s.covers dependency ∧ t.covers dependency ∧ ∀ (τ : Type) (source : PackageSource τ) w,
      settleTransitive source parent dependency s w =
        ((findExactly source dependency w).1.map some, t,
          (findExactly source dependency w).2)) := by
  have hDeclared := rises_declare s parent dependency
  have hPins := s.covers_declare parent dependency dependency
  rcases hDeclare : s.declare parent dependency with ⟨f | u, d⟩
  · rw [hDeclare] at hDeclared
    refine ⟨d, hDeclared, .inl ⟨.error f, by simp, fun τ source w => ?_⟩⟩
    simp [settleTransitive, hDeclare]
  · rw [hDeclare] at hDeclared hPins
    cases hPin : d.pin? dependency with
    | none =>
        refine ⟨d, hDeclared, .inl ⟨.ok none, by simp, fun τ source w => ?_⟩⟩
        simp [settleTransitive, hDeclare, hPin]
    | some t =>
        have hNew : ¬s.covers dependency := by
          rw [← hPins]
          simp [← pin?_eq_none_iff, hPin]
        refine ⟨t, hDeclared.trans (rises_of_pin? hPin), .inr ⟨hNew, covers_self_of_pin? hPin, ?_⟩⟩
        intro τ source w
        rcases hFind : findExactly source dependency w with ⟨f | c, w'⟩
        · simp [settleTransitive, hDeclare, hPin, hFind, Except.map]
        · simp [settleTransitive, hDeclare, hPin, hFind, Except.map]

theorem rises_settle (source : PackageSource σ) (p : PendingRequest) (s : Selector) (w : σ) :
    Rises s (settle source p s w).2.1 := by
  cases p with
  | direct token request shortcut =>
      simp only [settle, settleDirect]
      rcases find source request w with ⟨f | c, w'⟩
      · exact rises_refl s
      · exact rises_commit s token shortcut c
  | transitive token parent dependency =>
      obtain ⟨t, hRises, ⟨answer, -, hSettle⟩ | ⟨-, -, hSettle⟩⟩ :=
        settleTransitive_cases parent dependency s
      · simp only [settle, hSettle]
        exact hRises
      · simp only [settle, hSettle]
        exact hRises

/-! ## Steps -/

/-- Expanding what a request has settled on changes no pin. -/
theorem Step.covers_outcome (source : PackageSource σ) (x : Step σ) (v : Specifier) :
    (x.outcome source).2.1.covers v = (x.settled source).2.1.covers v := by
  rcases x.outcome_cases source with ⟨c, -, -, hOutcome⟩ | ⟨-, hOutcome⟩
  · rw [hOutcome]
    rfl
  · rw [hOutcome]

/-- Working off a request makes no direct request, and covers what was covered. -/
theorem Step.outcome_rises (source : PackageSource σ) (x : Step σ) :
    directs (x.outcome source).2.1.pending = directs x.before.pending ∧
      ∀ v, x.before.covers v → (x.outcome source).2.1.covers v := by
  have hRises : Rises x.before (x.settled source).2.1 :=
    rises_settle source x.request x.before x.world
  rcases x.outcome_cases source with ⟨c, -, -, hOutcome⟩ | ⟨-, hOutcome⟩
  · rw [hOutcome, directs_expand, hRises.pending]
    exact ⟨rfl, hRises.covers⟩
  · rw [hOutcome, hRises.pending]
    exact ⟨rfl, hRises.covers⟩

/-- A dependency that is worked off without a failure adds nothing to the queue, or it is found and
rises above the pin. -/
theorem Step.outcome_transitive {x : Step σ} {token : Nat} {parent dependency : Specifier}
    (hRequest : x.request = .transitive token parent dependency)
    (hFine : (x.outcome source).1 = .ok ()) :
    (x.outcome source).2.1.pending = x.before.pending ∨
      dependency ∈ source.available ∧ ¬x.before.covers dependency ∧
        (x.outcome source).2.1.covers dependency := by
  have hSettled : x.settled source =
      settleTransitive source parent dependency x.before x.world := by
    simp only [Step.settled, settle, hRequest]
  obtain ⟨t, hRises, ⟨answer, hNone, hSettle⟩ | ⟨hNew, hCovers, hSettle⟩⟩ :=
    settleTransitive_cases parent dependency x.before
  · left
    rw [hSettle σ source x.world] at hSettled
    rcases x.outcome_cases source with ⟨c, hAnswer, -, -⟩ | ⟨-, hOutcome⟩
    · rw [hSettled] at hAnswer
      exact absurd hAnswer (hNone c)
    · rw [hOutcome, hSettled]
      exact hRises.pending
  · right
    rw [hSettle σ source x.world] at hSettled
    cases hPackage : source.package dependency x.world with
    | mk answer w =>
        cases answer with
        | error f =>
            have hFailed : (x.outcome source).1 = .error f := by
              unfold Step.settled at hSettled
              unfold Step.outcome process
              rw [hSettled]
              simp [findExactly, hPackage, Except.map]
            rw [hFailed] at hFine
            cases hFine
        | ok r =>
            refine ⟨⟨x.world, r, w, hPackage⟩, hNew, ?_⟩
            rw [x.covers_outcome, hSettled]
            exact hCovers

/-! ## The measure -/

/-- How many of some versions are above the pins. -/
def unpinned (known : Finset Specifier) (s : Selector) : Nat :=
  (known.filter fun v => !s.covers v).card

/-- What is left to be done: the direct requests that wait, the versions above the pins, and the
requests that wait. -/
def remaining (known : Finset Specifier) (s : Selector) : Nat × Nat × Nat :=
  ((directs s.pending).length, unpinned known s, s.pending.length)

section Unpinned

variable {known : Finset Specifier} {s t : Selector} (hCovers : ∀ v, s.covers v → t.covers v)

include hCovers

/-- What is above the pins was above those before. -/
theorem unpinned_subset :
    (known.filter fun v => !t.covers v) ⊆ known.filter fun v => !s.covers v := by
  intro v hv
  simp only [Finset.mem_filter, Bool.not_eq_true'] at hv ⊢
  refine ⟨hv.1, ?_⟩
  by_contra hOld
  simp [hCovers v (by simpa using hOld)] at hv

theorem unpinned_le : unpinned known t ≤ unpinned known s :=
  Finset.card_le_card (unpinned_subset hCovers)

theorem unpinned_lt {v : Specifier} (hv : v ∈ known) (hOld : ¬s.covers v) (hNew : t.covers v) :
    unpinned known t < unpinned known s := by
  apply Finset.card_lt_card
  rw [Finset.ssubset_iff_of_subset (unpinned_subset hCovers)]
  exact ⟨v, by simp [hv, hOld], by simp [hNew]⟩

end Unpinned

theorem covers_firstStep {s : Selector} {w : σ} {x : Step σ} (hFirst : s.firstStep w = some x)
    (v : Specifier) : x.before.covers v = s.covers v := by
  rw [(firstStep_eq_some hFirst).2]
  rfl

/-- Working off a request without a failure leaves less to be done, if what may become a pin by that
is among the versions that are counted. -/
theorem remaining_decreases {known : Finset Specifier} {s t : Selector} {w w' : σ} {x : Step σ}
    (hFirst : s.firstStep w = some x) (hOutcome : x.outcome source = (.ok (), t, w'))
    (hKnown : ∀ token parent dependency, x.request = .transitive token parent dependency →
      dependency ∈ source.available → ¬x.before.covers dependency → dependency ∈ known) :
    Prod.Lex (· < ·) (Prod.Lex (· < ·) (· < ·)) (remaining known t) (remaining known s) := by
  obtain ⟨hPending, -⟩ := firstStep_eq_some hFirst
  have hBefore := covers_firstStep hFirst
  obtain ⟨hDirects, hCovers⟩ := x.outcome_rises source
  simp only [hOutcome, hBefore] at hDirects hCovers
  have hLe : unpinned known t ≤ unpinned known s := unpinned_le hCovers
  cases hRequest : x.request with
  | direct token request shortcut =>
      have hFewer : (directs t.pending).length < (directs s.pending).length := by
        rw [hDirects, hPending, hRequest]
        simp [directs, PendingRequest.isDirect]
      exact Prod.Lex.left _ _ hFewer
  | transitive token parent dependency =>
      have hSame : (directs t.pending).length = (directs s.pending).length := by
        rw [hDirects, hPending, hRequest]
        simp [directs, PendingRequest.isDirect]
      have hFine : (x.outcome source).1 = .ok () := by rw [hOutcome]
      have hStep := Step.outcome_transitive hRequest hFine
      have hCounted := hKnown token parent dependency hRequest
      simp only [hOutcome, hBefore] at hStep hCounted
      unfold remaining
      rw [hSame]
      apply Prod.Lex.right
      rcases hStep with hShorter | ⟨hAvailable, hOld, hNew⟩
      · have hLength : t.pending.length < s.pending.length := by
          rw [hPending, hShorter]
          simp
        rcases Nat.lt_or_eq_of_le hLe with hLt | hEq
        · exact Prod.Lex.left _ _ hLt
        · rw [hEq]
          exact Prod.Lex.right _ hLength
      · exact Prod.Lex.left _ _ (unpinned_lt hCovers (hCounted hAvailable hOld) hOld hNew)

/-! ## Draining -/

theorem drain_of_firstStep_none {s : Selector} {w : σ} (hFirst : s.firstStep w = none)
    (fuel : Nat) : drain source fuel s w = some (.ok (), s, w) := by
  unfold firstStep at hFirst
  split at hFirst
  · next hPending =>
      unfold drain
      rw [hPending]
  · cases hFirst

theorem drain_of_firstStep {s : Selector} {w : σ} {x : Step σ} (hFirst : s.firstStep w = some x)
    (fuel : Nat) : drain source (fuel + 1) s w =
      match x.outcome source with
      | (.ok (), s, w) => drain source fuel s w
      | (.error f, s, w) => some (.error f, s, w) := by
  unfold firstStep at hFirst
  split at hFirst
  · cases hFirst
  · next p rest hPending =>
      cases hFirst
      rw [drain, hPending]
      rfl

/-- More fuel does not change an answer. -/
theorem drain_of_le {fuel k : Nat} {s : Selector} {w : σ} {r : Except Fault Unit × Selector × σ}
    (hDrain : drain source fuel s w = some r) (hLe : fuel ≤ k) : drain source k s w = some r := by
  induction fuel generalizing s w k with
  | zero =>
      rcases drain_cases hDrain with ⟨hEmpty, rfl, -⟩ | ⟨x, k', -, hFuel, -⟩
      · apply drain_of_firstStep_none
        simp [firstStep, hEmpty]
      · cases hFuel
  | succ fuel ih =>
      rcases drain_cases hDrain with ⟨hEmpty, rfl, -⟩ | ⟨x, k', hFirst, hFuel, hNext | hLast⟩
      · apply drain_of_firstStep_none
        simp [firstStep, hEmpty]
      · cases hFuel
        obtain ⟨t, v, hOutcome, hRest, -⟩ := hNext
        obtain ⟨k, rfl⟩ : ∃ m, k = m + 1 := ⟨k - 1, by omega⟩
        rw [drain_of_firstStep hFirst, hOutcome]
        exact ih hRest (by omega)
      · obtain ⟨f, t, v, hOutcome, rfl, -⟩ := hLast
        obtain ⟨k, rfl⟩ : ∃ m, k = m + 1 := ⟨k - 1, by omega⟩
        rw [drain_of_firstStep hFirst, hOutcome]

/-- If the source knows only so many versions, the requests of any selector are worked off in
finitely many steps, or one of them fails. -/
theorem exists_drain {known : Finset Specifier} (hKnown : source.available ⊆ known) (s : Selector)
    (w : σ) : ∃ fuel r, drain source fuel s w = some r := by
  cases hFirst : s.firstStep w with
  | none => exact ⟨0, _, drain_of_firstStep_none hFirst 0⟩
  | some x =>
      rcases hOutcome : x.outcome source with ⟨f | u, t, w'⟩
      · refine ⟨1, (.error f, t, w'), ?_⟩
        rw [drain_of_firstStep hFirst, hOutcome]
      · have hDecreases := remaining_decreases hFirst hOutcome fun _ _ _ _ hAvailable _ =>
          hKnown hAvailable
        obtain ⟨fuel, r, hDrain⟩ := exists_drain hKnown t w'
        refine ⟨fuel + 1, r, ?_⟩
        rw [drain_of_firstStep hFirst, hOutcome]
        exact hDrain
termination_by remaining known s
decreasing_by exact hDecreases

/-! ## How often the source is asked -/

/-- What the source is asked for while the request of a step is settled. -/
def Step.inquiries (source : PackageSource σ) (x : Step σ) : List Inquiry :=
  (settle source.journaled x.request x.before { state := x.world }).2.2.inquiries

/-- What the source is asked for on account of selected versions. -/
def transitiveInquiries (source : PackageSource σ) (h : List (Step σ)) : List Inquiry :=
  (h.filter fun x => !x.request.isDirect).flatMap (Step.inquiries source)

/-- A dependency is looked up if it rises above the pin, and then only once. -/
theorem Step.inquiries_transitive (source : PackageSource σ) {x : Step σ} {token : Nat}
    {parent dependency : Specifier} (hRequest : x.request = .transitive token parent dependency) :
    x.inquiries source = [] ∨ x.inquiries source = [.package dependency] ∧
      ¬x.before.covers dependency ∧ (x.outcome source).2.1.covers dependency := by
  unfold Step.inquiries
  simp only [settle, hRequest]
  obtain ⟨t, hRises, ⟨answer, -, hSettle⟩ | ⟨hNew, hCovers, hSettle⟩⟩ :=
    settleTransitive_cases parent dependency x.before
  · left
    rw [hSettle]
  · right
    have hSettled : (x.settled source).2.1 = t := by
      simp only [Step.settled, settle, hRequest, hSettle]
    rw [hSettle, findExactly_journaled]
    refine ⟨rfl, hNew, ?_⟩
    rw [x.covers_outcome, hSettled]
    exact hCovers

/-- No version has been looked up twice on account of others, and each that was is covered. -/
structure LookedUpOnce (source : PackageSource σ) (s : Selector) (h : List (Step σ)) : Prop where
  nodup : (transitiveInquiries source h).Nodup
  covered : ∀ i ∈ transitiveInquiries source h, ∃ v, i = .package v ∧ s.covers v

theorem transitiveInquiries_concat (source : PackageSource σ) (h : List (Step σ)) (x : Step σ) :
    transitiveInquiries source (h ++ [x]) = transitiveInquiries source h ++
      if x.request.isDirect then [] else x.inquiries source := by
  unfold transitiveInquiries
  rw [List.filter_append, List.flatMap_append]
  cases hDirect : x.request.isDirect with
  | false => simp [hDirect]
  | true => simp [hDirect]

theorem lookedUpOnce_step {s : Selector} {h : List (Step σ)} {w : σ} {x : Step σ}
    (hOnce : LookedUpOnce source s h) (hFirst : s.firstStep w = some x) :
    LookedUpOnce source (x.outcome source).2.1 (h ++ [x]) := by
  have hBefore := covers_firstStep hFirst
  obtain ⟨-, hCovers⟩ := x.outcome_rises source
  simp only [hBefore] at hCovers
  have hOld : ∀ i ∈ transitiveInquiries source h,
      ∃ v, i = .package v ∧ (x.outcome source).2.1.covers v := by
    intro i hi
    obtain ⟨v, rfl, hv⟩ := hOnce.covered i hi
    exact ⟨v, rfl, hCovers v hv⟩
  have hUnchanged (hNone : transitiveInquiries source (h ++ [x]) = transitiveInquiries source h) :
      LookedUpOnce source (x.outcome source).2.1 (h ++ [x]) := by
    constructor
    · rw [hNone]
      exact hOnce.nodup
    · rw [hNone]
      exact hOld
  have hConcat := transitiveInquiries_concat source h x
  cases hRequest : x.request with
  | direct token request shortcut =>
      apply hUnchanged
      simp [hConcat, hRequest, PendingRequest.isDirect]
  | transitive token parent dependency =>
      have hIndirect : x.request.isDirect = false := by simp [hRequest, PendingRequest.isDirect]
      rw [hIndirect] at hConcat
      rcases Step.inquiries_transitive source hRequest with hNone | ⟨hOne, hAbove, hNow⟩
      · apply hUnchanged
        simp [hConcat, hNone]
      · rw [hBefore] at hAbove
        simp only [hOne, Bool.false_eq_true, if_false] at hConcat
        constructor
        · rw [hConcat]
          apply List.nodup_append.2
          refine ⟨hOnce.nodup, List.nodup_singleton _, ?_⟩
          intro i hi j hj hSame
          obtain ⟨v, rfl, hv⟩ := hOnce.covered i hi
          rw [← hSame, List.mem_singleton] at hj
          cases hj
          exact hAbove hv
        · intro i hi
          rw [hConcat, List.mem_append, List.mem_singleton] at hi
          rcases hi with hi | rfl
          · exact hOld i hi
          · exact ⟨dependency, rfl, hNow⟩

theorem lookedUpOnce_of_lifetime {first s : Selector} {h : List (Step σ)}
    (hLifetime : Lifetime source first s h) : LookedUpOnce source s h :=
  hLifetime.induction (P := LookedUpOnce source)
    (fun _ _ _ _ hOnce hFirst => lookedUpOnce_step hOnce hFirst) ⟨List.nodup_nil, nofun⟩
    fun _ _ _ _ hOnce => ⟨hOnce.nodup, hOnce.covered⟩

/-- If a source finds only so many versions, then the requests that wait in any selector are worked
off, or one of them fails: from some fuel on the answer is there and does not change. Whatever calls
are made on a selector from its beginning on, the source is asked for no version twice on account of
selected versions, and for nothing else than versions. -/
theorem selection_terminates (hFinite : source.available.Finite) :
    (∀ s w, ∃ fuel r, ∀ k, fuel ≤ k → drain source k s w = some r) ∧
    ∀ first s h, Lifetime source first s h →
      (transitiveInquiries source h).Nodup ∧
      ∀ i ∈ transitiveInquiries source h, ∃ v, i = .package v := by
  constructor
  · intro s w
    have hKnown : source.available ⊆ hFinite.toFinset := by simp
    obtain ⟨fuel, r, hDrain⟩ := exists_drain hKnown s w
    exact ⟨fuel, r, fun k hLe => drain_of_le hDrain hLe⟩
  · intro first s h hLifetime
    have hOnce := lookedUpOnce_of_lifetime hLifetime
    refine ⟨hOnce.nodup, fun i hi => ?_⟩
    obtain ⟨v, hi, -⟩ := hOnce.covered i hi
    exact ⟨v, hi⟩

/-- Two packages that ask for each other, in greater versions each time until there are none. -/
def spiral : PackageTable :=
  .ofRecords
    [ stockRecord "a" 1 [stockSpecifier "b" 1]
    , stockRecord "b" 1 [stockSpecifier "a" 2]
    , stockRecord "a" 2 [stockSpecifier "b" 2]
    , stockRecord "b" 2 [stockSpecifier "a" 2] ]

def spiralSource : PackageSource Unit := spiral.source fun _ => {}

/-- The least version is asked for. -/
def spiralSelector : Selector := (({} : Selector).add (.exactly (stockSpecifier "a" 1))).2

theorem selection_terminates_spiral :
    spiralSource.available.Finite ∧
    (∃ fuel r, ∀ k, fuel ≤ k → drain spiralSource k spiralSelector () = some r) ∧
    transitiveInquiries spiralSource (steps spiralSource 10 spiralSelector ()) =
      [ .package (stockSpecifier "b" 1), .package (stockSpecifier "a" 2)
      , .package (stockSpecifier "b" 2) ] ∧
    (transitiveInquiries spiralSource (steps spiralSource 10 spiralSelector ())).Nodup := by
  have hFinite : spiralSource.available.Finite := spiral.available_finite _
  obtain ⟨hTerminates, hOnce⟩ := selection_terminates hFinite
  have hSome : (drain spiralSource 10 spiralSelector ()).isSome := by decide +kernel
  obtain ⟨⟨answer, s, w⟩, hDrain⟩ := Option.isSome_iff_exists.1 hSome
  have hLifetime : Lifetime spiralSource spiralSelector s
      ([] ++ steps spiralSource 10 spiralSelector ()) := .select 10 () .new hDrain
  exact ⟨hFinite, hTerminates spiralSelector (), by decide +kernel, (hOnce _ _ _ hLifetime).1⟩

end Selector

end PackageManager
