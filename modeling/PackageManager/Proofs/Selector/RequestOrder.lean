import PackageManager.Proofs.Selector.Turns

/-!
# The order of direct requests

A project asks for its packages in some order, and would not expect that order to matter. It does: a
lesser version of a package that comes into the queue before a greater one becomes the pin and is
looked up, and then asks for its own dependencies. If it comes later it is passed over. So the order
decides whether a version that cannot be found is looked up at all, and whether what only a
superseded version depends on is selected.

If the versions are cumulative, neither can be noticed. When the queue is empty, what has been
expanded stands for all versions that can become a pin (`Ongoing.exhausts`), whichever of them have
been expanded. The pins, the edges between packages and the short names are then described without
the history (`order_asking`), and so the same for each order of the requests.

## Main results

* `order_of_requests_irrelevant` — if the versions are cumulative, all orders of the requests have
  the same answer, up to the order of what is selected and its tokens.
* `order_of_requests_matters` — otherwise one order can fail and the other not, and two orders can
  select different packages.
-/

namespace PackageManager

/-- What is selected: a version, where it is, and the name that it was asked for with. -/
def Selection.choice (y : Selection) : Specifier × Url × Option String :=
  (y.specifier, y.url, y.shortcut)

namespace Selector

open DependencySet

variable {σ : Type} {source : PackageSource σ}

/-! ## When the queue is empty -/

section Finished

variable {w : σ} {asks : List Ask} {s : Selector} {h : List (Step σ)}

namespace Ongoing

variable (hOngoing : Ongoing source w asks s h)

include hOngoing

/-- A pin has been expanded. -/
theorem expanded_of_pin {id : PackageId} {version : Version}
    (hPin : s.pins.get? id = some version) :
    ∃ c ∈ expansions source h, c.2.specifier = ⟨id, version⟩ := by
  obtain ⟨c, hc, hId, hLe⟩ := hOngoing.surpassed _ (hOngoing.books.greatest.mem_of_pin _ _ hPin)
  obtain ⟨u, hPin', hAbove⟩ :=
    hOngoing.books.greatest.pin_of_mem _ (hOngoing.books.expanded_requested c hc)
  rw [hId, hPin] at hPin'
  cases hPin'
  exact ⟨c, hc, Specifier.eq_of_parts hId (Std.le_antisymm hAbove hLe)⟩

/-- The package of a version that was asked for can be listed. -/
theorem exists_selectionOf {v : Specifier} (hv : v ∈ requested source h) :
    ∃ y, s.selectionOf v.id = .ok y := by
  obtain ⟨u, hPin, -⟩ := hOngoing.books.greatest.pin_of_mem v hv
  obtain ⟨c, hc, hSpecifier⟩ := hOngoing.expanded_of_pin hPin
  have hNoted := (hOngoing.books.booked.recorded _ _).2 ⟨c, hc, hSpecifier, rfl⟩
  unfold selectionOf
  simp only [hPin, hNoted]
  exact ⟨_, rfl⟩

/-- With an empty queue, all direct requests have been worked off. -/
theorem answered_eq_of_empty (hEmpty : s.pending = []) : answered h = asks := by
  have hAccounted := hOngoing.accounted
  rw [hEmpty] at hAccounted
  simpa [asksOf] using hAccounted

variable (hEmpty : s.pending = [])

include hEmpty

theorem unique_of_empty : ∀ c ∈ found source w asks, ∀ c' ∈ found source w asks,
    c.specifier.id = c'.specifier.id → c = c' :=
  hOngoing.found_unique (hOngoing.answered_eq_of_empty hEmpty)

/-- What has been expanded stands for all that can become a pin. -/
theorem exhausts : Exhausts source w (found source w asks)
    {e | ∃ c ∈ expansions source h, c.2 = e} where
  found := by
    intro c hc
    obtain ⟨e, he, hSurpasses⟩ :=
      hOngoing.exists_expanded_of_found (hOngoing.answered_eq_of_empty hEmpty) hc
    exact ⟨e.2, ⟨e, he, rfl⟩, hSurpasses⟩
  sound := by
    rintro e ⟨c, hc, rfl⟩
    exact hOngoing.sound c hc
  closed := by
    rintro e ⟨c, hc, rfl⟩ d hd
    obtain ⟨e, he, hSurpasses⟩ := hOngoing.exists_expanded_of_considered
      (hOngoing.books.considered_of_expanded hEmpty hc hd)
    exact ⟨e.2, ⟨e, he, rfl⟩, hSurpasses⟩

variable (hCumulative : Cumulative source w (found source w asks))

include hCumulative

theorem exists_expanded {v : Specifier} (hReached : Reached source w (found source w asks) v) :
    ∃ c ∈ expansions source h, Surpasses c.2.specifier v := by
  obtain ⟨e, ⟨c, hc, rfl⟩, hSurpasses⟩ := (hOngoing.exhausts hEmpty).exists_surpassing
    (hOngoing.unique_of_empty hEmpty) hCumulative hReached
  exact ⟨c, hc, hSurpasses⟩

/-- There are only so many versions that can become a pin. -/
theorem finite_reached : {v | Reached source w (found source w asks) v}.Finite := by
  apply (finite_surpassed ((expansions source h).map (·.2.specifier))).subset
  intro v hReached
  obtain ⟨c, hc, hSurpasses⟩ := hOngoing.exists_expanded hEmpty hCumulative hReached
  exact ⟨c.2.specifier, List.mem_map_of_mem hc, hSurpasses⟩

/-- So all that can be asked for can be worked off. -/
theorem solvable_of_empty : Solvable source w asks :=
  hOngoing.solvable (hOngoing.answered_eq_of_empty hEmpty) (hOngoing.exhausts hEmpty) hCumulative

/-- The declarations are the dependencies between all versions that can be reached, whether they
have been expanded or not. -/
theorem declares_iff : ∃ ds, Represents none s.dependencies ds ∧
    ∀ x id, Declares ds x id ↔ Leads source w (found source w asks) x id := by
  obtain ⟨ds, hRepresents, hLinks⟩ := hOngoing.linked
  refine ⟨ds, hRepresents, ?_⟩
  intro x id
  have hDependency : (∃ e ∈ considered h, x = some e.1.id ∧ e.2.id = id) ↔
      ∃ c, Reached source w (found source w asks) c.specifier ∧
        Offered source w (found source w asks) c ∧ x = some c.specifier.id ∧
        ∃ d ∈ c.dependencies, d.id = id := by
    constructor
    · rintro ⟨e, he, rfl, rfl⟩
      obtain ⟨c, hc, hParent, hd⟩ := hOngoing.books.expanded_of_considered he
      obtain ⟨hReached, hOffered⟩ := hOngoing.sound c hc
      exact ⟨c.2, hReached, hOffered, by rw [hParent], e.2, hd, rfl⟩
    · rintro ⟨c, hReached, hOffered, rfl, d, hd, rfl⟩
      obtain ⟨e, he, hSurpasses⟩ := hOngoing.exists_expanded hEmpty hCumulative hReached
      have hSubsumes := (hOngoing.exhausts hEmpty).subsumes (hOngoing.unique_of_empty hEmpty)
        hCumulative ⟨e, he, rfl⟩ hReached hOffered hSurpasses
      obtain ⟨d', hd', hId, -⟩ := hSubsumes d hd
      have hConsidered := hOngoing.books.considered_of_expanded hEmpty he hd'
      exact ⟨_, hConsidered, by rw [hSurpasses.1], hId⟩
  rw [hLinks, hOngoing.answered_eq_of_empty hEmpty, mem_foundIds_iff, hDependency]
  rfl

/-- The packages can be listed unless some of them depend on each other in a circle. -/
theorem exists_selections_iff : (∃ l, s.selections = .ok l) ↔ Resolvable source w asks := by
  obtain ⟨ds, hRepresents, hDeclares⟩ := hOngoing.declares_iff hEmpty hCumulative
  have hDepends : Depends ds =
      fun x y => ∃ id, y = some id ∧ Leads source w (found source w asks) x id := by
    funext x y
    exact propext (exists_congr fun id => and_congr_right fun _ => hDeclares x id)
  constructor
  · rintro ⟨l, hSelections⟩
    obtain ⟨packages, hOrder, -⟩ := selections_eq_ok hSelections
    have hAcyclic : ∀ x, ¬Relation.TransGen (Depends ds) x x := hRepresents.not_onCycle_of_ok hOrder
    rw [hDepends] at hAcyclic
    exact ⟨hOngoing.solvable_of_empty hEmpty hCumulative, hAcyclic⟩
  · rintro ⟨-, hAcyclic⟩
    rw [← hDepends] at hAcyclic
    rcases hOrder : s.dependencies.resolutionOrder with f | packages
    · obtain ⟨id, -, hCycle⟩ := hRepresents.onCycle_of_error hOrder
      exact absurd hCycle (hAcyclic (some id))
    · have hAll : ∀ p ∈ packages, ∃ y, s.selectionOf p.id = .ok y := by
        intro p hp
        obtain ⟨ds', hBooked⟩ := hOngoing.books.declared
        have hListed := (hBooked.represents.mem_ids_iff hOrder).1 (List.mem_map_of_mem hp)
        obtain ⟨v, hv, hId⟩ := (hBooked.about_iff p.id).1 hListed.1
        exact hId ▸ hOngoing.exists_selectionOf hv
      obtain ⟨l, hList⟩ := exists_mapM hAll
      refine ⟨l, ?_⟩
      unfold selections
      rw [hOrder]
      exact hList

/-- A listed version is the one that is chosen of its package. -/
theorem chosen_of_mem {l : List Selection} (hSelections : s.selections = .ok l) {y : Selection}
    (hy : y ∈ l) : Chosen source w asks y.choice := by
  obtain ⟨packages, -, hMap⟩ := selections_eq_ok hSelections
  have hSelection := (mapM_selectionOf_eq_ok hMap).2 y hy
  obtain ⟨-, -, e, hNoted, hUrl⟩ := selectionOf_eq_ok hSelection
  obtain ⟨c, hc, hSpecifier, rfl⟩ := (hOngoing.books.booked.recorded _ _).1 hNoted
  obtain ⟨hReached, hOffered⟩ := hOngoing.sound c hc
  rw [hSpecifier] at hReached
  refine ⟨hReached, ?_, ⟨c.2, hOffered, hSpecifier, hUrl.symm⟩, ?_⟩
  · intro u hu hId
    obtain ⟨e, he, hSame, hLe⟩ := hOngoing.exists_expanded hEmpty hCumulative hu
    have hRequested := hOngoing.books.expanded_requested e he
    have hBelow := hOngoing.books.le_of_requested hSelection hRequested (hSame.trans hId).symm
    exact Std.le_trans hLe hBelow
  · intro name
    have hName : y.shortcut = s.shortcuts.get? y.specifier.id :=
      (labels_of_selectionOf hSelection).1
    rw [← hOngoing.answered_eq_of_empty hEmpty, ← hOngoing.named]
    exact iff_of_eq (congrArg (· = some name) hName)

/-- What is chosen is listed, and nothing else. -/
theorem mem_choices_iff {l : List Selection} (hSelections : s.selections = .ok l)
    (t : Specifier × Url × Option String) :
    t ∈ l.map Selection.choice ↔ Chosen source w asks t := by
  rw [List.mem_map]
  constructor
  · rintro ⟨y, hy, rfl⟩
    exact hOngoing.chosen_of_mem hEmpty hCumulative hSelections hy
  · intro ht
    obtain ⟨c, hc, hId, -⟩ := hOngoing.exists_expanded hEmpty hCumulative ht.reached
    have hRequested := hOngoing.books.expanded_requested c hc
    obtain ⟨y, hy, hSame⟩ := (hOngoing.books.listed_iff hSelections).2 ⟨_, hRequested, hId⟩
    have hChosen := hOngoing.chosen_of_mem hEmpty hCumulative hSelections hy
    exact ⟨y, hy, hChosen.unique (hOngoing.unique_of_empty hEmpty) ht hSame⟩

end Ongoing

end Finished

/-! ## Two orders of the requests -/

/-- How the first order of a selector comes out, in words that do not speak of the order in which
the requests were made. -/
theorem order_asking (hSource : source.Deterministic) {w v v' : σ} {asks : List Ask}
    (hCumulative : Cumulative source w (found source w asks)) {fuel : Nat}
    {answer : Except Fault (List Selection)} {s : Selector}
    (hOrder : order source fuel (asking asks) v = some (answer, s, v')) :
    (Resolvable source w asks ∧
      ∃ l, answer = .ok l ∧ ∀ t, t ∈ l.map Selection.choice ↔ Chosen source w asks t) ∨
    ¬Resolvable source w asks ∧ ∃ f, answer = .error f := by
  have hStart := ongoing_start source w asks
  rcases order_eq_some hOrder with ⟨hDrain, rfl⟩ | ⟨f, hDrain, rfl⟩
  · rcases hStart.drain_cases hSource hDrain with
      ⟨s', h, v'', hResult, hOngoing, hEmpty⟩ | ⟨s', h, v'', x, f, -, -, -, hResult⟩
    · cases hResult
      have hListed := hOngoing.exists_selections_iff hEmpty hCumulative
      rcases hSelections : s.selections with f | l
      · right
        refine ⟨?_, f, rfl⟩
        rw [← hListed, hSelections]
        rintro ⟨l, hList⟩
        cases hList
      · left
        refine ⟨hListed.1 ⟨l, hSelections⟩, l, rfl, ?_⟩
        exact hOngoing.mem_choices_iff hEmpty hCumulative hSelections
    · cases hResult
  · right
    refine ⟨?_, f, rfl⟩
    intro hResolvable
    rcases hStart.drain_cases hSource hDrain with
      ⟨s', h, v'', hResult, -, -⟩ | ⟨s', h, v'', x, f', hOngoing, hFirst, hFailed, -⟩
    · cases hResult
    · rw [hOngoing.failure_eq_none hFirst hSource hResolvable.solvable] at hFailed
      cases hFailed

theorem order_of_le {fuel k : Nat} {s s' : Selector} {v v' : σ}
    {answer : Except Fault (List Selection)}
    (hOrder : order source fuel s v = some (answer, s', v')) (hLe : fuel ≤ k) :
    order source k s v = some (answer, s', v') := by
  unfold order at hOrder ⊢
  obtain ⟨r, hDrain, hAnswer⟩ := Option.map_eq_some_iff.1 hOrder
  rw [drain_of_le hDrain hLe]
  exact congrArg some hAnswer

/-- If there is an answer for one order of the requests, then there is one for each. -/
theorem exists_order_perm (hSource : source.Deterministic) {asks asks' : List Ask}
    (hPerm : asks.Perm asks') {w v : σ} (hCumulative : Cumulative source w (found source w asks))
    {fuel : Nat} {answer : Except Fault (List Selection)} {s : Selector}
    (hOrder : order source fuel (asking asks) w = some (answer, s, v)) (w' : σ) :
    ∃ fuel' answer' s' v', order source fuel' (asking asks') w' = some (answer', s', v') := by
  have hCumulative' : Cumulative source w (found source w asks') := found_perm hPerm ▸ hCumulative
  by_cases hEndless : ∀ n, drain source n (asking asks') w' = none
  · -- then no request fails in the first order, so only so many versions can become a pin
    have hSolvable' : Solvable source w asks' := solvable_of_endless hSource hEndless hCumulative'
    have hSolvable : Solvable source w asks := hSolvable'.perm hPerm.symm
    have hStart := ongoing_start source w asks
    obtain ⟨r, hDrain, -⟩ := Option.map_eq_some_iff.1 hOrder
    rcases hStart.drain_cases hSource hDrain with
      ⟨s', h, v', -, hOngoing, hEmpty⟩ | ⟨s', h, v', x, f, hOngoing, hFirst, hFailed, -⟩
    · have hFinite := hOngoing.finite_reached hEmpty hCumulative
      rw [found_perm hPerm] at hFinite
      obtain ⟨n, r', hDrain'⟩ := (ongoing_start source w asks').exists_drain hSource
        hFinite.toFinset (fun u hu => hFinite.mem_toFinset.2 hu) w'
      rw [hEndless n] at hDrain'
      cases hDrain'
    · rw [hOngoing.failure_eq_none hFirst hSource hSolvable] at hFailed
      cases hFailed
  · obtain ⟨n, hSome⟩ := Classical.not_forall.1 hEndless
    obtain ⟨r, hDrain⟩ := Option.ne_none_iff_exists'.1 hSome
    refine ⟨n, ?_⟩
    unfold order
    rw [hDrain]
    exact ⟨_, _, _, rfl⟩

/-- Whatever a source knows, as long as it gives the same answers in all its states and the versions
that the requests can lead to are cumulative: if the selector that is asked for some packages in one
order gives an answer, so does the one that is asked for them in another order. Both fail, or they
select the same versions from the same places under the same names. -/
theorem order_of_requests_irrelevant (hSource : source.Deterministic) {asks asks' : List Ask}
    (hPerm : asks.Perm asks') {w v : σ} (hCumulative : Cumulative source w (found source w asks))
    {fuel : Nat} {answer : Except Fault (List Selection)} {s : Selector}
    (hOrder : order source fuel (asking asks) w = some (answer, s, v)) (w' : σ) :
    ∃ fuel' answer' s' v',
      (∀ k, fuel' ≤ k → order source k (asking asks') w' = some (answer', s', v')) ∧
      ((∃ f f', answer = .error f ∧ answer' = .error f') ∨
        ∃ l l', answer = .ok l ∧ answer' = .ok l' ∧
          ∀ t, t ∈ l.map Selection.choice ↔ t ∈ l'.map Selection.choice) := by
  obtain ⟨fuel', answer', s', v', hOrder'⟩ :=
    exists_order_perm hSource hPerm hCumulative hOrder w'
  refine ⟨fuel', answer', s', v', fun k hLe => order_of_le hOrder' hLe, ?_⟩
  have hCumulative' : Cumulative source w (found source w asks') := found_perm hPerm ▸ hCumulative
  have hFirst := order_asking hSource hCumulative hOrder
  have hSecond := order_asking hSource hCumulative' hOrder'
  rcases hFirst with ⟨hResolvable, l, rfl, hChosen⟩ | ⟨hNot, f, rfl⟩
  · rcases hSecond with ⟨-, l', rfl, hChosen'⟩ | ⟨hNot', -⟩
    · refine .inr ⟨l, l', rfl, rfl, ?_⟩
      intro t
      rw [hChosen, hChosen']
      exact ⟨Chosen.perm hPerm, Chosen.perm hPerm.symm⟩
    · exact absurd (hResolvable.perm hPerm) hNot'
  · rcases hSecond with ⟨hResolvable', -⟩ | ⟨-, f', rfl⟩
    · exact absurd (hResolvable'.perm hPerm.symm) hNot
    · exact .inl ⟨f, f', rfl, rfl⟩

/-! ## Versions that grow -/

/-- Two packages that ask for different versions of a third, of which the greater one asks for a
greater version of a fourth. -/
def growing : PackageTable :=
  .ofRecords
    [ stockRecord "a" 1 [stockSpecifier "c" 1]
    , stockRecord "b" 1 [stockSpecifier "c" 2]
    , stockRecord "c" 1 [stockSpecifier "d" 1]
    , stockRecord "c" 2 [stockSpecifier "d" 2]
    , stockRecord "d" 1 []
    , stockRecord "d" 2 [] ]

def growingSource : PackageSource Unit := growing.source fun _ => {}

/-- The first two packages are asked for directly, one of them with a short name. -/
def growingAsks : List Ask :=
  [(.exactly (stockSpecifier "a" 1), some "first"), (.exactly (stockSpecifier "b" 1), none)]

/-- What there is to be found. -/
def growingKnown : List Candidate :=
  [ ⟨stockSpecifier "a" 1, .ofFileNames ["a"], [stockSpecifier "c" 1]⟩
  , ⟨stockSpecifier "b" 1, .ofFileNames ["b"], [stockSpecifier "c" 2]⟩
  , ⟨stockSpecifier "c" 1, .ofFileNames ["c"], [stockSpecifier "d" 1]⟩
  , ⟨stockSpecifier "c" 2, .ofFileNames ["c"], [stockSpecifier "d" 2]⟩
  , ⟨stockSpecifier "d" 1, .ofFileNames ["d"], []⟩
  , ⟨stockSpecifier "d" 2, .ofFileNames ["d"], []⟩ ]

theorem cumulative_growing :
    Cumulative growingSource () (found growingSource () growingAsks) := by
  apply cumulative_of_known growingKnown
  · have hFound : ∀ a ∈ growingAsks, ∃ c ∈ growingKnown,
        (find growingSource a.1 ()).1 = .ok c := by decide +kernel
    rintro c ⟨a, ha, hFind⟩
    obtain ⟨c', hc', hFind'⟩ := hFound a ha
    rw [hFind] at hFind'
    exact Except.ok.inj hFind' ▸ hc'
  · decide +kernel
  · decide
  · decide

def growingOrder : List Selection :=
  [ ⟨6, stockSpecifier "d" 2, .ofFileNames ["d"], none⟩
  , ⟨4, stockSpecifier "c" 2, .ofFileNames ["c"], none⟩
  , ⟨1, stockSpecifier "a" 1, .ofFileNames ["a"], some "first"⟩
  , ⟨2, stockSpecifier "b" 1, .ofFileNames ["b"], none⟩ ]

/-- With the requests the other way round, the same is selected. -/
theorem order_of_requests_irrelevant_growing :
    growingSource.Deterministic ∧ growingAsks.Perm growingAsks.reverse ∧
    Cumulative growingSource () (found growingSource () growingAsks) ∧
    (order growingSource 10 (asking growingAsks) ()).map (·.1) = some (.ok growingOrder) ∧
    ∃ fuel l s, (∀ k, fuel ≤ k →
        order growingSource k (asking growingAsks.reverse) () = some (.ok l, s, ())) ∧
      ∀ t, t ∈ growingOrder.map Selection.choice ↔ t ∈ l.map Selection.choice := by
  have hSource : growingSource.Deterministic := growing.deterministic_source _
  have hPerm : growingAsks.Perm growingAsks.reverse := (List.reverse_perm _).symm
  have hAnswer : (order growingSource 10 (asking growingAsks) ()).map (·.1) =
      some (.ok growingOrder) := by decide +kernel
  obtain ⟨⟨answer, s, w⟩, hOrder, hOk⟩ := Option.map_eq_some_iff.1 hAnswer
  obtain rfl : answer = .ok growingOrder := hOk
  refine ⟨hSource, hPerm, cumulative_growing, hAnswer, ?_⟩
  obtain ⟨fuel, answer', s', v', hOrder', ⟨f, f', hFailed, -⟩ | ⟨l, l', hSame, rfl, hChoices⟩⟩ :=
    order_of_requests_irrelevant hSource hPerm cumulative_growing hOrder ()
  · cases hFailed
  · cases hSame
    exact ⟨fuel, l', s', hOrder', hChoices⟩

/-! ## Versions that do not -/

/-- The lesser version of the third package is asked for, but nowhere to be found. -/
def gapped : PackageTable :=
  .ofRecords
    [ stockRecord "a" 1 [stockSpecifier "c" 1]
    , stockRecord "b" 1 [stockSpecifier "c" 2]
    , stockRecord "c" 2 [] ]

def gappedSource : PackageSource Unit := gapped.source fun _ => {}

def plainAsks : List Ask :=
  [(.exactly (stockSpecifier "a" 1), none), (.exactly (stockSpecifier "b" 1), none)]

/-- The other way round, the lesser version is superseded before its turn. -/
def reversedOrder : List Selection :=
  [ ⟨3, stockSpecifier "c" 2, .ofFileNames ["c"], none⟩
  , ⟨1, stockSpecifier "b" 1, .ofFileNames ["b"], none⟩
  , ⟨2, stockSpecifier "a" 1, .ofFileNames ["a"], none⟩ ]

/-- The same requests can fail in one order and not in the other, or both orders select something
else: where a lesser version cannot be found, and where it asks for more than a greater one. -/
theorem order_of_requests_matters :
    gappedSource.Deterministic ∧ stockSource.Deterministic ∧ plainAsks.Perm plainAsks.reverse ∧
    (order gappedSource 10 (asking plainAsks) ()).map (·.1) =
      some (.error (.resolution (.missingPackage (stockSpecifier "c" 1)))) ∧
    (order gappedSource 10 (asking plainAsks.reverse) ()).map (·.1) = some (.ok reversedOrder) ∧
    (order stockSource 10 (asking plainAsks) ()).map (·.1) = some (.ok stockOrder) ∧
    (order stockSource 10 (asking plainAsks.reverse) ()).map (·.1) = some (.ok reversedOrder) ∧
    ∃ t ∈ stockOrder.map Selection.choice, t ∉ reversedOrder.map Selection.choice :=
  ⟨gapped.deterministic_source _, stock.deterministic_source _, (List.reverse_perm _).symm,
    by decide +kernel, by decide +kernel, by decide +kernel, by decide +kernel,
    (stockSpecifier "d" 1, .ofFileNames ["d"], none), by decide, by decide⟩

end Selector

end PackageManager
