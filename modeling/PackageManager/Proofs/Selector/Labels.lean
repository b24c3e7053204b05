import PackageManager.Proofs.Selector.Attribution

/-!
# The labels of selections in any order

Whoever has made requests goes through an order and looks for their tokens. This must work for each
order that a selector gives out, also after calls that have failed, after requests that were refused
and after other orders. So no two selections may have one token, and the token of a direct request
may only be found on the package that the request was worked off with.

## Where a token comes from

Each selection has the token of a step that has asked for some version of its package, be it a
direct request or a dependency (`Attributed.exists_origin`). A token belongs to one step only and a
step asks for one version, so selections of different packages have different tokens.

## Main results

* `Attributed.tokens_nodup` — no two selections have one token.
* `order_labels_requests` — what the selection of a package is labelled with, depending on whether a
  direct request for the package was worked off.
-/

namespace PackageManager.Selector

variable {σ : Type} {source : PackageSource σ} {s s' : Selector} {h : List (Step σ)}
  {made : List PendingRequest} {faults : List Fault} {x z : Step σ} {id : PackageId}

/-- A step works off a direct request, and what the request finds is a version of the package. -/
def Step.Commits (source : PackageSource σ) (x : Step σ) (id : PackageId) : Prop :=
  ∃ token request shortcut c, x.request = .direct token request shortcut ∧
    (find source request x.world).1 = .ok c ∧ c.specifier.id = id ∧ x.failure source = none

/-- A step that commits a package is credited with it. -/
theorem Step.commits_iff : x.Commits source id ↔
    ∃ k, x.credit source = some k ∧ k.specifier.id = id := by
  constructor
  · rintro ⟨token, request, shortcut, c, hRequest, hFind, rfl, hFine⟩
    obtain ⟨token', request', shortcut', c', w', hRequest', hFind', hCredit⟩ :=
      Step.credit_of_direct (by rw [hRequest]; rfl) hFine
    rw [hRequest] at hRequest'
    cases hRequest'
    rw [hFind'] at hFind
    cases hFind
    exact ⟨_, hCredit, rfl⟩
  · rintro ⟨k, hCredit, rfl⟩
    unfold Step.credit at hCredit
    cases hRequest : x.request with
    | transitive token parent dependency => simp [hRequest] at hCredit
    | direct token request shortcut =>
        simp only [hRequest] at hCredit
        obtain ⟨v, hVersion, rfl⟩ := Option.map_eq_some_iff.1 hCredit
        rcases Step.direct_cases source hRequest with
          ⟨f, -, hNone, -⟩ | ⟨c, d, hFind, -, hFine, hSome, -⟩
        · rw [hNone] at hVersion
          cases hVersion
        · rw [hSome] at hVersion
          cases hVersion
          exact ⟨token, request, shortcut, c, hRequest, hFind, rfl, hFine⟩

section Listed

variable {l : List Selection} (hAttributed : Attributed source s h)
  (hSelections : s.selections = .ok l)

include hAttributed

/-- No package is committed twice. -/
theorem Attributed.commits_unique (hx : x ∈ h) (hz : z ∈ h) (hxId : x.Commits source id)
    (hzId : z.Commits source id) : z = x := by
  obtain ⟨k, hCredit, hId⟩ := Step.commits_iff.1 hxId
  obtain ⟨k', hCredit', hId'⟩ := Step.commits_iff.1 hzId
  obtain rfl : k' = k :=
    hAttributed.credited.eq_of_id_eq (List.mem_filterMap.2 ⟨z, hz, hCredit'⟩)
      (List.mem_filterMap.2 ⟨x, hx, hCredit⟩) (hId'.trans hId.symm)
  exact hAttributed.numbered.eq_of_token_eq hz hx
    ((Step.spec_of_credit hCredit').1.trans (Step.spec_of_credit hCredit).1.symm)

/-- The token of a selection is that of a step that has asked for a version of its package. -/
theorem Attributed.exists_origin {y : Selection} (hSelection : s.selectionOf id = .ok y) :
    ∃ x ∈ h, x.request.token = y.token ∧
      ∃ v, x.version source = some v ∧ v.id = y.specifier.id := by
  by_cases hCredited : ∃ k ∈ credits source h, k.specifier.id = y.specifier.id
  · obtain ⟨k, hk, hId⟩ := hCredited
    obtain ⟨x, hx, hCredit⟩ := List.mem_filterMap.1 hk
    obtain ⟨hToken, hVersion⟩ := Step.spec_of_credit hCredit
    exact ⟨x, hx, hToken.trans (hAttributed.label_of_credit hSelection hk hId).1.symm,
      k.specifier, hVersion, hId⟩
  · obtain ⟨-, x, hx, -, hToken, hVersion⟩ :=
      hAttributed.label_of_uncredited hSelection fun k hk hId => hCredited ⟨k, hk, hId⟩
    exact ⟨x, hx, hToken, y.specifier, hVersion, rfl⟩

include hSelections

theorem Attributed.ids_nodup : (l.map (·.specifier.id)).Nodup := by
  obtain ⟨packages, hOrder, hMap⟩ := selections_eq_ok hSelections
  obtain ⟨ds, hDeclared⟩ := hAttributed.books.declared
  rw [(mapM_selectionOf_eq_ok hMap).1]
  exact (hDeclared.represents.order_topological hOrder).1

/-- No two selections have one token. -/
theorem Attributed.tokens_nodup : (l.map (·.token)).Nodup := by
  have hIds := hAttributed.ids_nodup hSelections
  obtain ⟨packages, -, hMap⟩ := selections_eq_ok hSelections
  have hAll := (mapM_selectionOf_eq_ok hMap).2
  apply hIds.of_map.map_on
  intro y hy y' hy' hToken
  obtain ⟨x, hx, hSame, v, hVersion, hId⟩ := hAttributed.exists_origin (hAll y hy)
  obtain ⟨x', hx', hSame', v', hVersion', hId'⟩ := hAttributed.exists_origin (hAll y' hy')
  obtain rfl := hAttributed.numbered.eq_of_token_eq hx hx'
    (hSame.trans (hToken.trans hSame'.symm))
  rw [hVersion] at hVersion'
  obtain rfl := Option.some.inj hVersion'
  exact List.inj_on_of_nodup_map hIds hy hy' (hId.symm.trans hId')

/-- A package that was committed is listed, and labelled like the request for it. -/
theorem Attributed.answer_of_commits (hx : x ∈ h) (hCommits : x.Commits source id) :
    ∃ y ∈ l, y.specifier.id = id ∧ Answers source y x := by
  obtain ⟨token, request, shortcut, c, hRequest, hFind, rfl, hFine⟩ := hCommits
  obtain ⟨y, hy, hAnswers⟩ :=
    hAttributed.exists_answer hSelections hx (by rw [hRequest]; rfl) hFine
  refine ⟨y, hy, ?_, hAnswers⟩
  obtain ⟨request', c', w', hRequest', hFind', hId, -⟩ := hAnswers
  rw [hRequest] at hRequest'
  cases hRequest'
  rw [hFind'] at hFind
  cases hFind
  exact hId

/-- Any other package has no short name, and the token of a dependency. -/
theorem Attributed.label_of_uncommitted {y : Selection} (hy : y ∈ l)
    (hNone : ∀ x ∈ h, ¬x.Commits source y.specifier.id) :
    y.shortcut = none ∧ ∃ x ∈ h, x.request.isDirect = false ∧ x.request.token = y.token := by
  obtain ⟨packages, -, hMap⟩ := selections_eq_ok hSelections
  have hUncredited : ∀ k ∈ credits source h, k.specifier.id ≠ y.specifier.id := by
    intro k hk hId
    obtain ⟨x, hx, hCredit⟩ := List.mem_filterMap.1 hk
    exact hNone x hx (Step.commits_iff.2 ⟨k, hCredit, hId⟩)
  obtain ⟨hShortcut, x, hx, hTransitive, hToken, -⟩ :=
    hAttributed.label_of_uncredited ((mapM_selectionOf_eq_ok hMap).2 y hy) hUncredited
  exact ⟨hShortcut, x, hx, hTransitive, hToken⟩

end Listed

/-- The tokens that were given out for direct requests are all different. -/
theorem Calls.made_nodup (hSession : Session source s made h faults) :
    (made.map PendingRequest.token).Nodup := by
  have hAccounted := hSession.accounted
  unfold Accounted at hAccounted
  rw [← hAccounted]
  have hSublist : (directs (h.map (·.request)) ++ directs s.pending).Sublist
      (h.map (·.request) ++ s.pending) := List.filter_sublist.append List.filter_sublist
  exact (attributed_of_run hSession.lifetime).numbered.nodup.sublist (hSublist.map _)

/-- Whatever calls were made on a selector, the selections in an order that it gives out have
different tokens, and so have the direct requests that were made. If one of these was worked off
with a version of some package, then it is the only one, and the package is listed with its token
and its short name, in a version at least as great. Any other package that is listed has no short
name, and its token is not that of any direct request. -/
theorem order_labels_requests (hSession : Session source s made h faults) {fuel : Nat} {w w' : σ}
    {l : List Selection} (hOrder : order source fuel s w = some (.ok l, s', w')) :
    (l.map fun y => tokenText y.token).Nodup ∧ (made.map fun p => tokenText p.token).Nodup ∧
    (∀ x ∈ h ++ steps source fuel s w, ∀ id, x.Commits source id →
      x.request ∈ made ∧ (∀ z ∈ h ++ steps source fuel s w, z.Commits source id → z = x) ∧
      ∃ y ∈ l, y.specifier.id = id) ∧
    ∀ y ∈ l,
      (∀ x ∈ h ++ steps source fuel s w, x.Commits source y.specifier.id → Answers source y x) ∧
      ((∀ x ∈ h ++ steps source fuel s w, ¬x.Commits source y.specifier.id) →
        y.shortcut = none ∧ ∀ p ∈ made, tokenText p.token ≠ tokenText y.token) := by
  have hNext := hSession.order fuel w hOrder
  have hAttributed := attributed_of_run hNext.lifetime
  have hText {ls : List Nat} (hNodup : ls.Nodup) : (ls.map tokenText).Nodup :=
    hNodup.map fun _ _ => tokenText_injective
  rcases order_eq_some hOrder with ⟨hDrain, hSelections⟩ | ⟨f, -, hAnswer⟩
  · have hSelections := hSelections.symm
    refine ⟨?_, ?_, ?_, ?_⟩
    · have hTokens := hText (hAttributed.tokens_nodup hSelections)
      rwa [List.map_map] at hTokens
    · have hTokens := hText hSession.made_nodup
      rwa [List.map_map] at hTokens
    · intro x hx id hCommits
      obtain ⟨y, hy, hId, -⟩ := hAttributed.answer_of_commits hSelections hx hCommits
      refine ⟨?_, ?_, y, hy, hId⟩
      · obtain ⟨token, request, shortcut, c, hRequest, -⟩ := hCommits
        exact hNext.made_of_step hx (by rw [hRequest]; rfl)
      · intro z hz hzId
        exact hAttributed.commits_unique hx hz hCommits hzId
    · intro y hy
      constructor
      · intro x hx hCommits
        obtain ⟨y', hy', hId, hAnswers⟩ := hAttributed.answer_of_commits hSelections hx hCommits
        obtain rfl := List.inj_on_of_nodup_map (hAttributed.ids_nodup hSelections) hy' hy hId
        exact hAnswers
      · intro hNone
        obtain ⟨hShortcut, x, hx, hTransitive, hToken⟩ :=
          hAttributed.label_of_uncommitted hSelections hy hNone
        refine ⟨hShortcut, ?_⟩
        intro p hp hSame
        obtain ⟨z, hz, rfl, hDirect⟩ := hNext.step_of_made (pending_of_drain hDrain) hp
        obtain rfl := hAttributed.numbered.eq_of_token_eq hz hx
          ((tokenText_injective hSame).trans hToken.symm)
        rw [hTransitive] at hDirect
        cases hDirect
  · cases hAnswer

/-- A package is asked for twice under different short names, and a third package depends on a
greater version of it than the first request. -/
def namedSelector : Selector :=
  (((({} : Selector).add (.exactly (stockSpecifier "c" 1)) (some "see")).2.add
    (.exactly (stockSpecifier "b" 1))).2.add (.exactly (stockSpecifier "c" 2)) (some "sea")).2

def namedRequests : List PendingRequest :=
  [ .direct 1 (.exactly (stockSpecifier "c" 1)) (some "see")
  , .direct 2 (.exactly (stockSpecifier "b" 1)) none
  , .direct 3 (.exactly (stockSpecifier "c" 2)) (some "sea") ]

/-- The greater version is listed, with the labels of the request for the lesser one. -/
def namedOrder : List Selection :=
  [ ⟨4, stockSpecifier "d" 1, .ofFileNames ["d"], none⟩
  , ⟨1, stockSpecifier "c" 2, .ofFileNames ["c"], some "see"⟩
  , ⟨2, stockSpecifier "b" 1, .ofFileNames ["b"], none⟩ ]

/-- The order is asked for twice. The first time the second request for the package is refused. -/
theorem order_labels_requests_named : ∃ s h s' w,
    Session stockSource s namedRequests h [.graph (.alreadyDeclared ⟨"c", "x"⟩ none)] ∧
    order stockSource 10 s () = some (.ok namedOrder, s', w) ∧
    (namedOrder.map fun y => tokenText y.token).Nodup ∧
    ∃ x ∈ h, x.request = .direct 1 (.exactly (stockSpecifier "c" 1)) (some "see") ∧
      x.Commits stockSource ⟨"c", "x"⟩ ∧
      Answers stockSource ⟨1, stockSpecifier "c" 2, .ofFileNames ["c"], some "see"⟩ x := by
  have hTwice : ((order stockSource 10 namedSelector ()).bind fun r =>
      (order stockSource 10 r.2.1 ()).map fun r' => (r.1, r'.1)) =
      some (.error (.graph (.alreadyDeclared ⟨"c", "x"⟩ none)), .ok namedOrder) := by
    decide +kernel
  have hWorkedOff : ((steps stockSource 10 namedSelector ()).filter fun x =>
      x.failure stockSource = none).map (·.request) = namedRequests.take 2 := by decide +kernel
  have hFind : ∀ w, (find stockSource (.exactly (stockSpecifier "c" 1)) w).1 =
      .ok ⟨stockSpecifier "c" 1, .ofFileNames ["c"], [stockSpecifier "d" 1]⟩ := by decide +kernel
  obtain ⟨⟨first, s, w⟩, hFirst, hRest⟩ := Option.bind_eq_some_iff.1 hTwice
  obtain ⟨⟨second, s', w'⟩, hSecond, hAnswers⟩ := Option.map_eq_some_iff.1 hRest
  obtain ⟨rfl, rfl⟩ := Prod.mk.inj hAnswers
  have hSession : Session stockSource s namedRequests
      ([] ++ steps stockSource 10 namedSelector ())
      [.graph (.alreadyDeclared ⟨"c", "x"⟩ none)] :=
    .order 10 () (.add _ _ (.add _ _ (.add _ _ .new))) hFirst
  obtain ⟨hTokens, -, -, hLabels⟩ := order_labels_requests hSession hSecond
  obtain ⟨x, hx, hRequest⟩ : ∃ x ∈ (steps stockSource 10 namedSelector ()).filter fun x =>
      x.failure stockSource = none,
      x.request = .direct 1 (.exactly (stockSpecifier "c" 1)) (some "see") :=
    List.mem_map.1 (by rw [hWorkedOff]; decide)
  obtain ⟨hMem, hFine⟩ := List.mem_filter.1 hx
  have hCommits : x.Commits stockSource ⟨"c", "x"⟩ :=
    ⟨1, _, some "see", _, hRequest, hFind x.world, rfl, of_decide_eq_true hFine⟩
  obtain ⟨hAnswers, -⟩ :=
    hLabels ⟨1, stockSpecifier "c" 2, .ofFileNames ["c"], some "see"⟩ (by decide)
  exact ⟨s, _, s', w', hSession, hSecond, hTokens, x, hMem, hRequest, hCommits,
    hAnswers x (List.mem_append_left _ hMem) hCommits⟩

end PackageManager.Selector
