import PackageManager.ImportPlan
import PackageManager.Proofs.Selector.Attribution

/-!
# Where imports lead

The plan of a project says of each import which package it leads to. It is read off the labels of
the selections: an import that requires a package is recognized by its name, which its request had
as a short name, and an import of a package file by the token of its request. So the plan is right
because the labels are, and it is complete because every request has its selection.

## Main results

* `solve_attributes_imports` — the plan has exactly the imports that require packages and those of
  package files, and each leads to the package that was asked for.
-/

namespace PackageManager

/-- What package files said when steps read them, with the tokens of the requests. -/
def Selector.readings {σ : Type} (source : PackageSource σ) (h : List (Selector.Step σ)) :
    List (Nat × FilePath × LocalPackage) :=
  h.filterMap fun x =>
    match x.request with
    | .direct token (.unpacked path) _ =>
      (source.packageAt path x.world).1.toOption.map (token, path, ·)
    | _ => none

namespace ImportSolver

open Selector

/-- The steps in which the requests on account of imports are worked off. -/
def solveSteps {σ : Type} (fetch : Url → Attempt σ FilePath) (source : PackageSource σ)
    (fuel : Nat) (s : ImportSolver) (w : σ) : List (Step σ) :=
  let (answers, w) := fetchAll fetch s.packages.entries w
  match pathsOf answers with
  | none => []
  | some paths => steps source fuel (addPaths s.selector paths).2 w

/-! ## The parts of a plan -/

/-- A part of a plan has the names that some selections are recognized by, and each name leads to
such a selection. -/
structure Leads (m : OrderedMap String Url) (name? : Selection → Option String)
    (l : List Selection) : Prop where
  contains_iff : ∀ name, m.contains name ↔ ∃ y ∈ l, name? y = some name
  toUrl : ∀ name url, m.get? name = some url →
    ∃ y ∈ l, name? y = some name ∧ y.specifier.toUrl = .ok url

variable {m : OrderedMap String Url} {name? : Selection → Option String} {l : List Selection}

theorem leads_empty (name? : Selection → Option String) : Leads ∅ name? [] where
  contains_iff := by simp [OrderedMap.contains]
  toUrl := by simp

theorem Leads.insert (h : Leads m name? l) {y : Selection} {name : String} {url : Url}
    (hName : name? y = some name) (hUrl : y.specifier.toUrl = .ok url) :
    Leads (m.insert name url) name? (l ++ [y]) where
  contains_iff := by
    intro n
    have hOld := h.contains_iff n
    unfold OrderedMap.contains at hOld ⊢
    rw [OrderedMap.get?_insert]
    simp only [List.mem_append, List.mem_singleton, or_and_right, exists_or, exists_eq_left, ← hOld,
      hName, Option.some.injEq]
    split
    · next hSame => simp [hSame]
    · next hOther => simp [Ne.symm hOther]
  toUrl := by
    intro n u hGet
    rw [OrderedMap.get?_insert] at hGet
    split at hGet
    · next hSame =>
        cases hGet
        exact ⟨y, List.mem_append_right _ (List.mem_singleton.2 rfl), hSame ▸ hName, hUrl⟩
    · obtain ⟨z, hz, hRest⟩ := h.toUrl n u hGet
      exact ⟨z, List.mem_append_left _ hz, hRest⟩

theorem Leads.skip (h : Leads m name? l) {y : Selection} (hName : name? y = none) :
    Leads m name? (l ++ [y]) where
  contains_iff := by
    intro n
    rw [h.contains_iff]
    simp [hName, or_and_right, exists_or]
  toUrl := by
    intro n u hGet
    obtain ⟨z, hz, hRest⟩ := h.toUrl n u hGet
    exact ⟨z, List.mem_append_left _ hz, hRest⟩

/-- The name of the import of a package file that a selection answers. -/
def baseName (names : List (Nat × String)) (y : Selection) : Option String :=
  match y.shortcut with
  | some _ => none
  | none => names.lookup y.token

variable {names : List (Nat × String)} {p plan : ImportPlan}

/-- A plan is right about some selections. -/
structure Assigned (names : List (Nat × String)) (l : List Selection) (p : ImportPlan) : Prop where
  shortcuts : Leads p.shortcuts Selection.shortcut l
  importBases : Leads p.importBases (baseName names) l

theorem assigned_assign (h : Assigned names l p) {y : Selection} {p' : ImportPlan}
    (hAssign : assign names p y = .ok p') : Assigned names (l ++ [y]) p' ∧ p'.order = p.order := by
  unfold assign at hAssign
  dsimp only at hAssign
  cases hShortcut : y.shortcut with
  | some name =>
      rw [hShortcut] at hAssign
      obtain ⟨url, hUrl, hPlan⟩ := ok_of_bind hAssign
      cases hPlan
      have hNone : baseName names y = none := by simp only [baseName, hShortcut]
      exact ⟨⟨h.shortcuts.insert hShortcut (ok_of_mapError hUrl), h.importBases.skip hNone⟩, rfl⟩
  | none =>
      rw [hShortcut] at hAssign
      have hBase : baseName names y = names.lookup y.token := by simp only [baseName, hShortcut]
      cases hName : names.lookup y.token with
      | some name =>
          rw [hName] at hAssign hBase
          obtain ⟨url, hUrl, hPlan⟩ := ok_of_bind hAssign
          cases hPlan
          exact ⟨⟨h.shortcuts.skip hShortcut, h.importBases.insert hBase (ok_of_mapError hUrl)⟩,
            rfl⟩
      | none =>
          rw [hName] at hAssign hBase
          cases hAssign
          exact ⟨⟨h.shortcuts.skip hShortcut, h.importBases.skip hBase⟩, rfl⟩

theorem assigned_foldlM (h : Assigned names l p) {rest : List Selection}
    (hPlan : rest.foldlM (assign names) p = .ok plan) :
    Assigned names (l ++ rest) plan ∧ plan.order = p.order := by
  induction rest generalizing l p with
  | nil =>
      cases hPlan
      rw [List.append_nil]
      exact ⟨h, rfl⟩
  | cons y rest ih =>
      rw [List.foldlM_cons] at hPlan
      obtain ⟨p', hAssign, hRest⟩ := ok_of_bind hPlan
      obtain ⟨hNext, hOrder⟩ := assigned_assign h hAssign
      rw [List.append_cons, ← hOrder]
      exact ih hNext hRest

/-- The plan of some selections is right about all of them. -/
theorem planOf_eq_ok (hPlan : planOf names l = .ok plan) :
    Assigned names l plan ∧ plan.order = l := by
  have hStart : Assigned names [] { order := l } := ⟨leads_empty _, leads_empty _⟩
  exact assigned_foldlM hStart hPlan

/-! ## Requests -/

variable {s s' : ImportSolver}

/-- What is asked for on account of imports that require packages. -/
def requirementAsks (imports : List (String × Import)) : List Ask :=
  imports.filterMap fun i =>
    match i.2 with
    | .requirement v => some (.exactly v, some i.1)
    | _ => none

theorem mem_requirementAsks_iff {imports : List (String × Import)} {a : Ask} :
    a ∈ requirementAsks imports ↔ ∃ name v, (name, .requirement v) ∈ imports ∧
      a = (.exactly v, some name) := by
  unfold requirementAsks
  rw [List.mem_filterMap]
  constructor
  · rintro ⟨⟨name, i⟩, hMem, hAsk⟩
    cases i with
    | requirement v => exact ⟨name, v, hMem, (Option.some.inj hAsk).symm⟩
    | target t => cases hAsk
    | package url => cases hAsk
  · rintro ⟨name, v, hMem, rfl⟩
    exact ⟨_, hMem, rfl⟩

/-- The import of a package file is accepted under a name that is free, and it is noted. -/
theorem add_package_eq_ok {name : String} {url : Url} (hAdd : s.add name (.package url) = .ok s') :
    s.packages.get? name = none ∧ s' = { s with packages := s.packages.insert name url } := by
  unfold add at hAdd
  by_cases hOpaque : url.isOpaque
  · simp [hOpaque] at hAdd
  · by_cases hTaken : s.packages.contains name
    · simp [hOpaque, hTaken] at hAdd
    · simp only [hOpaque, hTaken, if_false, Bool.false_eq_true] at hAdd
      cases hAdd
      have hFresh : s.packages.get? name = none := by
        simpa [OrderedMap.contains] using hTaken
      exact ⟨hFresh, rfl⟩

/-- Imports that are added ask for the packages that they require, and the files that they import
are noted. -/
theorem addAll_eq_ok {imports : List (String × Import)}
    (hAdd : s.addAll imports = (.ok (), s')) {asks : List Ask} (hAsks : s.selector = asking asks) :
    s'.selector = asking (asks ++ requirementAsks imports) ∧
      ∀ name url, s'.packages.get? name = some url ↔
        s.packages.get? name = some url ∨ (name, .package url) ∈ imports := by
  induction imports generalizing s asks with
  | nil =>
      cases hAdd
      simp [requirementAsks, hAsks]
  | cons i imports ih =>
      obtain ⟨name, i⟩ := i
      unfold addAll at hAdd
      cases hFirst : s.add name i with
      | error f =>
          rw [hFirst] at hAdd
          cases hAdd
      | ok t =>
          rw [hFirst] at hAdd
          cases i with
          | target target =>
              cases hFirst
              simpa [requirementAsks] using ih hAdd hAsks
          | requirement v =>
              cases hFirst
              have hMore : ((s.selector.add (.exactly v) (some name)).2) =
                  asking (asks ++ [(.exactly v, some name)]) := by
                rw [asking_concat, hAsks]
              obtain ⟨hSelector, hPackages⟩ := ih hAdd hMore
              refine ⟨?_, fun n u => ?_⟩
              · rw [hSelector, List.append_assoc]
                rfl
              · simpa using hPackages n u
          | package url =>
              obtain ⟨hFresh, rfl⟩ := add_package_eq_ok hFirst
              obtain ⟨hSelector, hPackages⟩ := ih hAdd hAsks
              refine ⟨?_, fun n u => ?_⟩
              · simpa [requirementAsks] using hSelector
              · rw [hPackages, OrderedMap.get?_insert]
                by_cases hSame : n = name
                · subst hSame
                  simp [hFresh, eq_comm]
                · simp [hSame]

/-- A name that belongs to one token is found under it. -/
theorem lookup_eq_some_iff (hTokens : (names.map (·.1)).Nodup) {token : Nat} {name : String} :
    names.lookup token = some name ↔ (token, name) ∈ names := by
  induction names with
  | nil => simp
  | cons e names ih =>
      obtain ⟨first, n⟩ := e
      obtain ⟨hFirst, hRest⟩ := List.nodup_cons.1 hTokens
      rw [List.lookup_cons]
      by_cases hSame : token = first
      · subst hSame
        have hNone : (token, name) ∉ names := fun hMem => hFirst (List.mem_map.2 ⟨_, hMem, rfl⟩)
        simp [hNone, eq_comm]
      · have hOther : (token == first) = false := by simpa using hSame
        rw [hOther, ih hRest]
        simp [hSame]

/-- Asking for the packages at some paths makes a request for each, and notes its token with the
name that the path has. -/
theorem addPaths_eq {paths : List (String × FilePath)} {asks : List Ask} {t t' : Selector}
    (hAsks : t = asking asks) (hAdd : addPaths t paths = (names, t')) :
    t' = asking (asks ++ paths.map fun e => (.unpacked e.2, none)) ∧
      ∃ files : List (Nat × String × FilePath), paths = files.map (·.2) ∧
        names = files.map (fun f => (f.1, f.2.1)) ∧
        t'.pending = t.pending ++ files.map fun f => .direct f.1 (.unpacked f.2.2) none := by
  induction paths generalizing t asks names with
  | nil =>
      cases hAdd
      exact ⟨by simp [hAsks], [], rfl, rfl, by simp⟩
  | cons e paths ih =>
      obtain ⟨name, path⟩ := e
      rcases hRest : addPaths (t.add (.unpacked path)).2 paths with ⟨rest, u⟩
      have hAll : addPaths t ((name, path) :: paths) =
          (((t.add (.unpacked path)).1, name) :: rest, u) := by
        simp only [addPaths, hRest]
      rw [hAll] at hAdd
      cases hAdd
      have hMore : (t.add (.unpacked path)).2 = asking (asks ++ [(.unpacked path, none)]) := by
        rw [asking_concat, hAsks]
      obtain ⟨hSelector, files, hPaths, hNames, hPending⟩ := ih hMore hRest
      refine ⟨?_, ((t.add (.unpacked path)).1, name, path) :: files, ?_, ?_, ?_⟩
      · rw [hSelector, List.append_assoc]
        rfl
      · rw [List.map_cons, hPaths]
      · rw [List.map_cons, hNames]
      · rw [hPending, List.map_cons]
        exact List.append_assoc ..

/-- What waits in a selector on account of imports: a request for each of some required packages,
and one for each of some package files, which come with their tokens and names. -/
structure Queues (t : Selector) (imports : List (String × Import))
    (files : List (Nat × String × FilePath)) : Prop where
  distinct : (t.pending.map PendingRequest.token).Nodup
  tokens : (files.map (·.1)).Nodup
  cases : ∀ q ∈ t.pending,
    (∃ token name v, q = .direct token (.exactly v) (some name) ∧
      (name, .requirement v) ∈ imports) ∨
    ∃ f ∈ files, q = .direct f.1 (.unpacked f.2.2) none
  requirement : ∀ name v, (name, .requirement v) ∈ imports →
    ∃ token, .direct token (.exactly v) (some name) ∈ t.pending
  file : ∀ f ∈ files, .direct f.1 (.unpacked f.2.2) none ∈ t.pending

theorem queues_of_addPaths {σ : Type} (source : PackageSource σ)
    {imports : List (String × Import)} (paths : List (String × FilePath))
    (hSelector : s.selector = asking (requirementAsks imports)) :
    Run source (addPaths s.selector paths).2 [] ∧
    ∃ files : List (Nat × String × FilePath), paths = files.map (·.2) ∧
      (addPaths s.selector paths).1 = files.map (fun f => (f.1, f.2.1)) ∧
      Queues (addPaths s.selector paths).2 imports files := by
  rcases hAdd : addPaths s.selector paths with ⟨names, t⟩
  obtain ⟨rfl, files, hPaths, hNames, hPending⟩ := addPaths_eq hSelector hAdd
  obtain ⟨-, hAsks, hDirect, -, -⟩ := asking_spec source (requirementAsks imports)
  have hRun := run_asking source
    (requirementAsks imports ++ paths.map fun e => (Request.unpacked e.2, none))
  have hDistinct : ((asking (requirementAsks imports ++
      paths.map fun e => (.unpacked e.2, none))).pending.map PendingRequest.token).Nodup :=
    (attributed_of_run hRun).numbered.nodup
  refine ⟨hRun, files, hPaths, hNames, hDistinct, ?_, fun q hq => ?_, fun name v hMem => ?_,
    fun f hf => ?_⟩
  · rw [hPending, List.map_append, List.map_map] at hDistinct
    exact (List.nodup_append.1 hDistinct).2.1
  · rw [hPending, hSelector] at hq
    rcases List.mem_append.1 hq with hq | hq
    · left
      cases q with
      | transitive token parent dependency => exact absurd rfl (hDirect _ hq)
      | direct token request shortcut =>
          have hAsk : (request, shortcut) ∈ requirementAsks imports := by
            rw [← hAsks]
            exact List.mem_filterMap.2 ⟨_, hq, rfl⟩
          obtain ⟨name, v, hMem, hSame⟩ := mem_requirementAsks_iff.1 hAsk
          cases hSame
          exact ⟨token, name, v, rfl, hMem⟩
    · obtain ⟨f, hf, rfl⟩ := List.mem_map.1 hq
      exact .inr ⟨f, hf, rfl⟩
  · have hAsk := mem_requirementAsks_iff.2 ⟨name, v, hMem, rfl⟩
    rw [← hAsks] at hAsk
    obtain ⟨q, hq, hSame⟩ := List.mem_filterMap.1 hAsk
    cases q with
    | transitive token parent dependency => cases hSame
    | direct token request shortcut =>
        cases hSame
        rw [hPending, hSelector]
        exact ⟨token, List.mem_append_left _ hq⟩
  · rw [hPending]
    exact List.mem_append_right _ (List.mem_map.2 ⟨f, hf, rfl⟩)

/-- A request is found by its token. -/
theorem Queues.eq_of_token_eq {t : Selector} {imports : List (String × Import)}
    {files : List (Nat × String × FilePath)} (h : Queues t imports files) {q q' : PendingRequest}
    (hq : q ∈ t.pending) (hq' : q' ∈ t.pending) (hToken : q.token = q'.token) : q = q' :=
  List.inj_on_of_nodup_map h.distinct hq hq' hToken

/-- The name of the import of a package file is found by the token of its request. -/
theorem Queues.lookup_iff {t : Selector} {imports : List (String × Import)}
    {files : List (Nat × String × FilePath)} (h : Queues t imports files) {token : Nat}
    {name : String} : (files.map fun f => (f.1, f.2.1)).lookup token = some name ↔
      ∃ path, (token, name, path) ∈ files := by
  have hTokens : ((files.map fun f => (f.1, f.2.1)).map (·.1)).Nodup := by
    rw [List.map_map]
    exact h.tokens
  rw [lookup_eq_some_iff hTokens, List.mem_map]
  constructor
  · rintro ⟨⟨t, n, path⟩, hf, hSame⟩
    cases hSame
    exact ⟨path, hf⟩
  · rintro ⟨path, hf⟩
    exact ⟨_, hf, rfl⟩

/-! ## Fetched files -/

section Fetched

variable {σ : Type} {fetch : Url → Attempt σ FilePath}

theorem map_fst_fetchAll (files : List (String × Url)) (w : σ) :
    (fetchAll fetch files w).1.map (·.1) = files.map (·.1) := by
  induction files generalizing w with
  | nil => rfl
  | cons f files ih =>
      obtain ⟨name, url⟩ := f
      unfold fetchAll
      rcases fetch url w with ⟨answer, w'⟩
      exact congrArg (name :: ·) (ih w')

/-- The paths are those that the fetcher has answered, if it has not failed. -/
theorem pathsOf_eq_some {answers : List (String × Except Fault FilePath)}
    {paths : List (String × FilePath)} (hPaths : pathsOf answers = some paths) :
    answers = paths.map fun e => (e.1, .ok e.2) := by
  induction answers generalizing paths with
  | nil =>
      cases hPaths
      rfl
  | cons a answers ih =>
      obtain ⟨name, answer⟩ := a
      unfold pathsOf at hPaths
      rw [List.mapM_cons] at hPaths
      cases answer with
      | error f => cases hPaths
      | ok path =>
          obtain ⟨first, hFirst, hAll⟩ := Option.bind_eq_some_iff.1 hPaths
          obtain ⟨rest, hRest, hAll⟩ := Option.bind_eq_some_iff.1 hAll
          cases hFirst
          cases hAll
          rw [ih hRest]
          rfl

/-- What a plan that was made has been made of. -/
theorem solve_eq_ok {source : PackageSource σ} {fuel : Nat} {w w' : σ}
    (hSolve : s.solve fetch source fuel w = some (.ok plan, w')) :
    ∃ paths, (fetchAll fetch s.packages.entries w).1 = paths.map (fun e => (e.1, .ok e.2)) ∧
      solveSteps fetch source fuel s w = steps source fuel (addPaths s.selector paths).2
        (fetchAll fetch s.packages.entries w).2 ∧
      ∃ order t, Selector.order source fuel (addPaths s.selector paths).2
          (fetchAll fetch s.packages.entries w).2 = some (.ok order, t, w') ∧
        planOf (addPaths s.selector paths).1 order = .ok plan := by
  unfold solve at hSolve
  unfold solveSteps
  cases hPaths : pathsOf (fetchAll fetch s.packages.entries w).1 with
  | none =>
      simp only [hPaths, Option.some.injEq, Prod.mk.injEq, reduceCtorEq, false_and] at hSolve
  | some paths =>
      simp only [hPaths] at hSolve ⊢
      obtain ⟨⟨answer, t, v'⟩, hOrder, hPlan⟩ := Option.map_eq_some_iff.1 hSolve
      refine ⟨paths, pathsOf_eq_some hPaths, rfl, ?_⟩
      cases answer with
      | error f => cases hPlan
      | ok order =>
          obtain ⟨hPlanOf, rfl⟩ := Prod.mk.inj hPlan
          exact ⟨order, t, hOrder, hPlanOf⟩

end Fetched

/-! ## Selections and imports -/

section Answered

variable {σ : Type} {source : PackageSource σ} {t : Selector} {imports : List (String × Import)}
  {files : List (Nat × String × FilePath)} {h : List (Step σ)}
  (hQueues : Queues t imports files)
  (hAll : ∀ y ∈ l, (∃ x ∈ h, x.request ∈ t.pending ∧ Answers source y x) ∨
    y.shortcut = none ∧ ∀ q ∈ t.pending, q.token ≠ y.token)

include hQueues hAll

/-- A selection with a short name is of the package that the import of this name requires. -/
theorem required_of_shortcut {y : Selection} (hy : y ∈ l) {name : String}
    (hName : y.shortcut = some name) :
    ∃ v, (name, .requirement v) ∈ imports ∧ y.specifier.id = v.id ∧
      v.version ≤ y.specifier.version := by
  rcases hAll y hy with ⟨x, -, hWaits, request, c, w', hRequest, hFind, hId, hLe⟩ | ⟨hNone, -⟩
  · rw [hRequest, hName] at hWaits
    rcases hQueues.cases _ hWaits with ⟨token, n, v, hSame, hMem⟩ | ⟨f, -, hSame⟩
    · cases hSame
      have hFound : c.specifier = v := specifier_of_findExactly (congrArg Prod.fst hFind)
      rw [hFound] at hId hLe
      exact ⟨v, hMem, hId, hLe⟩
    · simp at hSame
  · rw [hNone] at hName
    cases hName

/-- A selection that is recognized as an import of a package file is of the package that the file
says it is. -/
theorem read_of_baseName {y : Selection} (hy : y ∈ l) {name : String}
    (hName : baseName (files.map fun f => (f.1, f.2.1)) y = some name) :
    ∃ path found, (y.token, name, path) ∈ files ∧ (y.token, path, found) ∈ readings source h ∧
      y.specifier.id = found.manifest.specifier.id ∧
      found.manifest.specifier.version ≤ y.specifier.version := by
  unfold baseName at hName
  split at hName
  · cases hName
  obtain ⟨path, hFile⟩ := hQueues.lookup_iff.1 hName
  rcases hAll y hy with ⟨x, hx, hWaits, request, c, w', hRequest, hFind, hId, hLe⟩ | ⟨-, hOther⟩
  · have hSame : x.request = .direct y.token (.unpacked path) none :=
      hQueues.eq_of_token_eq hWaits (hQueues.file _ hFile) (by rw [hRequest]; rfl)
    rw [hRequest] at hSame
    obtain ⟨-, rfl, hShortcut⟩ := PendingRequest.direct.inj hSame
    unfold find at hFind
    dsimp only at hFind
    rcases hRead : source.packageAt path x.world with ⟨f | found, w''⟩
    · rw [hRead] at hFind
      cases hFind
    · rw [hRead] at hFind
      cases hFind
      refine ⟨path, found, hFile, List.mem_filterMap.2 ⟨x, hx, ?_⟩, hId, hLe⟩
      simp only [hRequest, hRead, Except.toOption, Option.map_some]
  · exact absurd rfl (hOther _ (hQueues.file _ hFile))

variable (hEach : ∀ q ∈ t.pending, ∃ x ∈ h, x.request = q ∧ ∃ y ∈ l, Answers source y x)

include hEach

theorem exists_shortcut_iff {name : String} :
    (∃ y ∈ l, y.shortcut = some name) ↔ ∃ v, (name, .requirement v) ∈ imports := by
  constructor
  · rintro ⟨y, hy, hName⟩
    obtain ⟨v, hMem, -⟩ := required_of_shortcut hQueues hAll hy hName
    exact ⟨v, hMem⟩
  · rintro ⟨v, hMem⟩
    obtain ⟨token, hWaits⟩ := hQueues.requirement name v hMem
    obtain ⟨x, -, hRequest, y, hy, request, c, w', hSame, -⟩ := hEach _ hWaits
    rw [hRequest] at hSame
    exact ⟨y, hy, (PendingRequest.direct.inj hSame).2.2.symm⟩

theorem exists_baseName_iff {name : String} :
    (∃ y ∈ l, baseName (files.map fun f => (f.1, f.2.1)) y = some name) ↔
      ∃ f ∈ files, f.2.1 = name := by
  constructor
  · rintro ⟨y, hy, hName⟩
    obtain ⟨path, found, hFile, -⟩ := read_of_baseName hQueues hAll hy hName
    exact ⟨_, hFile, rfl⟩
  · rintro ⟨⟨token, n, path⟩, hFile, rfl⟩
    obtain ⟨x, -, hRequest, y, hy, request, c, w', hSame, -⟩ := hEach _ (hQueues.file _ hFile)
    rw [hRequest] at hSame
    obtain ⟨hToken, -, hShortcut⟩ := PendingRequest.direct.inj hSame
    refine ⟨y, hy, ?_⟩
    simp only [baseName, ← hShortcut, ← hToken]
    exact hQueues.lookup_iff.2 ⟨path, hFile⟩

end Answered

/-- If all imports of a project are accepted and resolving them succeeds, the shortcuts of the plan
are exactly the imports that require packages, and its import bases are exactly those of package
files. Each shortcut leads to a listed version of the required package that is at least the required
one. Each import base leads to a listed version of the package that the fetched file has declared
when it was read for this import, and that is at least the declared one. -/
theorem solve_attributes_imports {g : BuildGraph} {σ : Type} {fetch : Url → Attempt σ FilePath}
    {source : PackageSource σ} {fuel : Nat} {w w' : σ}
    (hAdd : ({} : ImportSolver).addBuildGraph g = (.ok (), s))
    (hSolve : s.solve fetch source fuel w = some (.ok plan, w')) :
    (∀ name, plan.shortcuts.contains name ↔ ∃ v, g.imports.get? name = some (.requirement v)) ∧
    (∀ name, plan.importBases.contains name ↔ ∃ url, g.imports.get? name = some (.package url)) ∧
    (∀ name v url, g.imports.get? name = some (.requirement v) →
      plan.shortcuts.get? name = some url →
        ∃ y ∈ plan.order, y.specifier.id = v.id ∧ v.version ≤ y.specifier.version ∧
          y.specifier.toUrl = .ok url) ∧
    ∀ name url, plan.importBases.get? name = some url →
      ∃ path found, (name, .ok path) ∈ (fetchAll fetch s.packages.entries w).1 ∧
        ∃ y ∈ plan.order,
          (y.token, path, found) ∈ readings source (solveSteps fetch source fuel s w) ∧
          y.specifier.id = found.manifest.specifier.id ∧
          found.manifest.specifier.version ≤ y.specifier.version ∧
          y.specifier.toUrl = .ok url := by
  have hEmpty : ({} : ImportSolver).selector = asking [] := rfl
  obtain ⟨hSelector, hPackages⟩ := addAll_eq_ok hAdd hEmpty
  obtain ⟨paths, hFetched, hSteps, order, t, hOrder, hPlan⟩ := solve_eq_ok hSolve
  obtain ⟨hRun, files, hPaths, hNames, hQueues⟩ := queues_of_addPaths source paths hSelector
  obtain ⟨hEach, hAll⟩ := order_answers_pending hRun hOrder
  obtain ⟨⟨hShortcuts, hBases⟩, hListed⟩ := planOf_eq_ok hPlan
  rw [← hSteps] at hEach hAll
  rw [hNames] at hBases
  rw [hListed]
  have hPackage (name : String) : (∃ f ∈ files, f.2.1 = name) ↔
      ∃ url, g.imports.get? name = some (.package url) := by
    have hKeys : files.map (·.2.1) = s.packages.keys := by
      have hMap := congrArg (List.map (·.1)) hFetched
      rw [map_fst_fetchAll, hPaths] at hMap
      simpa [OrderedMap.keys, Function.comp_def] using hMap.symm
    have hMem : (∃ f ∈ files, f.2.1 = name) ↔ s.packages.contains name := by
      rw [OrderedMap.contains_iff_mem_keys, ← hKeys, List.mem_map]
    rw [hMem, OrderedMap.contains, Option.isSome_iff_exists]
    simp [hPackages, OrderedMap.get?_eq_some_iff]
  refine ⟨fun name => ?_, fun name => ?_, fun name v url hImport hGet => ?_,
    fun name url hGet => ?_⟩
  · rw [hShortcuts.contains_iff, exists_shortcut_iff hQueues hAll hEach]
    simp only [OrderedMap.get?_eq_some_iff]
  · rw [hBases.contains_iff, exists_baseName_iff hQueues hAll hEach, hPackage]
  · obtain ⟨y, hy, hName, hUrl⟩ := hShortcuts.toUrl name url hGet
    obtain ⟨u, hMem, hId, hLe⟩ := required_of_shortcut hQueues hAll hy hName
    rw [OrderedMap.get?_eq_some_iff.2 hMem] at hImport
    cases hImport
    exact ⟨y, hy, hId, hLe, hUrl⟩
  · obtain ⟨y, hy, hName, hUrl⟩ := hBases.toUrl name url hGet
    obtain ⟨path, found, hFile, hRead, hId, hLe⟩ := read_of_baseName hQueues hAll hy hName
    refine ⟨path, found, ?_, y, hy, hRead, hId, hLe, hUrl⟩
    rw [hFetched, hPaths]
    exact List.mem_map.2 ⟨_, List.mem_map.2 ⟨_, hFile, rfl⟩, rfl⟩

/-! ## A required version that is superseded -/

/-- A package file with a version that depends on a greater version of a required package. -/
def toolPackage : LocalPackage where
  manifest :=
    { specifier := stockSpecifier "tool" 1, requirements := .ofList [(⟨"c", "x"⟩, ⟨2, 0, 0⟩)] }
  url := .ofFileNames ["tool"]

/-- The table as a source, where each path leads to that file. -/
def toolSource : PackageSource Unit :=
  { stockSource with packageAt := fun _ w => (.ok toolPackage, w) }

/-- The imports require the lesser version of the package, and the file. -/
def toolImports : ImportStore :=
  .ofList [("lib", .requirement (stockSpecifier "c" 1)), ("tool", .package (.ofFileNames ["t"]))]

def toolGraph : BuildGraph where
  targets := ∅
  imports := toolImports
  graph := {}
  requirements := .ofList [stockSpecifier "c" 1]
  packageUrls := .ofList [.ofFileNames ["t"]]

def toolSolver : ImportSolver := (({} : ImportSolver).addBuildGraph toolGraph).2

def toolFetch (_ : Url) : Attempt Unit FilePath := fun w => (.ok (.ofText "/t"), w)

theorem solve_attributes_imports_superseded : ∃ plan,
    BuildGraph.create ∅ toolImports = .ok toolGraph ∧
    ({} : ImportSolver).addBuildGraph toolGraph = (.ok (), toolSolver) ∧
    toolSolver.solve toolFetch toolSource 10 () = some (.ok plan, ()) ∧
    plan.order.map (·.specifier) =
      [stockSpecifier "d" 1, stockSpecifier "c" 2, stockSpecifier "tool" 1] ∧
    plan.shortcuts.contains "lib" ∧ ¬ plan.shortcuts.contains "tool" ∧
    plan.importBases.contains "tool" ∧
    (∀ url, plan.shortcuts.get? "lib" = some url →
      ∃ y ∈ plan.order, y.specifier.id = ⟨"c", "x"⟩ ∧
        (⟨1, 0, 0⟩ : Version) ≤ y.specifier.version ∧ y.specifier.toUrl = .ok url) := by
  have hAdd : ({} : ImportSolver).addBuildGraph toolGraph = (.ok (), toolSolver) :=
    Prod.ext (ok_of_toOption (by decide +kernel)) rfl
  have hAnswer : ((toolSolver.solve toolFetch toolSource 10 ()).bind fun r =>
      r.1.toOption.map fun p => p.order.map (·.specifier)) =
        some [stockSpecifier "d" 1, stockSpecifier "c" 2, stockSpecifier "tool" 1] := by
    decide +kernel
  obtain ⟨⟨answer, w⟩, hSolve, hPlan⟩ := Option.bind_eq_some_iff.1 hAnswer
  obtain ⟨plan, hSome, hOrder⟩ := Option.map_eq_some_iff.1 hPlan
  obtain rfl : answer = .ok plan := ok_of_toOption hSome
  obtain ⟨hShortcuts, hBases, hLeads, -⟩ := solve_attributes_imports hAdd hSolve
  have hLib : toolGraph.imports.get? "lib" = some (.requirement (stockSpecifier "c" 1)) := by
    decide +kernel
  have hTool : toolGraph.imports.get? "tool" = some (.package (.ofFileNames ["t"])) := by
    decide +kernel
  refine ⟨plan, rfl, hAdd, hSolve, hOrder, (hShortcuts _).2 ⟨_, hLib⟩, ?_, (hBases _).2 ⟨_, hTool⟩,
    fun url hGet => hLeads _ _ url hLib hGet⟩
  rw [hShortcuts, hTool]
  simp

end ImportSolver

end PackageManager
