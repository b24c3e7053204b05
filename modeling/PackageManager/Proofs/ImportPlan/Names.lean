import Mathlib.Data.List.Dedup
import PackageManager.Proofs.ImportPlan
import PackageManager.Proofs.Ordered.Size
import PackageManager.Proofs.Selector.Labels

/-!
# Imports with one name

A solver refuses a second package file under a name, but takes any number of requirements under it.
This follows a solver through any sequence of imports, with the list of those that it has accepted.
In a plan, each accepted package file has its name. The short names in the order are those of the
accepted requirements, each at its own package (`labels_perm`). The map of the short names keeps
only the last of each name (`get?_shortcuts`), so a requirement that shares its name with a later
package of the order is missing there (`shared_name_drops_import`).
-/

namespace PackageManager

/-- The short name of a selection, with the package that has it. -/
def Selection.label (y : Selection) : Option (String × PackageId) :=
  y.shortcut.map (·, y.specifier.id)

namespace ImportSolver

open Selector

/-! ## Any sequence of imports -/

/-- A solver, and the imports that it has accepted. -/
structure Progress where
  solver : ImportSolver := {}
  accepted : List (String × Import) := []

/-- Adds an import, unless it is refused. -/
def Progress.offer (p : Progress) (i : String × Import) : Progress :=
  match p.solver.add i.1 i.2 with
  | .ok s => ⟨s, p.accepted ++ [i]⟩
  | .error _ => p

/-- What becomes of a new solver to which imports are added, whether some of them are refused or
not. -/
def progress (imports : List (String × Import)) : Progress := imports.foldl .offer {}

theorem progress_concat (imports : List (String × Import)) (i : String × Import) :
    progress (imports ++ [i]) = (progress imports).offer i := by
  rw [progress, List.foldl_append]
  rfl

variable {s t u : ImportSolver} {imports : List (String × Import)} {name : String}

/-- Only an import of a package file is refused: because of where the file is, or because an import
of another file has the name. -/
theorem add_eq_error_iff {i : Import} {f : Fault} : s.add name i = .error f ↔
    ∃ url, i = .package url ∧ ((url.isOpaque ∧ f = .config (.opaqueImport name)) ∨
      ¬url.isOpaque ∧ s.packages.contains name ∧ f = .config (.takenImport name)) := by
  cases i with
  | target target => simp [add]
  | requirement v => simp [add]
  | package url =>
      unfold add
      by_cases hOpaque : url.isOpaque
      · simp [hOpaque, eq_comm (a := f)]
      · by_cases hTaken : s.packages.contains name
        · simp [hOpaque, hTaken, eq_comm (a := f)]
        · simp [hOpaque, hTaken]

theorem addAll_concat (hAll : s.addAll imports = (.ok (), t)) {i : String × Import}
    (hAdd : t.add i.1 i.2 = .ok u) : s.addAll (imports ++ [i]) = (.ok (), u) := by
  induction imports generalizing s with
  | nil =>
      cases hAll
      simp [addAll, hAdd]
  | cons j imports ih =>
      rw [List.cons_append]
      unfold addAll at hAll ⊢
      cases hFirst : s.add j.1 j.2 with
      | error f =>
          rw [hFirst] at hAll
          cases hAll
      | ok s' =>
          rw [hFirst] at hAll
          exact ih hAll

/-- The imports that are accepted could have been added without the others. -/
theorem addAll_accepted (imports : List (String × Import)) :
    ({} : ImportSolver).addAll (progress imports).accepted =
      (.ok (), (progress imports).solver) := by
  induction imports using List.reverseRecOn with
  | nil => rfl
  | append_singleton imports i ih =>
      rw [progress_concat, Progress.offer]
      split
      · next s hAdd => exact addAll_concat ih hAdd
      · exact ih

/-- What a solver has of the imports that it has accepted. -/
theorem progress_spec (imports : List (String × Import)) :
    (progress imports).solver.selector = asking (requirementAsks (progress imports).accepted) ∧
      ∀ name url, (progress imports).solver.packages.get? name = some url ↔
        (name, .package url) ∈ (progress imports).accepted := by
  have hEmpty : ({} : ImportSolver).selector = asking [] := rfl
  simpa using addAll_eq_ok (addAll_accepted imports) hEmpty

/-- The names of the package files among some imports. -/
def packageNames (imports : List (String × Import)) : List String :=
  imports.filterMap fun i =>
    match i.2 with
    | .package _ => some i.1
    | _ => none

theorem mem_packageNames_iff : name ∈ packageNames imports ↔
    ∃ url, (name, .package url) ∈ imports := by
  unfold packageNames
  rw [List.mem_filterMap]
  constructor
  · rintro ⟨⟨n, i⟩, hMem, hName⟩
    cases i with
    | package url =>
        cases hName
        exact ⟨url, hMem⟩
    | target target => cases hName
    | requirement v => cases hName
  · rintro ⟨url, hMem⟩
    exact ⟨_, hMem, rfl⟩

/-- No two imports of package files are accepted under one name. -/
theorem nodup_packageNames (imports : List (String × Import)) :
    (packageNames (progress imports).accepted).Nodup := by
  induction imports using List.reverseRecOn with
  | nil => exact List.nodup_nil
  | append_singleton imports i ih =>
      rw [progress_concat, Progress.offer]
      split
      · next s hAdd =>
          obtain ⟨name, i⟩ := i
          rw [packageNames, filterMap_concat]
          cases i with
          | target target => simpa [packageNames] using ih
          | requirement v => simpa [packageNames] using ih
          | package url =>
              obtain ⟨hFresh, -⟩ := add_package_eq_ok hAdd
              have hNew : name ∉ packageNames (progress imports).accepted := by
                rw [mem_packageNames_iff]
                rintro ⟨url', hMem⟩
                rw [((progress_spec imports).2 name url').2 hMem] at hFresh
                cases hFresh
              exact ih.append (List.nodup_singleton _) (by simpa using hNew)
      · exact ih

/-! ## Short names -/

/-- The short name that a certain version is asked for with, and its package. -/
def askLabel : Ask → Option (String × PackageId)
  | (.exactly v, some name) => some (name, v.id)
  | _ => none

/-- The names of the imports that require packages, and these packages. -/
def requirementLabels (imports : List (String × Import)) : List (String × PackageId) :=
  (requirementAsks imports).filterMap askLabel

/-- What waits on account of imports has the names of those that require packages. -/
theorem labels_addPaths {σ : Type} (source : PackageSource σ)
    (hSelector : s.selector = asking (requirementAsks imports))
    (paths : List (String × FilePath)) :
    (addPaths s.selector paths).2.pending.filterMap (fun p => p.ask.bind askLabel) =
      requirementLabels imports := by
  obtain ⟨-, files, -, -, hPending⟩ := addPaths_eq hSelector (Prod.eta _).symm
  have hFiles : (files.map fun f => PendingRequest.direct f.1 (.unpacked f.2.2) none).filterMap
      (fun p => p.ask.bind askLabel) = [] := by
    simp [List.filterMap_eq_nil_iff, PendingRequest.ask, askLabel]
  have hAsks : asksOf s.selector.pending = requirementAsks imports := by
    rw [hSelector]
    exact (asking_spec source _).2.1
  rw [hPending, List.filterMap_append, hFiles, List.append_nil, requirementLabels, ← hAsks, asksOf,
    List.filterMap_filterMap]

section Answered

variable {σ : Type} {source : PackageSource σ} {selector : Selector} {l : List Selection}
  {files : List (Nat × String × FilePath)} {h : List (Step σ)} {k : String × PackageId}
  (hQueues : Queues selector imports files)

/-- A request that has a short name has its selection. -/
theorem exists_selection_of_label
    (hEach : ∀ q ∈ selector.pending, ∃ x ∈ h, x.request = q ∧ ∃ y ∈ l, Answers source y x)
    {q : PendingRequest} (hq : q ∈ selector.pending) (hLabel : q.ask.bind askLabel = some k) :
    ∃ y ∈ l, y.label = some k ∧ y.token = q.token := by
  obtain ⟨x, -, rfl, y, hy, request, c, w', hRequest, hFind, hId, -⟩ := hEach q hq
  rw [hRequest] at hLabel ⊢
  refine ⟨y, hy, ?_, rfl⟩
  cases request with
  | latest id => cases hLabel
  | unpacked path => cases hLabel
  | exactly v =>
      cases hShortcut : y.shortcut with
      | none =>
          rw [hShortcut] at hLabel
          cases hLabel
      | some name =>
          rw [hShortcut] at hLabel
          cases hLabel
          rw [Selection.label, hShortcut, hId, specifier_of_findExactly (congrArg Prod.fst hFind)]
          rfl

include hQueues in
/-- A selection that has a short name has its request. -/
theorem exists_request_of_label
    (hAll : ∀ y ∈ l, (∃ x ∈ h, x.request ∈ selector.pending ∧ Answers source y x) ∨
      y.shortcut = none ∧ ∀ q ∈ selector.pending, q.token ≠ y.token)
    {y : Selection} (hy : y ∈ l) (hLabel : y.label = some k) :
    ∃ q ∈ selector.pending, q.ask.bind askLabel = some k ∧ q.token = y.token := by
  obtain ⟨name, hName, rfl⟩ := Option.map_eq_some_iff.1 hLabel
  rcases hAll y hy with ⟨x, -, hWaits, request, c, w', hRequest, hFind, hId, -⟩ | ⟨hNone, -⟩
  · rw [hRequest, hName] at hWaits
    refine ⟨_, hWaits, ?_, rfl⟩
    rcases hQueues.cases _ hWaits with ⟨token, n, v, hSame, -⟩ | ⟨f, -, hSame⟩
    · cases hSame
      rw [hId, specifier_of_findExactly (congrArg Prod.fst hFind)]
      rfl
    · simp at hSame
  · rw [hNone] at hName
    cases hName

include hQueues in
/-- The short names in an order are those of the requests, each for its own package. -/
theorem labels_perm (hIds : (l.map (·.specifier.id)).Nodup)
    (hEach : ∀ q ∈ selector.pending, ∃ x ∈ h, x.request = q ∧ ∃ y ∈ l, Answers source y x)
    (hAll : ∀ y ∈ l, (∃ x ∈ h, x.request ∈ selector.pending ∧ Answers source y x) ∨
      y.shortcut = none ∧ ∀ q ∈ selector.pending, q.token ≠ y.token) :
    (l.filterMap Selection.label).Perm
      (selector.pending.filterMap fun q => q.ask.bind askLabel) := by
  -- a package is listed once, so no label is repeated, and two requests with one label would have
  -- one selection
  have hListed : (l.filterMap Selection.label).Nodup := by
    refine (List.pairwise_map.1 hIds).filterMap _ fun y y' hOther k hk k' hk' hSame => ?_
    obtain ⟨name, -, rfl⟩ := Option.map_eq_some_iff.1 hk
    obtain ⟨name', -, rfl⟩ := Option.map_eq_some_iff.1 hk'
    exact hOther (congrArg Prod.snd hSame)
  have hAsked : (selector.pending.filterMap fun q => q.ask.bind askLabel).Nodup := by
    rw [List.Nodup, List.pairwise_filterMap]
    refine (List.pairwise_map.1 hQueues.distinct).imp_of_mem ?_
    rintro q q' hq hq' hOther k hk k' hk' rfl
    obtain ⟨y, hy, hLabel, hToken⟩ := exists_selection_of_label hEach hq hk
    obtain ⟨y', hy', hLabel', hToken'⟩ := exists_selection_of_label hEach hq' hk'
    obtain ⟨name, -, rfl⟩ := Option.map_eq_some_iff.1 hLabel
    obtain ⟨name', -, hSame⟩ := Option.map_eq_some_iff.1 hLabel'
    obtain rfl := List.inj_on_of_nodup_map hIds hy hy' (congrArg Prod.snd hSame).symm
    exact hOther (hToken.symm.trans hToken')
  refine (List.perm_ext_iff_of_nodup hListed hAsked).2 fun k => ?_
  simp only [List.mem_filterMap]
  constructor
  · rintro ⟨y, hy, hLabel⟩
    obtain ⟨q, hq, hAsk, -⟩ := exists_request_of_label hQueues hAll hy hLabel
    exact ⟨q, hq, hAsk⟩
  · rintro ⟨q, hq, hAsk⟩
    obtain ⟨y, hy, hLabel, -⟩ := exists_selection_of_label hEach hq hAsk
    exact ⟨y, hy, hLabel⟩

end Answered

/-! ## The last selection of a name -/

section Last

variable {names : List (Nat × String)} {p p' plan : ImportPlan}

/-- A selection with a short name takes the place of those before it that have the same. -/
theorem get?_shortcuts_assign {y : Selection} (hAssign : assign names p y = .ok p')
    (name : String) : (p'.shortcuts.get? name).map .ok =
      if y.shortcut = some name then some y.specifier.toUrl
      else (p.shortcuts.get? name).map .ok := by
  unfold assign at hAssign
  dsimp only at hAssign
  cases hShortcut : y.shortcut with
  | some n =>
      rw [hShortcut] at hAssign
      obtain ⟨url, hUrl, hPlan⟩ := ok_of_bind hAssign
      cases hPlan
      rw [OrderedMap.get?_insert, ok_of_mapError hUrl]
      by_cases hSame : name = n
      · simp [hSame]
      · simp [hSame, Ne.symm hSame]
  | none =>
      rw [hShortcut] at hAssign
      rw [if_neg nofun]
      cases hName : names.lookup y.token with
      | some n =>
          rw [hName] at hAssign
          obtain ⟨url, -, hPlan⟩ := ok_of_bind hAssign
          cases hPlan
          rfl
      | none =>
          rw [hName] at hAssign
          cases hAssign
          rfl

/-- A short name leads where the last selection does that has it. -/
theorem get?_shortcuts {l : List Selection} (hPlan : l.foldlM (assign names) p = .ok plan)
    (name : String) : (plan.shortcuts.get? name).map .ok =
      ((l.reverse.find? fun y => y.shortcut = some name).map (·.specifier.toUrl)).or
        ((p.shortcuts.get? name).map .ok) := by
  induction l generalizing p with
  | nil =>
      cases hPlan
      rfl
  | cons y l ih =>
      rw [List.foldlM_cons] at hPlan
      obtain ⟨p', hAssign, hRest⟩ := ok_of_bind hPlan
      rw [ih hRest, get?_shortcuts_assign hAssign, List.reverse_cons, List.find?_append,
        Option.map_or, Option.or_assoc]
      by_cases hShortcut : y.shortcut = some name
      · simp [hShortcut]
      · simp [hShortcut]

end Last

/-! ## Plans -/

/-- What the plan of a solver is made of. -/
theorem solve_spec {σ : Type} {fetch : Url → Attempt σ FilePath} {source : PackageSource σ}
    {fuel : Nat} {w w' : σ} {plan : ImportPlan}
    (hSelector : s.selector = asking (requirementAsks imports))
    (hSolve : s.solve fetch source fuel w = some (.ok plan, w')) :
    (∀ name, plan.importBases.contains name ↔ s.packages.contains name) ∧
    (plan.order.filterMap Selection.label).Perm (requirementLabels imports) ∧
    (∀ name, plan.shortcuts.contains name ↔ ∃ y ∈ plan.order, y.shortcut = some name) ∧
    ∀ name, (plan.shortcuts.get? name).map .ok =
      (plan.order.reverse.find? fun y => y.shortcut = some name).map (·.specifier.toUrl) := by
  obtain ⟨paths, hFetched, -, order, t, hOrder, hPlan⟩ := solve_eq_ok hSolve
  obtain ⟨hRun, files, hPaths, hNames, hQueues⟩ := queues_of_addPaths source paths hSelector
  obtain ⟨hEach, hAll⟩ := order_answers_pending hRun hOrder
  obtain ⟨hAssigned, rfl⟩ := planOf_eq_ok hPlan
  refine ⟨fun name => ?_, ?_, hAssigned.shortcuts.contains_iff, fun name => ?_⟩
  · rw [hAssigned.importBases.contains_iff, hNames, exists_baseName_iff hQueues hAll hEach,
      OrderedMap.contains_iff_mem_keys]
    have hKeys : files.map (·.2.1) = s.packages.keys := by
      have hMap := congrArg (List.map (·.1)) hFetched
      rw [map_fst_fetchAll, hPaths] at hMap
      simpa [OrderedMap.keys, Function.comp_def] using hMap.symm
    rw [← hKeys, List.mem_map]
  · have hAttributed := attributed_of_run (hRun.order fuel _ hOrder)
    have hIds : (plan.order.map (·.specifier.id)).Nodup := by
      rcases order_eq_some hOrder with ⟨-, hSelections⟩ | ⟨f, -, hAnswer⟩
      · exact hAttributed.ids_nodup hSelections.symm
      · cases hAnswer
    rw [← labels_addPaths source hSelector paths]
    exact labels_perm hQueues hIds hEach hAll
  · simpa using get?_shortcuts hPlan name

/-- A plan has each of the names that some list has. -/
theorem keys_perm {m : OrderedMap String Url} {names : List String}
    (hNames : ∀ name, m.contains name ↔ name ∈ names) : m.keys.Perm names.dedup := by
  refine (List.perm_ext_iff_of_nodup m.nodup_keys names.nodup_dedup).2 fun name => ?_
  rw [← OrderedMap.contains_iff_mem_keys, hNames, List.mem_dedup]

/-- Imports are added to a solver in any order. Only an import of a package file can be refused, if
its URL is opaque or another package file has been accepted under the name, and then nothing has
changed. So no import of a package file that was accepted is missing in a plan. An import that
requires a package is always accepted. In the order of a plan each has its own selection, of the
package that it requires and with its name. But a name leads to one package only, which is the last
in the order that has it, and of the imports that share a name all others are missing. -/
theorem last_of_name_is_kept (imports : List (String × Import)) :
    (∀ name i f, (progress imports).solver.add name i = .error f ↔ ∃ url, i = .package url ∧
      ((url.isOpaque ∧ f = .config (.opaqueImport name)) ∨ ¬url.isOpaque ∧
        (∃ u, (name, .package u) ∈ (progress imports).accepted) ∧
          f = .config (.takenImport name))) ∧
    (∀ name i f, (progress imports).solver.add name i = .error f →
      progress (imports ++ [(name, i)]) = progress imports) ∧
    ∀ {σ : Type} (fetch : Url → Attempt σ FilePath) (source : PackageSource σ) fuel w plan w',
      (progress imports).solver.solve fetch source fuel w = some (.ok plan, w') →
        plan.importBases.keys.Perm (packageNames (progress imports).accepted) ∧
        (plan.order.filterMap Selection.label).Perm
          (requirementLabels (progress imports).accepted) ∧
        plan.shortcuts.keys.Perm
          ((requirementLabels (progress imports).accepted).map (·.1)).dedup ∧
        ∀ name, (plan.shortcuts.get? name).map .ok =
          (plan.order.reverse.find? fun y => y.shortcut = some name).map (·.specifier.toUrl) := by
  obtain ⟨hSelector, hPackages⟩ := progress_spec imports
  have hTaken (name : String) : (progress imports).solver.packages.contains name ↔
      ∃ u, (name, .package u) ∈ (progress imports).accepted := by
    simp only [OrderedMap.contains, Option.isSome_iff_exists, hPackages]
  refine ⟨fun name i f => ?_, fun name i f hAdd => ?_, fun fetch source fuel w plan w' hSolve => ?_⟩
  · rw [add_eq_error_iff]
    simp only [hTaken]
  · rw [progress_concat, Progress.offer, hAdd]
  · obtain ⟨hBases, hLabels, hShort, hLast⟩ := solve_spec hSelector hSolve
    have hBaseNames : plan.importBases.keys.Perm
        (packageNames (progress imports).accepted).dedup :=
      keys_perm fun name => by rw [hBases, hTaken, mem_packageNames_iff]
    rw [(nodup_packageNames imports).dedup] at hBaseNames
    refine ⟨hBaseNames, hLabels, keys_perm fun name => ?_, hLast⟩
    rw [← (hLabels.map (·.1)).mem_iff, hShort]
    simp [Selection.label]

/-- One name for a target, for two packages, one of which depends on the other, and for two package
files. -/
def sharedName : List (String × Import) :=
  [ ("lib", .target "core")
  , ("lib", .requirement (stockSpecifier "d" 1))
  , ("lib", .package (.ofFileNames ["t"]))
  , ("lib", .package (.ofFileNames ["u"]))
  , ("lib", .requirement (stockSpecifier "c" 1)) ]

theorem last_of_name_is_kept_shared : ∃ plan,
    (progress (sharedName.take 3)).solver.add "lib" (.package (.ofFileNames ["u"])) =
      .error (.config (.takenImport "lib")) ∧
    progress (sharedName.take 4) = progress (sharedName.take 3) ∧
    (progress sharedName).solver.solve toolFetch toolSource 10 () = some (.ok plan, ()) ∧
    plan.importBases.keys.Perm ["lib"] ∧ plan.shortcuts.keys.Perm ["lib"] ∧
    (plan.order.filterMap Selection.label).Perm [("lib", ⟨"d", "x"⟩), ("lib", ⟨"c", "x"⟩)] := by
  have hAnswer : ((progress sharedName).solver.solve toolFetch toolSource 10 ()).bind
      (fun r => r.1.toOption.map fun p => p.order.length) = some 3 := by
    decide +kernel
  obtain ⟨⟨answer, w⟩, hSolve, hPlan⟩ := Option.bind_eq_some_iff.1 hAnswer
  obtain ⟨plan, hSome, -⟩ := Option.map_eq_some_iff.1 hPlan
  obtain rfl : answer = .ok plan := ok_of_toOption hSome
  obtain ⟨hRefused, hUnchanged, -⟩ := last_of_name_is_kept (sharedName.take 3)
  obtain ⟨-, -, hPlans⟩ := last_of_name_is_kept sharedName
  obtain ⟨hBases, hLabels, hShortcuts, -⟩ := hPlans _ _ _ _ _ _ hSolve
  have hBefore : (progress (sharedName.take 3)).accepted = sharedName.take 3 := by decide +kernel
  have hAccepted : (progress sharedName).accepted = sharedName.eraseIdx 3 := by decide +kernel
  rw [hAccepted] at hBases hLabels hShortcuts
  have hAdd := (hRefused "lib" (.package (.ofFileNames ["u"])) (.config (.takenImport "lib"))).2
    ⟨_, rfl, .inr ⟨by decide, ⟨.ofFileNames ["t"], by rw [hBefore]; decide⟩, rfl⟩⟩
  exact ⟨plan, hAdd, hUnchanged _ _ _ hAdd, hSolve, hBases, hShortcuts, hLabels⟩

/-- Two imports that require different packages are accepted under one name. -/
def sharedRequirements : List (String × Import) :=
  [("lib", .requirement (stockSpecifier "d" 1)), ("lib", .requirement (stockSpecifier "c" 1))]

/-- Both are listed in the plan, but no name leads to the first one. -/
theorem shared_name_drops_import : ∃ plan,
    ({} : ImportSolver).addAll sharedRequirements = (.ok (), (progress sharedRequirements).solver) ∧
    (progress sharedRequirements).solver.solve toolFetch stockSource 10 () =
      some (.ok plan, ()) ∧
    (plan.order.map fun y => (y.specifier, y.shortcut)) =
      [(stockSpecifier "d" 1, some "lib"), (stockSpecifier "c" 1, some "lib")] ∧
    (∀ name url, plan.shortcuts.get? name = some url → (stockSpecifier "d" 1).toUrl ≠ .ok url) ∧
    plan.importBases = ∅ := by
  have hAnswer : ((progress sharedRequirements).solver.solve toolFetch stockSource 10 ()).bind
      (fun r => r.1.toOption.map fun p =>
        (p.order.map fun y => (y.specifier, y.shortcut), p.shortcuts, p.importBases)) =
      some ([(stockSpecifier "d" 1, some "lib"), (stockSpecifier "c" 1, some "lib")],
        .ofList ((stockSpecifier "c" 1).toUrl.toOption.toList.map ("lib", ·)), ∅) := by
    decide +kernel
  obtain ⟨⟨answer, w⟩, hSolve, hPlan⟩ := Option.bind_eq_some_iff.1 hAnswer
  obtain ⟨plan, hSome, hParts⟩ := Option.map_eq_some_iff.1 hPlan
  obtain rfl : answer = .ok plan := ok_of_toOption hSome
  simp only [Prod.mk.injEq] at hParts
  obtain ⟨hOrder, hShortcuts, hBases⟩ := hParts
  have hAll : ({} : ImportSolver).addAll sharedRequirements =
      (.ok (), (progress sharedRequirements).solver) := by
    have hAccepted : (progress sharedRequirements).accepted = sharedRequirements := by
      decide +kernel
    rw [← addAll_accepted, hAccepted]
  have hOther : ∀ e ∈ plan.shortcuts.entries, (stockSpecifier "d" 1).toUrl.toOption ≠ some e.2 := by
    rw [hShortcuts]
    decide +kernel
  refine ⟨plan, hAll, hSolve, hOrder, fun name url hGet hUrl => ?_, hBases⟩
  exact hOther _ (OrderedMap.get?_eq_some_iff.1 hGet) (by rw [hUrl]; rfl)

end ImportSolver

end PackageManager
