import PackageManager.ImportPlan.Errands
import PackageManager.Proofs.ImportPlan
import PackageManager.Proofs.Ordered.Edits
import PackageManager.Proofs.Selector.Journal

/-!
# What is downloaded for imports

The imports of a project are sorted twice. The build graph notes where package files are, and the
solver notes it as well, with the names of the imports. Both go through the same list, so they come
to the same files. The solver fetches them all before it looks at any answer, and only then are
catalogs asked.

A journal of errands shows in which order this is done. Writing an errand down does not change an
answer, and that a selector writes nothing but inquiries is known already, so it remains to be said
what the solver writes before it starts to select.

## Main results

* `ImportSolver.solve_journaled` — the errands of a solver.
* `ImportSolver.solve_downloads_first` — files are downloaded together, and they are those of the
  build graph.
-/

namespace PackageManager

variable {σ : Type}

/-! ## The imports of package files -/

/-- The imports of package files, with where the files are. -/
def packageImports (imports : List (String × Import)) : List (String × Url) :=
  imports.filterMap fun i =>
    match i.2 with
    | .package url => some (i.1, url)
    | _ => none

theorem mem_packageImports_iff {imports : List (String × Import)} {name : String} {url : Url} :
    (name, url) ∈ packageImports imports ↔ (name, .package url) ∈ imports := by
  unfold packageImports
  rw [List.mem_filterMap]
  constructor
  · rintro ⟨⟨n, i⟩, hMem, hSame⟩
    cases i with
    | package u =>
        cases hSame
        exact hMem
    | target t => cases hSame
    | requirement v => cases hSame
  · intro hMem
    exact ⟨_, hMem, rfl⟩

/-- They come in the order of the imports. -/
theorem ascending_packageImports {imports : List (String × Import)}
    (h : imports.Pairwise fun a b => compare a.1 b.1 = .lt) :
    (packageImports imports).Pairwise fun a b => compare a.1 b.1 = .lt := by
  refine List.Pairwise.filterMap _ (fun i i' hLess e he e' he' => ?_) h
  have hName {i : String × Import} {e : String × Url}
      (he : (match i.2 with
        | .package url => some (i.1, url)
        | _ => none) = some e) : e.1 = i.1 := by
    split at he
    · cases he
      rfl
    · cases he
  rw [hName he, hName he']
  exact hLess

/-- A build graph notes where the same files are. -/
theorem packageUrls_of_create {targets : TargetStore} {imports : ImportStore} {g : BuildGraph}
    (hCreate : BuildGraph.create targets imports = .ok g) :
    g.packageUrls = .ofList ((packageImports g.imports.entries).map (·.2)) := by
  obtain ⟨_, -, hRest⟩ := ok_of_bind hCreate
  obtain ⟨edges, -, hGraph⟩ := ok_of_bind hRest
  cases hGraph
  unfold packageImports
  rw [List.map_filterMap]
  refine congrArg OrderedSet.ofList (List.filterMap_congr fun i _ => ?_)
  obtain ⟨name, i⟩ := i
  cases i <;> rfl

namespace ImportSolver

open Selector

variable {fetch : Url → Attempt σ FilePath} {source : PackageSource σ} {s : ImportSolver}

/-- What a solver notes is where these files are. -/
theorem packages_entries {imports : ImportStore}
    (hAdd : ({} : ImportSolver).addAll imports.entries = (.ok (), s)) :
    s.packages.entries = packageImports imports.entries := by
  have hEmpty : ({} : ImportSolver).selector = asking [] := rfl
  obtain ⟨-, hPackages⟩ := addAll_eq_ok hAdd hEmpty
  have hSame : s.packages = ⟨_, ascending_packageImports imports.ascending⟩ := by
    refine OrderedMap.ext_get? fun name => Option.ext fun url => ?_
    rw [hPackages, OrderedMap.get?_empty, OrderedMap.get?_eq_some_iff, mem_packageImports_iff]
    simp
  rw [hSame]

/-! ## Downloads -/

/-- Whatever fails, each file is fetched once, and in the given order. -/
theorem fetchAll_journaled (fetch : Url → Attempt σ FilePath) (files : List (String × Url))
    (j : Journal Errand σ) :
    fetchAll (journalFetch fetch) files j = ((fetchAll fetch files j.state).1,
      j.write (fetchAll fetch files j.state).2 (files.map fun e => .download e.2)) := by
  induction files generalizing j with
  | nil => simp [fetchAll]
  | cons e files ih =>
      obtain ⟨name, url⟩ := e
      have hFirst : journalFetch fetch url j = ((fetch url j.state).1,
        j.write (fetch url j.state).2 [.download url]) := rfl
      unfold fetchAll
      rw [hFirst]
      dsimp only
      rw [ih]
      simp

theorem exists_pathsOf {answers : List (String × Except Fault FilePath)}
    (hAll : ∀ a ∈ answers, ∃ path, a.2 = .ok path) : ∃ paths, pathsOf answers = some paths := by
  unfold pathsOf
  induction answers with
  | nil => exact ⟨[], rfl⟩
  | cons a answers ih =>
      obtain ⟨hFirst, hRest⟩ := List.forall_mem_cons.1 hAll
      obtain ⟨path, hPath⟩ := hFirst
      obtain ⟨paths, hPaths⟩ := ih hRest
      refine ⟨(a.1, path) :: paths, ?_⟩
      rw [List.mapM_cons, hPath, hPaths]
      rfl

theorem pathsOf_eq_none {answers : List (String × Except Fault FilePath)}
    (hFailed : ∃ a ∈ answers, ∃ f, a.2 = .error f) : pathsOf answers = none := by
  cases hPaths : pathsOf answers with
  | none => rfl
  | some paths =>
      obtain ⟨a, hMem, f, hError⟩ := hFailed
      rw [pathsOf_eq_some hPaths, List.mem_map] at hMem
      obtain ⟨e, -, rfl⟩ := hMem
      cases hError

section Solve

variable {fuel : Nat} {w : σ}

theorem solve_of_failed
    (hFailed : ∃ a ∈ (fetchAll fetch s.packages.entries w).1, ∃ f, a.2 = .error f) :
    s.solve fetch source fuel w =
      some (.error (.download .incomplete), (fetchAll fetch s.packages.entries w).2) := by
  unfold solve
  simp only [pathsOf_eq_none hFailed]

/-- If no file fails, its path is asked for, behind all that has been asked for before. -/
theorem solve_of_fetched {paths : List (String × FilePath)}
    (hPaths : pathsOf (fetchAll fetch s.packages.entries w).1 = some paths) :
    s.solve fetch source fuel w = ((addPaths s.selector paths).2.order source fuel
      (fetchAll fetch s.packages.entries w).2).map fun r =>
        (r.1 >>= planOf (addPaths s.selector paths).1, r.2.2) := by
  unfold solve
  simp only [hPaths]
  congr 1
  funext ⟨answer, t, v⟩
  cases answer <;> rfl

/-- A solver fetches the files first, each of them once, and asks a catalog only if none of them has
failed. -/
theorem solve_journaled (fetch : Url → Attempt σ FilePath) (source : PackageSource σ)
    (s : ImportSolver) (fuel : Nat) (j : Journal Errand σ) : ∃ inquiries : List Inquiry,
    ((∃ a ∈ (fetchAll fetch s.packages.entries j.state).1, ∃ f, a.2 = .error f) →
      inquiries = []) ∧
    s.solve (journalFetch fetch) (source.journaledAs .inquiry) fuel j =
      (s.solve fetch source fuel j.state).map fun r =>
        (r.1, j.write r.2 (s.packages.entries.map (fun e => .download e.2) ++
          inquiries.map .inquiry)) := by
  have hFetch := fetchAll_journaled fetch s.packages.entries j
  by_cases hFailed : ∃ a ∈ (fetchAll fetch s.packages.entries j.state).1, ∃ f, a.2 = .error f
  · have hFailed' :
        ∃ a ∈ (fetchAll (journalFetch fetch) s.packages.entries j).1, ∃ f, a.2 = .error f := by
      rw [hFetch]
      exact hFailed
    refine ⟨[], fun _ => rfl, ?_⟩
    rw [solve_of_failed hFailed, solve_of_failed hFailed', hFetch]
    simp
  · have hAll : ∀ a ∈ (fetchAll fetch s.packages.entries j.state).1, ∃ path, a.2 = .ok path := by
      intro a ha
      cases hAnswer : a.2 with
      | error f => exact absurd ⟨a, ha, f, hAnswer⟩ hFailed
      | ok path => exact ⟨path, rfl⟩
    obtain ⟨paths, hPaths⟩ := exists_pathsOf hAll
    have hPaths' : pathsOf (fetchAll (journalFetch fetch) s.packages.entries j).1 = some paths := by
      rw [hFetch]
      exact hPaths
    obtain ⟨inquiries, hOrder⟩ := order_journaled source .inquiry fuel
      (addPaths s.selector paths).2 (j.write (fetchAll fetch s.packages.entries j.state).2
        (s.packages.entries.map fun e => .download e.2))
    refine ⟨inquiries, fun h => absurd h hFailed, ?_⟩
    rw [solve_of_fetched hPaths, solve_of_fetched hPaths', hFetch, hOrder, Option.map_map,
      Option.map_map]
    simp only [Journal.write_write, Journal.state_write]
    rfl

end Solve

/-- If all imports of a project are accepted, each file that they import is fetched once, in the
order of their names, whatever fails on the way, and these are the files whose places the build
graph notes. If one of them fails, no catalog is asked, and if none does, selecting starts with a
request for each required package and then one for each file. -/
theorem solve_downloads_first {targets : TargetStore} {imports : ImportStore} {g : BuildGraph}
    (hCreate : BuildGraph.create targets imports = .ok g)
    (hAdd : ({} : ImportSolver).addBuildGraph g = (.ok (), s)) (fetch : Url → Attempt σ FilePath)
    (source : PackageSource σ) (fuel : Nat) (w : σ) :
    let files := packageImports g.imports.entries
    let answers := (fetchAll fetch files w).1
    let w' := (fetchAll fetch files w).2
    g.packageUrls = .ofList (files.map (·.2)) ∧
    fetchAll (journalFetch fetch) s.packages.entries { state := w } =
      (answers, ⟨w', files.map fun e => .download e.2⟩) ∧
    ∃ inquiries : List Inquiry,
      s.solve (journalFetch fetch) (source.journaledAs .inquiry) fuel { state := w } =
        (s.solve fetch source fuel w).map (fun r =>
          (r.1, ⟨r.2, files.map (fun e => .download e.2) ++ inquiries.map .inquiry⟩)) ∧
      ((∃ a ∈ answers, ∃ f, a.2 = .error f) → inquiries = [] ∧
        s.solve fetch source fuel w = some (.error (.download .incomplete), w') ∧
        (Fault.download .incomplete).detail = "not all requested packages could be downloaded") ∧
      ((∀ a ∈ answers, ∃ path, a.2 = .ok path) →
        ∃ paths : List (String × FilePath), answers = paths.map (fun e => (e.1, .ok e.2)) ∧
          paths.map (·.1) = files.map (·.1) ∧
          let asks := requirementAsks g.imports.entries ++ paths.map fun e => (.unpacked e.2, none)
          (asking asks).pending = asks.mapIdx (fun i a => .direct (i + 1) a.1 a.2) ∧
          s.solve fetch source fuel w = ((asking asks).order source fuel w').map fun r =>
            (r.1 >>= planOf (addPaths s.selector paths).1, r.2.2)) := by
  have hFiles := packages_entries hAdd
  have hEmpty : ({} : ImportSolver).selector = asking [] := rfl
  obtain ⟨hSelector, -⟩ := addAll_eq_ok hAdd hEmpty
  obtain ⟨inquiries, hNone, hWritten⟩ := solve_journaled fetch source s fuel { state := w }
  rw [hFiles] at hNone hWritten
  have hFetch := fetchAll_journaled fetch s.packages.entries { state := w }
  rw [hFiles] at hFetch
  refine ⟨packageUrls_of_create hCreate, ?_, inquiries, hWritten, fun hFailed => ?_, fun hAll => ?_⟩
  · rw [hFiles]
    exact hFetch
  · refine ⟨hNone hFailed, ?_, rfl⟩
    rw [← hFiles] at hFailed ⊢
    exact solve_of_failed hFailed
  · obtain ⟨paths, hPaths⟩ := exists_pathsOf hAll
    have hAnswers := pathsOf_eq_some hPaths
    refine ⟨paths, hAnswers, ?_, (pending_asking _).1, ?_⟩
    · have hNames : (fetchAll fetch (packageImports g.imports.entries) w).1.map (·.1) =
          (packageImports g.imports.entries).map (·.1) := map_fst_fetchAll _ w
      rw [hAnswers] at hNames
      simpa [Function.comp_def] using hNames
    · rcases hAsk : addPaths s.selector paths with ⟨names, t⟩
      obtain ⟨hQueue, -⟩ := addPaths_eq hSelector hAsk
      rw [← hFiles] at hPaths ⊢
      rw [solve_of_fetched hPaths, hAsk, hQueue]
      rfl

/-! ## A download that may fail -/

/-- Two package files are imported. -/
def brokenImports : ImportStore :=
  .ofList [("a-missing", .package (.ofFileNames ["missing"])),
    ("b-local", .package (.ofFileNames ["t"])), ("lib", .requirement (stockSpecifier "c" 1))]

def brokenGraph : BuildGraph where
  targets := ∅
  imports := brokenImports
  graph := {}
  requirements := .ofList [stockSpecifier "c" 1]
  packageUrls := .ofList [.ofFileNames ["missing"], .ofFileNames ["t"]]

def brokenSolver : ImportSolver := (({} : ImportSolver).addBuildGraph brokenGraph).2

/-- Only the second one can be had. -/
def brokenFetch (url : Url) : Attempt Unit FilePath := fun w =>
  if url = .ofFileNames ["t"] then (.ok (.ofText "/t"), w)
  else (.error (.download (.unsupportedScheme url)), w)

/-- Both of them can be had. -/
def mendedFetch (url : Url) : Attempt Unit FilePath := fun w =>
  (.ok (.ofText (if url = .ofFileNames ["t"] then "/t" else "/m")), w)

/-- The first one is a package that requires nothing, and the second one requires another version of
the package that is imported. -/
def mendedSource : PackageSource Unit :=
  { stockSource with packageAt := fun p w =>
      (.ok (if p = .ofText "/t" then toolPackage else
        { manifest := { specifier := stockSpecifier "m" 1 }, url := .ofFileNames ["m"] }), w) }

/-- What is selected then. -/
def mendedOrder : List Selection :=
  [ ⟨4, stockSpecifier "d" 1, .ofFileNames ["d"], none⟩
  , ⟨1, stockSpecifier "c" 2, .ofFileNames ["c"], some "lib"⟩
  , ⟨2, stockSpecifier "m" 1, .ofFileNames ["m"], none⟩
  , ⟨3, stockSpecifier "tool" 1, .ofFileNames ["tool"], none⟩ ]

/-- If the first one fails, the second one is fetched as well, and that is all. If none fails, both
are fetched before the catalog is asked, and their packages are asked for behind the other one. -/
theorem solve_downloads_first_broken : ∃ v asks names,
    BuildGraph.create ∅ brokenImports = .ok brokenGraph ∧
    ({} : ImportSolver).addBuildGraph brokenGraph = (.ok (), brokenSolver) ∧
    brokenSolver.solve (journalFetch brokenFetch) (toolSource.journaledAs .inquiry) 10
      { state := () } = some (.error (.download .incomplete), v) ∧
    v.entries = [.download (.ofFileNames ["missing"]), .download (.ofFileNames ["t"])] ∧
    (brokenSolver.solve (journalFetch mendedFetch) (mendedSource.journaledAs .inquiry) 10
      { state := () }).map (fun r => (r.1.toOption.map (·.order), r.2.entries)) =
        some (some mendedOrder,
          [ .download (.ofFileNames ["missing"]), .download (.ofFileNames ["t"])
          , .inquiry (.package (stockSpecifier "c" 1)), .inquiry (.package (stockSpecifier "d" 1))
          , .inquiry (.package (stockSpecifier "c" 2)) ]) ∧
    (asking asks).pending =
      [ .direct 1 (.exactly (stockSpecifier "c" 1)) (some "lib")
      , .direct 2 (.unpacked (.ofText "/m")) none, .direct 3 (.unpacked (.ofText "/t")) none ] ∧
    brokenSolver.solve mendedFetch mendedSource 10 () =
      ((asking asks).order mendedSource 10 ()).map fun r => (r.1 >>= planOf names, r.2.2) := by
  have hCreate : BuildGraph.create ∅ brokenImports = .ok brokenGraph := rfl
  have hAdd : ({} : ImportSolver).addBuildGraph brokenGraph = (.ok (), brokenSolver) :=
    Prod.ext (ok_of_toOption (by decide +kernel)) rfl
  have hFiles : packageImports brokenGraph.imports.entries =
      [("a-missing", .ofFileNames ["missing"]), ("b-local", .ofFileNames ["t"])] := by
    decide +kernel
  have hAsks : requirementAsks brokenGraph.imports.entries =
      [(.exactly (stockSpecifier "c" 1), some "lib")] := by decide +kernel
  have hMissing : Url.ofFileNames ["missing"] ≠ .ofFileNames ["t"] := by decide +kernel
  obtain ⟨-, -, inquiries, hWritten, hFailed, -⟩ :=
    solve_downloads_first hCreate hAdd brokenFetch toolSource 10 ()
  obtain ⟨-, -, -, -, -, hFetched⟩ :=
    solve_downloads_first hCreate hAdd mendedFetch mendedSource 10 ()
  rw [hFiles] at hWritten hFailed hFetched
  have hRefused : (brokenFetch (.ofFileNames ["missing"]) ()).1 =
      .error (.download (.unsupportedScheme (.ofFileNames ["missing"]))) := by
    simp [brokenFetch, hMissing]
  obtain ⟨rfl, hBroken, -⟩ := hFailed ⟨_, List.mem_cons_self, _, hRefused⟩
  rw [hBroken] at hWritten
  have hAnswers : (fetchAll mendedFetch
      [("a-missing", .ofFileNames ["missing"]), ("b-local", .ofFileNames ["t"])] ()).1 =
      [("a-missing", .ok (.ofText "/m")), ("b-local", .ok (.ofText "/t"))] := by
    simp [fetchAll, mendedFetch, hMissing]
  rw [hAnswers] at hFetched
  obtain ⟨paths, hPaths, -, hPending, hMended⟩ := hFetched (by simp)
  obtain rfl : paths = [("a-missing", .ofText "/m"), ("b-local", .ofText "/t")] := by
    have hInjective : Function.Injective fun e : String × FilePath =>
        (e.1, (Except.ok e.2 : Except Fault FilePath)) := by
      intro e e' hSame
      obtain ⟨hName, hPath⟩ := Prod.mk.inj hSame
      exact Prod.ext hName (Except.ok.inj hPath)
    exact List.map_injective_iff.2 hInjective hPaths.symm
  rw [hAsks] at hPending hMended
  exact ⟨_, _, _, hCreate, hAdd, hWritten, rfl, by decide +kernel, hPending, hMended⟩

end ImportSolver

end PackageManager
