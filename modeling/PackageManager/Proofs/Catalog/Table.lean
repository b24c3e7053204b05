import PackageManager.Catalog.Table
import PackageManager.Proofs.Ordered.Edits
import PackageManager.Proofs.Selector.Failures

/-!
# What a table answers

A table is asked for collections and for records, and has an index for each. Whoever looks into a
collection first, and then asks for one of its versions, relies on the two indexes to agree. They
do, whatever records there are, however often one version is among them, and in whatever order the
keys of the first index were gone through to make the second one. So the greatest version of a
package can be found in every state.

## Why the order does not matter

What the collections say about a package is which versions have been put into them, and none of
these is ever taken out or marked (`Lists`). A version that is put in keeps this true, and two maps
of collections that say the same are the same.

## Main results

* `Collection.latest_eq_some_iff` — the latest version of a collection is the greatest that has not
  been withdrawn.
* `PackageTable.agrees_ofMap`, `PackageTable.ofMap_eq` — the indexes of a table agree, and do not
  depend on the order of the keys.
* `PackageTable.answers_of_records` — what a table says about the records it was made of, and what
  comes of asking a selector for the latest version of a package.
-/

namespace PackageManager

/-! ## Collections -/

/-- A version that can be used is published and has not been withdrawn. -/
def Collection.Offers (c : Collection) (v : Version) : Prop :=
  ∃ p, c.versions.get? v = some p ∧ ¬p.pruned

theorem Collection.latest_eq_none_iff {c : Collection} : c.latest = none ↔ ∀ v, ¬c.Offers v := by
  unfold latest Offers
  rw [Option.map_eq_none_iff, List.find?_eq_none]
  simp [OrderedMap.get?_eq_some_iff]

/-- The latest version is offered, and no greater one is. -/
theorem Collection.offers_latest {c : Collection} {v : Version} (hLatest : c.latest = some v) :
    c.Offers v ∧ ∀ u, c.Offers u → u ≤ v := by
  obtain ⟨⟨v', p⟩, hFind, rfl⟩ := Option.map_eq_some_iff.1 hLatest
  obtain ⟨hUsable, above, below, hSplit, hAbove⟩ := List.find?_eq_some_iff_append.1 hFind
  have hEntries : c.versions.entries = below.reverse ++ (v', p) :: above.reverse := by
    simpa using congrArg List.reverse hSplit
  have hAscending := c.versions.ascending
  rw [hEntries, List.pairwise_append] at hAscending
  refine ⟨⟨p, OrderedMap.get?_eq_some_iff.2 (by simp [hEntries]), by simpa using hUsable⟩, ?_⟩
  rintro u ⟨q, hGet, hOffered⟩
  have hMem := OrderedMap.get?_eq_some_iff.1 hGet
  rw [hEntries, List.mem_append, List.mem_cons] at hMem
  rcases hMem with hBelow | hSame | hMore
  · have hLess := hAscending.2.2 _ hBelow _ List.mem_cons_self
    exact Std.le_of_lt hLess
  · cases hSame
    exact Std.le_refl _
  · have hPruned := hAbove _ (List.mem_reverse.1 hMore)
    simp [hOffered] at hPruned

theorem Collection.latest_eq_some_iff {c : Collection} {v : Version} :
    c.latest = some v ↔ c.Offers v ∧ ∀ u, c.Offers u → u ≤ v := by
  refine ⟨offers_latest, fun ⟨hOffered, hGreatest⟩ => ?_⟩
  cases hLatest : c.latest with
  | none => exact absurd hOffered (latest_eq_none_iff.1 hLatest v)
  | some u =>
      obtain ⟨hOffered', hGreatest'⟩ := offers_latest hLatest
      rw [Std.le_antisymm (hGreatest u hOffered') (hGreatest' v hOffered)]

/-! ## Lone requests -/

namespace Selector

variable {σ : Type} {source : PackageSource σ} {request : Request} {w : σ} {c : Candidate}

/-- The only request of a new selector is not refused if it finds something, and pins that. -/
theorem pin_of_lone_request (hFind : (find source request w).1 = .ok c) (shortcut : Option String) :
    ∃ x, (({} : Selector).add request shortcut).2.firstStep w = some x ∧
      x.failure source = none ∧
      (x.outcome source).2.1.pins.get? c.specifier.id = some c.specifier.version := by
  let x : Step σ := ⟨.direct 1 request shortcut, { issued := 1 }, w⟩
  have hFirst : (({} : Selector).add request shortcut).2.firstStep w = some x := rfl
  have hRun : Run source (({} : Selector).add request shortcut).2 [] := .add request shortcut .new
  have hBooks := consistent_of_run hRun
  have hFine : x.failure source = none := by
    refine Option.eq_none_iff_forall_not_mem.2 fun f hFailure => ?_
    rcases (hBooks.direct_failure_iff hFirst rfl).1 hFailure with hError | ⟨c', -, hOld, -⟩
    · rw [hFind] at hError
      cases hError
    · cases hOld
  have hVersion : x.version source = some c.specifier := by
    obtain ⟨c', w', hFind', hVersion⟩ := Step.version_of_direct rfl hFine
    rw [hFind'] at hFind
    cases hFind
    exact hVersion
  have hRequested : requested source [x] = [c.specifier] := by simp [requested, hVersion]
  have hGreatest := (consistent_step hBooks hFirst).greatest
  rw [List.nil_append, hRequested] at hGreatest
  obtain ⟨u, hPin, -⟩ := hGreatest.pin_of_mem _ (List.mem_singleton_self _)
  have hOnly := List.mem_singleton.1 (hGreatest.mem_of_pin _ _ hPin)
  exact ⟨x, hFirst, hFine, by rw [hPin, ← hOnly]⟩

end Selector

/-! ## Two indexes -/

namespace PackageTable

open Selector (find findExactly Run steps drain stockRecord stockSpecifier)

/-- Collections list some versions, none of them as withdrawn, and nothing else. -/
structure Lists (collections : OrderedMap PackageId Collection) (versions : List Specifier) :
    Prop where
  id_eq : ∀ id c, collections.get? id = some c → c.id = id
  exists_iff : ∀ id, (∃ c, collections.get? id = some c) ↔ ∃ v ∈ versions, v.id = id
  get?_versions : ∀ id c, collections.get? id = some c → ∀ version,
    c.versions.get? version = if ⟨id, version⟩ ∈ versions then some {} else none

theorem lists_empty : Lists ∅ [] where
  id_eq := by simp
  exists_iff := by simp
  get?_versions := by simp

section Lists

variable {m m' : OrderedMap PackageId Collection} {l l' : List Specifier}

/-- What collections list does not depend on an order of the versions. -/
theorem Lists.congr (h : Lists m l) (hSame : ∀ v, v ∈ l ↔ v ∈ l') : Lists m l' where
  id_eq := h.id_eq
  exists_iff := by simpa only [← hSame] using h.exists_iff
  get?_versions := by simpa only [← hSame] using h.get?_versions

/-- And they are determined by it. -/
theorem Lists.unique (h : Lists m l) (h' : Lists m' l) : m = m' := by
  apply OrderedMap.ext_get?
  intro id
  have hBoth : (∃ c, m.get? id = some c) ↔ ∃ c, m'.get? id = some c :=
    (h.exists_iff id).trans (h'.exists_iff id).symm
  cases hGet : m.get? id with
  | none =>
      cases hGet' : m'.get? id with
      | none => rfl
      | some c' =>
          obtain ⟨c, hSome⟩ := hBoth.2 ⟨c', hGet'⟩
          rw [hGet] at hSome
          cases hSome
  | some c =>
      obtain ⟨c', hGet'⟩ := hBoth.1 ⟨c, hGet⟩
      have hId : c.id = c'.id := (h.id_eq id c hGet).trans (h'.id_eq id c' hGet').symm
      have hVersions : c.versions = c'.versions := by
        apply OrderedMap.ext_get?
        intro version
        rw [h.get?_versions id c hGet, h'.get?_versions id c' hGet']
      rw [hGet']
      cases c
      cases c'
      simp_all

/-- The collection that a version is put into, be it an old one or a new one. -/
theorem Lists.getD_spec (h : Lists m l) (id : PackageId) :
    ((m.get? id).getD { id }).id = id ∧ ∀ version,
      ((m.get? id).getD { id }).versions.get? version =
        if ⟨id, version⟩ ∈ l then some {} else none := by
  cases hGet : m.get? id with
  | some c => exact ⟨h.id_eq id c hGet, h.get?_versions id c hGet⟩
  | none =>
      refine ⟨rfl, fun version => ?_⟩
      have hNew : (⟨id, version⟩ : Specifier) ∉ l := by
        intro hMem
        obtain ⟨c, hSome⟩ := (h.exists_iff id).2 ⟨_, hMem, rfl⟩
        rw [hGet] at hSome
        cases hSome
      rw [if_neg hNew]
      rfl

/-- With one version more, the collections list that one as well. -/
theorem Lists.collect (h : Lists m l) (v : Specifier) :
    Lists (PackageTable.collect m v) (l ++ [v]) := by
  have hGet (id : PackageId) := OrderedMap.get?_insert m v.id id
    { (m.get? v.id).getD { id := v.id } with
      versions := ((m.get? v.id).getD { id := v.id }).versions.insert v.version {} }
  obtain ⟨hId, hVersions⟩ := h.getD_spec v.id
  refine ⟨fun id c hSome => ?_, fun id => ?_, fun id c hSome version => ?_⟩
  · rw [PackageTable.collect, hGet] at hSome
    split at hSome
    · next hSame =>
        cases hSome
        exact hId.trans hSame.symm
    · exact h.id_eq id c hSome
  · rw [PackageTable.collect]
    simp only [hGet, List.mem_append, List.mem_singleton, or_and_right, exists_or, exists_eq_left]
    by_cases hSame : id = v.id
    · simp [hSame]
    · simp [hSame, Ne.symm hSame, h.exists_iff]
  · rw [PackageTable.collect, hGet] at hSome
    split at hSome
    · next hSame =>
        subst hSame
        cases hSome
        rw [OrderedMap.get?_insert, hVersions]
        by_cases hVersion : version = v.version
        · simp [hVersion]
        · have hOther : (⟨v.id, version⟩ : Specifier) ≠ v := fun hEq =>
            hVersion (congrArg Specifier.version hEq)
          simp [hVersion, hOther]
    · next hOther =>
        have hNew : (⟨id, version⟩ : Specifier) ≠ v := fun hEq =>
          hOther (congrArg Specifier.id hEq)
        rw [h.get?_versions id c hSome]
        simp [hNew]

/-- When all keys have been gone through, the collections list them. -/
theorem Lists.foldl (h : Lists m l) (keys : List Specifier) :
    Lists (keys.foldl PackageTable.collect m) (l ++ keys) := by
  induction keys generalizing m l with
  | nil => simpa using h
  | cons v keys ih =>
      rw [List.foldl_cons, List.append_cons]
      exact ih (h.collect v)

end Lists

/-- The two indexes of a table agree: the collections list the versions that it has records of. -/
def Agrees (t : PackageTable) : Prop := Lists t.collections t.records.keys

variable {named : OrderedMap Specifier PackageRecord} {keys : List Specifier}

theorem agrees_ofMap (hKeys : keys.Perm named.keys) : (ofMap named keys).Agrees :=
  (lists_empty.foldl keys).congr fun _ => hKeys.mem_iff

/-- The order of the keys does not matter. -/
theorem ofMap_eq (hKeys : keys.Perm named.keys) : ofMap named keys = ofMap named named.keys := by
  have hCollections : (ofMap named keys).collections = (ofMap named named.keys).collections :=
    (agrees_ofMap hKeys).unique (agrees_ofMap (.refl _))
  exact congrArg (PackageTable.mk named) hCollections

section Agrees

variable {t : PackageTable} {v : Specifier} {id : PackageId} {version : Version} {c : Collection}

theorem collection_eq_ok : t.collection id = .ok c ↔ t.collections.get? id = some c := by
  unfold collection
  cases t.collections.get? id <;> simp

theorem package_eq_ok {r : PackageRecord} : t.package v = .ok r ↔ t.records.get? v = some r := by
  unfold package
  cases t.records.get? v <;> simp

theorem exists_package_iff : (∃ r, t.package v = .ok r) ↔ t.records.contains v := by
  simp only [package_eq_ok, OrderedMap.contains, Option.isSome_iff_exists]

variable (hAgrees : t.Agrees)

include hAgrees

/-- A package has a collection iff there is a record of it. -/
theorem Agrees.exists_collection_of_id_iff :
    (∃ c, t.collection id = .ok c) ↔ ∃ version, t.records.contains ⟨id, version⟩ := by
  simp only [collection_eq_ok, hAgrees.exists_iff, OrderedMap.contains_iff_mem_keys]
  constructor
  · rintro ⟨v, hv, rfl⟩
    exact ⟨v.version, hv⟩
  · rintro ⟨version, hMem⟩
    exact ⟨_, hMem, rfl⟩

/-- A package without records has no collection. -/
theorem Agrees.collection_eq_error_iff {f : Fault} : t.collection id = .error f ↔
    f = .resolution (.missingCollection id) ∧ ¬∃ version, t.records.contains ⟨id, version⟩ := by
  rw [← hAgrees.exists_collection_of_id_iff]
  simp only [collection_eq_ok]
  unfold collection
  cases t.collections.get? id <;> simp [eq_comm]

/-- A collection lists exactly the versions that the table has, none of them as withdrawn. -/
theorem Agrees.get?_collection (hFound : t.collection id = .ok c) (version : Version) :
    c.versions.get? version = if t.records.contains ⟨id, version⟩ then some {} else none := by
  rw [hAgrees.get?_versions id c (collection_eq_ok.1 hFound)]
  simp only [OrderedMap.contains_iff_mem_keys]

theorem Agrees.contains_collection (hFound : t.collection id = .ok c) :
    c.versions.contains version ↔ t.records.contains ⟨id, version⟩ := by
  rw [OrderedMap.contains, hAgrees.get?_collection hFound]
  simp

theorem Agrees.offers_collection (hFound : t.collection id = .ok c) :
    c.Offers version ↔ t.records.contains ⟨id, version⟩ := by
  simp [Collection.Offers, hAgrees.get?_collection hFound]

theorem Agrees.exists_collection_iff :
    (∃ c, t.collection id = .ok c ∧ c.versions.contains version) ↔
      t.records.contains ⟨id, version⟩ := by
  constructor
  · rintro ⟨c, hFound, hVersion⟩
    exact (hAgrees.contains_collection hFound).1 hVersion
  · intro hIn
    obtain ⟨c, hFound⟩ := hAgrees.exists_collection_of_id_iff.2 ⟨version, hIn⟩
    exact ⟨c, hFound, (hAgrees.contains_collection hFound).2 hIn⟩

end Agrees

/-! ## Tables of records -/

variable {records : List PackageRecord} {r : PackageRecord} {v : Specifier} {id : PackageId}

/-- A record that no later one replaces. -/
def IsLast (records : List PackageRecord) (r : PackageRecord) : Prop :=
  ∃ earlier later, records = earlier ++ r :: later ∧ ∀ r' ∈ later, r'.specifier ≠ r.specifier

theorem IsLast.mem (h : IsLast records r) : r ∈ records := by
  obtain ⟨earlier, later, rfl, -⟩ := h
  simp

/-- Of the records for a version the last one counts. -/
theorem get?_byName : (byName records).get? v = some r ↔ r.specifier = v ∧ IsLast records r := by
  unfold byName IsLast
  rw [OrderedMap.get?_ofList, ← List.map_reverse, List.find?_map, Option.map_map]
  simp only [Function.comp_def, Option.map_id', List.find?_eq_some_iff_append, decide_eq_true_eq,
    Bool.not_eq_true', decide_eq_false_iff_not]
  refine and_congr_right fun hSpecifier => ?_
  subst hSpecifier
  constructor
  · rintro ⟨later, earlier, hSplit, hLater⟩
    refine ⟨earlier.reverse, later.reverse, ?_, by simpa using hLater⟩
    simpa using congrArg List.reverse hSplit
  · rintro ⟨earlier, later, rfl, hLater⟩
    exact ⟨later.reverse, earlier.reverse, by simp, by simpa using hLater⟩

theorem contains_byName : (byName records).contains v ↔ ∃ r ∈ records, r.specifier = v := by
  unfold OrderedMap.contains byName
  rw [OrderedMap.get?_ofList]
  simp

theorem exists_contains_iff :
    (∃ version, (byName records).contains ⟨id, version⟩) ↔ ∃ r ∈ records, r.id = id := by
  simp only [contains_byName]
  constructor
  · rintro ⟨version, r, hr, hSpecifier⟩
    exact ⟨r, hr, congrArg Specifier.id hSpecifier⟩
  · rintro ⟨r, hr, rfl⟩
    exact ⟨r.version, r, hr, rfl⟩

/-! ## The latest version -/

section Latest

variable {σ : Type} (files : σ → FileStore) (hKeys : keys.Perm (byName records).keys)

include hKeys

/-- The latest version of a package is the greatest of its records, and what is found is the last
record of that version. -/
theorem find_latest (hSome : ∃ r ∈ records, r.id = id) :
    ∃ r, IsLast records r ∧ r.id = id ∧ (∀ r' ∈ records, r'.id = id → r'.version ≤ r.version) ∧
      ∀ w, find ((ofMap (byName records) keys).source files) (.latest id) w =
        (.ok ⟨r.specifier, r.url, r.dependencies.toList⟩, w) := by
  have hAgrees := agrees_ofMap hKeys
  obtain ⟨r₀, hMem, rfl⟩ := hSome
  have hIn : (byName records).contains r₀.specifier := contains_byName.2 ⟨r₀, hMem, rfl⟩
  obtain ⟨c, hFound, -⟩ := hAgrees.exists_collection_iff.2 hIn
  obtain ⟨version, hLatest⟩ : ∃ version, c.latest = some version := by
    refine Option.ne_none_iff_exists'.1 fun hNone => ?_
    exact Collection.latest_eq_none_iff.1 hNone _ ((hAgrees.offers_collection hFound).2 hIn)
  obtain ⟨hOffered, hGreatest⟩ := Collection.latest_eq_some_iff.1 hLatest
  simp only [hAgrees.offers_collection hFound] at hOffered hGreatest
  obtain ⟨r, hPackage⟩ := exists_package_iff.2 hOffered
  obtain ⟨hSpecifier, hLast⟩ := get?_byName.1 (package_eq_ok.1 hPackage)
  obtain ⟨hId, rfl⟩ := Specifier.mk.inj hSpecifier
  refine ⟨r, hLast, hId, fun r' hr' hId' => ?_, fun w => ?_⟩
  · exact hGreatest _ (contains_byName.2 ⟨r', hr', by rw [← hId']; rfl⟩)
  · simp only [find, findExactly, source, hFound, hLatest, hPackage, hSpecifier]

end Latest

/-- A table that is made of records, whose keys may come in any order, has the last of them for each
version. Its collections have exactly the versions that it has records for, and there is a
collection exactly for each package among the records. So a request for the latest version of such a
package finds the greatest version in every state of a selector: the only request of a new selector
pins it, and any other one is refused only if the project depends on the package already. -/
theorem answers_of_records {σ : Type} (files : σ → FileStore) (records : List PackageRecord)
    (keys : List Specifier) (hKeys : keys.Perm (byName records).keys) :
    let t := ofMap (byName records) keys
    t = ofRecords records ∧
    (∀ v r, t.package v = .ok r ↔ r.specifier = v ∧ IsLast records r) ∧
    (∀ v, (∃ r, t.package v = .ok r) ↔
      ∃ c, t.collection v.id = .ok c ∧ c.versions.contains v.version) ∧
    (∀ id f, t.collection id = .error f ↔
      f = .resolution (.missingCollection id) ∧ ∀ r ∈ records, r.id ≠ id) ∧
    ∀ id, (∃ r ∈ records, r.id = id) →
      ∃ r, IsLast records r ∧ r.id = id ∧ (∀ r' ∈ records, r'.id = id → r'.version ≤ r.version) ∧
        (∀ shortcut w, ∃ x, (({} : Selector).add (.latest id) shortcut).2.firstStep w = some x ∧
          x.failure (t.source files) = none ∧
          (x.outcome (t.source files)).2.1.pins.get? id = some r.version) ∧
        ∀ s h w x token shortcut, Run (t.source files) s h →
          s.firstStep w = some x → x.request = .direct token (.latest id) shortcut →
            ∀ f, x.failure (t.source files) = some f ↔
              s.dependencies.containsDirect id ∧ f = .graph (.alreadyDeclared id none) := by
  have hAgrees := agrees_ofMap hKeys
  refine ⟨ofMap_eq hKeys, fun v r => ?_, fun v => ?_, fun id f => ?_, fun id hSome => ?_⟩
  · rw [package_eq_ok]
    exact get?_byName
  · rw [exists_package_iff, hAgrees.exists_collection_iff]
  · have hNone : (¬∃ version, (byName records).contains ⟨id, version⟩) ↔
        ∀ r ∈ records, r.id ≠ id := by
      rw [exists_contains_iff]
      simp only [not_exists, not_and, ne_eq]
    rw [hAgrees.collection_eq_error_iff]
    exact and_congr_right fun _ => hNone
  · obtain ⟨r, hLast, rfl, hGreatest, hFind⟩ := find_latest files hKeys hSome
    refine ⟨r, hLast, rfl, hGreatest, fun shortcut w => ?_,
      fun s h w x token shortcut hRun hFirst hRequest f => ?_⟩
    · exact Selector.pin_of_lone_request (congrArg Prod.fst (hFind w)) shortcut
    · have hBooks := Selector.consistent_of_run hRun
      rw [hBooks.direct_failure_iff hFirst hRequest, hFind, (Selector.firstStep_spec hFirst).2.1]
      simp [PackageRecord.specifier]

/-- A version is recorded twice, in different places, and the greatest version is recorded as
withdrawn. -/
def restocked : List PackageRecord :=
  [ stockRecord "a" 1 []
  , { stockRecord "a" 2 [stockSpecifier "b" 1] with pruned := true }
  , { stockRecord "a" 1 [] with url := .ofFileNames ["new"] }
  , stockRecord "b" 1 [] ]

/-- The keys come in descending order. -/
def restockedKeys : List Specifier := (byName restocked).keys.reverse

def restockedTable : PackageTable := ofMap (byName restocked) restockedKeys

def restockedSource : PackageSource Unit := restockedTable.source fun _ => {}

def restockedSelector : Selector := (({} : Selector).add (.latest ⟨"a", "x"⟩)).2

/-- The package is asked for, and once more after that. -/
theorem answers_of_records_restocked : ∃ s x y,
    restockedKeys.Perm (byName restocked).keys ∧ restockedKeys ≠ (byName restocked).keys ∧
    restockedTable.package (stockSpecifier "a" 1) =
      .ok { stockRecord "a" 1 [] with url := .ofFileNames ["new"] } ∧
    (∃ r ∈ restocked, r.id = ⟨"a", "x"⟩) ∧ restockedSelector.firstStep () = some x ∧
    (x.outcome restockedSource).2.1.pins.get? ⟨"a", "x"⟩ = some ⟨2, 0, 0⟩ ∧
    Run restockedSource (Selector.add s (.latest ⟨"a", "x"⟩)).2
      (steps restockedSource 10 restockedSelector ()) ∧
    (Selector.add s (.latest ⟨"a", "x"⟩)).2.firstStep () = some y ∧
    y.failure restockedSource = some (.graph (.alreadyDeclared ⟨"a", "x"⟩ none)) := by
  have hKeys : restockedKeys.Perm (byName restocked).keys := List.reverse_perm _
  have hDeclared : ((drain restockedSource 10 restockedSelector ()).map fun r =>
      (r.2.1.pending, r.2.1.dependencies.containsDirect ⟨"a", "x"⟩)) = some ([], true) := by
    decide +kernel
  obtain ⟨⟨answer, s, w⟩, hDrain, hBoth⟩ := Option.map_eq_some_iff.1 hDeclared
  obtain ⟨hEmpty, hOld⟩ : s.pending = [] ∧ _ := Prod.mk.inj hBoth
  have hRun : Run restockedSource (s.add (.latest ⟨"a", "x"⟩)).2
      ([] ++ steps restockedSource 10 restockedSelector ()) :=
    .add _ _ (.select 10 () (.add _ _ .new) hDrain)
  obtain ⟨y, hSecond, hAgain⟩ : ∃ y, (s.add (.latest ⟨"a", "x"⟩)).2.firstStep () = some y ∧
      y.request = .direct (s.issued + 1) (.latest ⟨"a", "x"⟩) none := by
    rw [Selector.firstStep, Selector.add, hEmpty]
    exact ⟨_, rfl, rfl⟩
  obtain ⟨-, hPackage, -, -, hLatest⟩ :=
    answers_of_records (fun _ => {}) restocked restockedKeys hKeys
  have hSome : ∃ r ∈ restocked, r.id = ⟨"a", "x"⟩ := by decide
  obtain ⟨r, hLast, hId, hGreatest, hLone, hRefused⟩ := hLatest ⟨"a", "x"⟩ hSome
  obtain ⟨x, hFirst, -, hPin⟩ := hLone none ()
  have hVersion : r.version = ⟨2, 0, 0⟩ := by
    have hAll : ∀ r ∈ restocked, r.id = ⟨"a", "x"⟩ → r.version ≤ ⟨2, 0, 0⟩ := by decide
    exact Std.le_antisymm (hAll r hLast.mem hId)
      (hGreatest { stockRecord "a" 2 [stockSpecifier "b" 1] with pruned := true }
        (by simp [restocked]) rfl)
  refine ⟨s, x, y, hKeys, by decide +kernel, (hPackage _ _).2 ⟨rfl, ?_⟩, hSome, hFirst,
    hVersion ▸ hPin, hRun, hSecond, (hRefused _ _ () y _ none hRun hSecond hAgain _).2 ⟨hOld, rfl⟩⟩
  exact ⟨restocked.take 2, restocked.drop 3, rfl, by decide⟩

end PackageTable

end PackageManager
