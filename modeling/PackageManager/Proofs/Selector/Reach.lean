import Mathlib.Data.List.Nodup
import PackageManager.Proofs.Selector.Provenance
import PackageManager.Proofs.Selector.Termination

/-!
# What requests lead to

The order in which a selector works off its requests decides which versions it comes across: a
version that has been superseded by the time it could become a pin is never looked up. What it can
come across at all does not depend on the order. It is read off the answers of the source, as long
as the source answers the same question the same way each time.

`Reached` lists the versions that can become a pin in some order. A version found directly is one,
and so is each dependency of another, unless a version at least as great is found directly: direct
requests are worked off first, so such a dependency is passed over in any order.

## When the order does not matter

A version that is superseded may have asked for its dependencies before, or not. If the versions of
a package are `Cumulative`, that makes no difference: the greater one asks for them as well.

## Main results

* `Offered.unique` — what a version depends on is determined, if no package is found twice.
* `Chosen.unique` — and so is what is chosen of a package.
-/

namespace PackageManager

/-- A source gives the same answers in all its states. -/
structure PackageSource.Deterministic {σ : Type} (source : PackageSource σ) : Prop where
  collection : ∀ id w w', (source.collection id w).1 = (source.collection id w').1
  package : ∀ v w w', (source.package v w).1 = (source.package v w').1
  packageAt : ∀ p w w', (source.packageAt p w).1 = (source.packageAt p w').1

theorem PackageTable.deterministic_source {σ : Type} (t : PackageTable) (files : FileStore) :
    (t.source fun _ : σ => files).Deterministic where
  collection := fun _ _ _ => rfl
  package := fun _ _ _ => rfl
  packageAt := fun _ _ _ => rfl

namespace Selector

variable {σ : Type} {source : PackageSource σ}

/-- Two answers that are the same are both refused, or both of them give the same thing. -/
theorem answer_cases {α : Type} {p q : Except Fault α × σ} (hSame : p.1 = q.1) :
    (∃ f u v, p = (.error f, u) ∧ q = (.error f, v)) ∨
      ∃ a u v, p = (.ok a, u) ∧ q = (.ok a, v) := by
  obtain ⟨answer, u⟩ := p
  obtain ⟨answer', v⟩ := q
  obtain rfl : answer = answer' := hSame
  cases answer with
  | error f => exact .inl ⟨f, u, v, rfl, rfl⟩
  | ok a => exact .inr ⟨a, u, v, rfl, rfl⟩

theorem findExactly_congr (hSource : source.Deterministic) (v : Specifier) (w w' : σ) :
    (findExactly source v w).1 = (findExactly source v w').1 := by
  unfold findExactly
  rcases answer_cases (hSource.package v w w') with ⟨f, u, u', hLeft, hRight⟩ |
    ⟨r, u, u', hLeft, hRight⟩
  · simp [hLeft, hRight]
  · simp [hLeft, hRight]

/-- What a direct request finds does not depend on the state either. -/
theorem find_congr (hSource : source.Deterministic) (request : Request) (w w' : σ) :
    (find source request w).1 = (find source request w').1 := by
  cases request with
  | latest id =>
      unfold find
      rcases answer_cases (hSource.collection id w w') with ⟨f, u, u', hLeft, hRight⟩ |
        ⟨c, u, u', hLeft, hRight⟩
      · simp [hLeft, hRight]
      · cases hLatest : c.latest with
        | none => simp [hLeft, hRight, hLatest]
        | some v =>
            simp only [hLeft, hRight, hLatest]
            exact findExactly_congr hSource ⟨id, v⟩ u u'
  | exactly v => exact findExactly_congr hSource v w w'
  | unpacked p =>
      unfold find
      rcases answer_cases (hSource.packageAt p w w') with ⟨f, u, u', hLeft, hRight⟩ |
        ⟨r, u, u', hLeft, hRight⟩
      · simp [hLeft, hRight]
      · simp [hLeft, hRight]

/-! ## Versions that can be found -/

/-- A direct request with the short name that it was made with. -/
abbrev Ask := Request × Option String

/-- The versions that direct requests find. -/
def found (source : PackageSource σ) (w : σ) (asks : List Ask) : Set Candidate :=
  {c | ∃ a ∈ asks, (find source a.1 w).1 = .ok c}

/-- The packages of the versions that direct requests find, one for each request. -/
def foundIds (source : PackageSource σ) (w : σ) (asks : List Ask) : List PackageId :=
  asks.filterMap fun a => (find source a.1 w).1.toOption.map (·.specifier.id)

theorem mem_foundIds_iff {w : σ} {asks : List Ask} {id : PackageId} :
    id ∈ foundIds source w asks ↔ ∃ c ∈ found source w asks, c.specifier.id = id := by
  unfold foundIds
  rw [List.mem_filterMap]
  constructor
  · rintro ⟨a, ha, hId⟩
    rcases hFind : (find source a.1 w).1 with f | c
    · simp [hFind, Except.toOption] at hId
    · rw [hFind] at hId
      exact ⟨c, ⟨a, ha, hFind⟩, Option.some.inj hId⟩
  · rintro ⟨c, ⟨a, ha, hFind⟩, rfl⟩
    exact ⟨a, ha, by rw [hFind]; rfl⟩

/-- A version is one of the same package as another, and at least as great. -/
def Surpasses (u v : Specifier) : Prop := u.id = v.id ∧ v.version ≤ u.version

theorem Surpasses.trans {u v t : Specifier} (huv : Surpasses u v) (hvt : Surpasses v t) :
    Surpasses u t :=
  ⟨huv.1.trans hvt.1, Std.le_trans hvt.2 huv.2⟩

/-- A version lacks nothing that another one depends on: where that one depends on a package, so
does this one, in a version that is at least as great. -/
def Subsumes (c c' : Candidate) : Prop :=
  ∀ d ∈ c'.dependencies, ∃ e ∈ c.dependencies, Surpasses e d

instance (u v : Specifier) : Decidable (Surpasses u v) := by
  unfold Surpasses
  infer_instance

instance (c c' : Candidate) : Decidable (Subsumes c c') := by
  unfold Subsumes
  infer_instance

section Reach

variable (source) (w : σ) (direct : Set Candidate)

/-- What is known of a version when it becomes a pin: what a direct request has found, and
otherwise what the source says of it. -/
def Offered (c : Candidate) : Prop :=
  c ∈ direct ∨
    (∀ c' ∈ direct, c'.specifier ≠ c.specifier) ∧ (findExactly source c.specifier w).1 = .ok c

/-- The versions that can become a pin, in some order of the direct requests. -/
inductive Reached : Specifier → Prop
  | direct {c : Candidate} : c ∈ direct → Reached c.specifier
  | dependency {c : Candidate} {d : Specifier} : Reached c.specifier →
    Offered source w direct c → d ∈ c.dependencies →
    (∀ c' ∈ direct, c'.specifier.id = d.id → c'.specifier.version < d.version) → Reached d

/-- Of the versions that can become a pin, where a greater one can be found so can a lesser one of
the same package, and the greater one lacks nothing that the lesser one depends on. -/
def Cumulative : Prop :=
  ∀ u c, Reached source w direct u → Reached source w direct c.specifier →
    Offered source w direct c → Surpasses c.specifier u →
    ∃ c', Offered source w direct c' ∧ c'.specifier = u ∧ Subsumes c c'

/-- A package depends on another one, in some version that can become a pin. The project depends
on what is found directly. -/
def Leads (x : Option PackageId) (id : PackageId) : Prop :=
  (x = none ∧ ∃ c ∈ direct, c.specifier.id = id) ∨
    ∃ c, Reached source w direct c.specifier ∧ Offered source w direct c ∧
      x = some c.specifier.id ∧ ∃ d ∈ c.dependencies, d.id = id

end Reach

variable {w : σ} {direct : Set Candidate}

/-- If no two direct requests find the same package, a version is offered in one way only. -/
theorem Offered.unique (hUnique : ∀ c ∈ direct, ∀ c' ∈ direct,
      c.specifier.id = c'.specifier.id → c = c') {c c' : Candidate}
    (hc : Offered source w direct c) (hc' : Offered source w direct c')
    (hSame : c.specifier = c'.specifier) : c = c' := by
  rcases hc with hFound | ⟨hOther, hLookedUp⟩
  · rcases hc' with hFound' | ⟨hOther', -⟩
    · exact hUnique c hFound c' hFound' (congrArg Specifier.id hSame)
    · exact absurd hSame (hOther' c hFound)
  · rcases hc' with hFound' | ⟨-, hLookedUp'⟩
    · exact absurd hSame.symm (hOther c' hFound')
    · rw [hSame, hLookedUp'] at hLookedUp
      exact (Except.ok.inj hLookedUp).symm

/-- Requests of which no two find the same package are told apart by what they find. -/
theorem eq_of_foundIds_nodup {asks : List Ask} (hNodup : (foundIds source w asks).Nodup)
    {a b : Ask} (ha : a ∈ asks) (hb : b ∈ asks) {c c' : Candidate}
    (hFound : (find source a.1 w).1 = .ok c) (hFound' : (find source b.1 w).1 = .ok c')
    (hId : c.specifier.id = c'.specifier.id) : a = b := by
  by_contra hOther
  have hPairs := List.pairwise_filterMap.1 hNodup
  have hSymm : Std.Symm fun a b : Ask =>
      ∀ x, (find source a.1 w).1.toOption.map (·.specifier.id) = some x →
        ∀ y, (find source b.1 w).1.toOption.map (·.specifier.id) = some y → x ≠ y :=
    ⟨fun _ _ h x hx y hy => (h y hy x hx).symm⟩
  have hApart := hPairs.forall ha hb hOther
  exact hApart c.specifier.id (by rw [hFound]; rfl) c'.specifier.id (by rw [hFound']; rfl) hId

theorem direct_unique {asks : List Ask} (hNodup : (foundIds source w asks).Nodup) :
    ∀ c ∈ found source w asks, ∀ c' ∈ found source w asks,
      c.specifier.id = c'.specifier.id → c = c' := by
  rintro c ⟨a, ha, hFound⟩ c' ⟨b, hb, hFound'⟩ hId
  obtain rfl := eq_of_foundIds_nodup hNodup ha hb hFound hFound' hId
  rw [hFound] at hFound'
  exact Except.ok.inj hFound'

/-- Whether a finite catalog is cumulative can be checked version by version. -/
theorem cumulative_of_known {w : σ} {direct : Set Candidate} (known : List Candidate)
    (hDirect : ∀ c ∈ direct, c ∈ known)
    (hExact : ∀ c ∈ known, (findExactly source c.specifier w).1 = .ok c)
    (hClosed : ∀ c ∈ known, ∀ d ∈ c.dependencies, ∃ c' ∈ known, c'.specifier = d)
    (hSubsumes : ∀ c ∈ known, ∀ c' ∈ known, Surpasses c.specifier c'.specifier → Subsumes c c') :
    Cumulative source w direct := by
  have hSame : ∀ c c', c ∈ known → c' ∈ known → c.specifier = c'.specifier → c = c' := by
    intro c c' hc hc' hSpecifier
    have hFind := hExact c hc
    rw [hSpecifier, hExact c' hc'] at hFind
    exact (Except.ok.inj hFind).symm
  have hOffered : ∀ c c', c' ∈ known → c'.specifier = c.specifier → Offered source w direct c →
      c ∈ known := by
    rintro c c' hc' hSpecifier (hFound | ⟨-, hFind⟩)
    · exact hDirect c hFound
    · rw [← hSpecifier, hExact c' hc'] at hFind
      exact Except.ok.inj hFind ▸ hc'
  have hReached : ∀ v, Reached source w direct v → ∃ c ∈ known, c.specifier = v := by
    intro v hv
    induction hv with
    | direct hFound => exact ⟨_, hDirect _ hFound, rfl⟩
    | dependency _ hOffers hd _ ih =>
        obtain ⟨c', hc', hSpecifier⟩ := ih
        exact hClosed _ (hOffered _ c' hc' hSpecifier hOffers) _ hd
  intro u c hu hc hOffers hSurpasses
  obtain ⟨c', hc', rfl⟩ := hReached u hu
  obtain ⟨c₀, hc₀, hSpecifier⟩ := hReached c.specifier hc
  have hKnown := hOffered c c₀ hc₀ hSpecifier hOffers
  refine ⟨c', ?_, rfl, hSubsumes c hKnown c' hc' hSurpasses⟩
  by_cases hFound : c' ∈ direct
  · exact .inl hFound
  · right
    refine ⟨?_, hExact c' hc'⟩
    intro c'' hc'' hOther
    exact hFound (hSame c'' c' (hDirect c'' hc'') hc' hOther ▸ hc'')

/-! ## What has been expanded instead -/

/-- Some versions stand for all that can become a pin: they can themselves, and whatever was found
directly or is a dependency of one of them is surpassed by one of them. -/
structure Exhausts (source : PackageSource σ) (w : σ) (direct expanded : Set Candidate) : Prop where
  found : ∀ c ∈ direct, ∃ e ∈ expanded, Surpasses e.specifier c.specifier
  sound : ∀ e ∈ expanded, Reached source w direct e.specifier ∧ Offered source w direct e
  closed : ∀ e ∈ expanded, ∀ d ∈ e.dependencies, ∃ e' ∈ expanded, Surpasses e'.specifier d

section Exhausts

variable {expanded : Set Candidate}
  (hUnique : ∀ c ∈ direct, ∀ c' ∈ direct, c.specifier.id = c'.specifier.id → c = c')
  (hCumulative : Cumulative source w direct) (hExhausts : Exhausts source w direct expanded)

include hUnique hCumulative hExhausts

/-- A version depends on nothing that is not a dependency of the one that stands for it. -/
theorem Exhausts.subsumes {e c : Candidate} (he : e ∈ expanded)
    (hReached : Reached source w direct c.specifier) (hOffered : Offered source w direct c)
    (hSurpasses : Surpasses e.specifier c.specifier) : Subsumes e c := by
  obtain ⟨hReached', hOffered'⟩ := hExhausts.sound e he
  obtain ⟨c', hc', hSame, hSubsumes⟩ :=
    hCumulative c.specifier e hReached hReached' hOffered' hSurpasses
  obtain rfl := hc'.unique hUnique hOffered hSame
  exact hSubsumes

/-- Each version that can become a pin is surpassed. The induction follows the way to it: whatever a
version on the way depends on, the one that stands for it depends on as well. -/
theorem Exhausts.exists_surpassing {v : Specifier} (hReached : Reached source w direct v) :
    ∃ e ∈ expanded, Surpasses e.specifier v := by
  induction hReached with
  | direct hFound => exact hExhausts.found _ hFound
  | dependency hReached hOffered hd _ ih =>
      obtain ⟨e, he, hSurpasses⟩ := ih
      obtain ⟨d', hd', hAbove⟩ :=
        hExhausts.subsumes hUnique hCumulative he hReached hOffered hSurpasses _ hd
      obtain ⟨e', he', hAbove'⟩ := hExhausts.closed e he d' hd'
      exact ⟨e', he', hAbove'.trans hAbove⟩

/-- So each of them can be found. -/
theorem Exhausts.exists_offered {v : Specifier} (hReached : Reached source w direct v) :
    ∃ c, Offered source w direct c ∧ c.specifier = v := by
  obtain ⟨e, he, hSurpasses⟩ := hExhausts.exists_surpassing hUnique hCumulative hReached
  obtain ⟨hReached', hOffered'⟩ := hExhausts.sound e he
  obtain ⟨c, hc, hSame, -⟩ := hCumulative v e hReached hReached' hOffered' hSurpasses
  exact ⟨c, hc, hSame⟩

end Exhausts

/-! ## What is chosen -/

section Choice

variable (source) (w : σ) (asks : List Ask)

/-- A package was asked for directly with a short name. -/
def Named (id : PackageId) (name : String) : Prop :=
  ∃ a ∈ asks, a.2 = some name ∧ ∃ c, (find source a.1 w).1 = .ok c ∧ c.specifier.id = id

/-- The direct requests, and all that they can lead to, can be worked off. -/
structure Solvable : Prop where
  answered : ∀ a ∈ asks, ∃ c, (find source a.1 w).1 = .ok c
  distinct : (foundIds source w asks).Nodup
  offered : ∀ v, Reached source w (found source w asks) v →
    ∃ c, Offered source w (found source w asks) c ∧ c.specifier = v

/-- All requests can be worked off, and no package leads back to itself then. -/
structure Resolvable : Prop where
  solvable : Solvable source w asks
  acyclic : ∀ x, ¬Relation.TransGen
    (fun x y => ∃ id, y = some id ∧ Leads source w (found source w asks) x id) x x

/-- A version of a package with its url and its short name, which is the greatest that can become a
pin. -/
structure Chosen (t : Specifier × Url × Option String) : Prop where
  reached : Reached source w (found source w asks) t.1
  greatest : ∀ u, Reached source w (found source w asks) u → u.id = t.1.id →
    u.version ≤ t.1.version
  offered : ∃ c, Offered source w (found source w asks) c ∧ c.specifier = t.1 ∧ c.url = t.2.1
  named : ∀ name, t.2.2 = some name ↔ Named source w asks t.1.id name

end Choice

variable {asks asks' : List Ask}

theorem Chosen.unique (hUnique : ∀ c ∈ found source w asks, ∀ c' ∈ found source w asks,
      c.specifier.id = c'.specifier.id → c = c') {t t' : Specifier × Url × Option String}
    (ht : Chosen source w asks t) (ht' : Chosen source w asks t') (hId : t.1.id = t'.1.id) :
    t = t' := by
  obtain ⟨v, url, name⟩ := t
  obtain ⟨v', url', name'⟩ := t'
  have hVersion : v = v' := by
    apply Specifier.eq_of_parts hId
    exact Std.le_antisymm (ht'.greatest v ht.reached hId) (ht.greatest v' ht'.reached hId.symm)
  subst hVersion
  obtain ⟨c, hc, hSpecifier, rfl⟩ := ht.offered
  obtain ⟨c', hc', hSpecifier', rfl⟩ := ht'.offered
  obtain rfl := hc.unique hUnique hc' (hSpecifier.trans hSpecifier'.symm)
  have hName : name = name' := by
    apply Option.ext
    intro n
    rw [ht.named n, ht'.named n]
  rw [hName]

section Perm

variable (hPerm : asks.Perm asks')

include hPerm

/-- The order of the requests does not matter for what they find. -/
theorem found_perm : found source w asks = found source w asks' := by
  ext c
  show (∃ a ∈ asks, _) ↔ ∃ a ∈ asks', _
  simp only [hPerm.mem_iff]

theorem named_perm {id : PackageId} {name : String} :
    Named source w asks id name ↔ Named source w asks' id name := by
  simp only [Named, hPerm.mem_iff]

theorem Solvable.perm (hSolvable : Solvable source w asks) : Solvable source w asks' where
  answered := fun a ha => hSolvable.answered a (hPerm.mem_iff.2 ha)
  distinct := (hPerm.filterMap _).nodup_iff.1 hSolvable.distinct
  offered := found_perm hPerm ▸ hSolvable.offered

theorem Resolvable.perm (hResolvable : Resolvable source w asks) : Resolvable source w asks' where
  solvable := hResolvable.solvable.perm hPerm
  acyclic := found_perm hPerm ▸ hResolvable.acyclic

theorem Chosen.perm {t : Specifier × Url × Option String} (ht : Chosen source w asks t) :
    Chosen source w asks' t where
  reached := found_perm hPerm ▸ ht.reached
  greatest := found_perm hPerm ▸ ht.greatest
  offered := found_perm hPerm ▸ ht.offered
  named := fun name => (ht.named name).trans (named_perm hPerm)

end Perm

end Selector

end PackageManager
