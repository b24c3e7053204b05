import PackageManager.Proofs.DependencySet.Declarations

/-!
# Calls that a dependency set refuses

A call is refused for one of two reasons: the package that is to depend on another is not in the
set, or it depends on the other already. The first is found out before anything is done. The second
is only found out once the vertex of the other package has been looked up, which makes a vertex if
there is none. This module shows that none is made then: the edge that is in the way leads to a
vertex, and no two vertices have one id.

So a refused call leaves no trace, neither in the set nor in what later calls answer.

## Main results

* `Represents.declare_eq_error_iff` — when a vertex may not declare a dependency.
* `refused_leaves_no_trace` — which calls are refused, and with which fault; the set is what it was,
  and later calls lead to what they would have led to without the refused one.
-/

namespace PackageManager.DependencySet

variable {rootId : Option PackageId} {s t : DependencySet} {ds : List Declaration} {f : Fault}

namespace Represents

/-- A vertex may not declare a dependency iff it has declared one on the same package before. -/
theorem declare_eq_error_iff (h : Represents rootId s ds) {u : Nat} (hu : s.IsVertex u)
    {d : Dependency} : s.declare u d = (.error f, t) ↔
      (Declares ds (s.idOf u) d.id ∧ f = .graph (.alreadyDeclared d.id (s.idOf u))) ∧ t = s := by
  rcases h.declare_cases hu d with ⟨v, hId, hEdge, hRefused⟩ | ⟨hNew, s', hAccepted, -⟩
  · have hOld : Declares ds (s.idOf u) d.id := (h.edge_iff hu hId).1 hEdge
    rw [hRefused]
    simp [hOld, eq_comm]
  · have hNone : ¬Declares ds (s.idOf u) d.id := by
      intro hDeclares
      obtain ⟨v, hId⟩ := h.exists_vertex_of_declares hDeclares
      exact hNew v hId ((h.edge_iff hu hId).2 hDeclares)
    rw [hAccepted]
    simp [hNone]

theorem addDirect_eq_error_iff (h : Represents rootId s ds) {d : Dependency} :
    s.addDirect d = (.error f, t) ↔
      (Declares ds rootId d.id ∧ f = .graph (.alreadyDeclared d.id rootId)) ∧ t = s := by
  have hRoot := h.declare_eq_error_iff (f := f) (t := t) (d := d) h.indexed.root_isVertex
  rwa [h.root_id] at hRoot

theorem add_eq_error_iff (h : Represents rootId s ds) {dependent : PackageId} {d : Dependency} :
    s.add dependent d = (.error f, t) ↔
      ((¬s.contains dependent ∧ f = .graph (.missingDependent dependent)) ∨
        Declares ds (some dependent) d.id ∧
          f = .graph (.alreadyDeclared d.id (some dependent))) ∧ t = s := by
  cases hIndex : s.index.get? dependent with
  | none =>
      have hOut : ¬s.contains dependent := by simp [contains, OrderedMap.contains, hIndex]
      have hNone : ¬Declares ds (some dependent) d.id := by
        rintro ⟨x, hx, hDependent, -⟩
        obtain ⟨u, v, hLink⟩ := h.recorded.exists_link_of_mem hx
        have hu := (h.indexed.index dependent u).2
          ((h.recorded.source u v x hLink).2.trans hDependent)
        rw [hIndex] at hu
        cases hu
      rw [add_eq_error hIndex]
      simp [hOut, hNone, eq_comm]
  | some u =>
      have hId := (h.indexed.index dependent u).1 hIndex
      have hIn : s.contains dependent := by simp [contains, OrderedMap.contains, hIndex]
      have hDeclare := h.declare_eq_error_iff (f := f) (t := t) (d := d) (isVertex_of_idOf hId)
      rw [hId] at hDeclare
      rw [add_eq_declare hIndex, hDeclare]
      simp [hIn]

end Represents

/-- A call that is refused might as well not have been made. -/
theorem run_append_cons_of_refused {calls more : List Call} {c : Call}
    (hRefused : ∃ f, c.perform (run rootId calls).1 = (.error f, (run rootId calls).1)) :
    run rootId (calls ++ c :: more) = run rootId (calls ++ more) := by
  obtain ⟨f, hRefused⟩ := hRefused
  have hRecord : c.record rootId (run rootId calls) = run rootId calls := by
    unfold Call.record
    rw [hRefused]
  unfold run at hRecord ⊢
  rw [List.foldl_append, List.foldl_cons, hRecord, ← List.foldl_append]

/-- Whatever calls were made on a set, a declaration of a package is refused iff the package is not
in the set or has declared a dependency on the same package before, and a declaration of the project
iff the project has. The fault says which, and the set is as it was. Whatever is done later comes
to the same as without the refused call. -/
theorem refused_leaves_no_trace {calls : List Call} (hRun : run rootId calls = (s, ds)) :
    ((∀ id, s.contains id ↔ rootId = some id ∨ ∃ x, Declares ds x id) ∧
      (∀ dependent id, s.containsDependency dependent id ↔ Declares ds (some dependent) id) ∧
      ∀ id, s.containsDirect id ↔ Declares ds rootId id) ∧
    (∀ dependent d f s', s.add dependent d = (.error f, s') ↔
      ((¬s.contains dependent ∧ f = .graph (.missingDependent dependent)) ∨
        s.containsDependency dependent d.id ∧
          f = .graph (.alreadyDeclared d.id (some dependent))) ∧ s' = s) ∧
    (∀ d f s', s.addDirect d = (.error f, s') ↔
      (s.containsDirect d.id ∧ f = .graph (.alreadyDeclared d.id rootId)) ∧ s' = s) ∧
    (∀ c f s', c.perform s = (.error f, s') →
      ∀ more, run rootId (calls ++ c :: more) = run rootId (calls ++ more)) ∧
    (∀ id, (Fault.graph (.missingDependent id)).detail = "missing dependency target " ++ id.text) ∧
    ∀ id x, (Fault.graph (.alreadyDeclared id x)).detail =
      "dependency " ++ id.text ++ " was already declared for " ++ GraphFault.label x := by
  have h := represents_of_run hRun
  refine ⟨⟨fun id => h.contains_iff, fun dependent id => h.containsDependency_iff,
    fun id => h.containsDirect_iff⟩, ?_, ?_, ?_, fun id => rfl, fun id x => rfl⟩
  · intro dependent d f s'
    rw [h.add_eq_error_iff, h.containsDependency_iff]
  · intro d f s'
    rw [h.addDirect_eq_error_iff, h.containsDirect_iff]
  · intro c f s' hRefused more
    apply run_append_cons_of_refused
    refine ⟨f, ?_⟩
    have hSame : s' = s := by
      cases c with
      | direct d => exact (h.addDirect_eq_error_iff.1 hRefused).2
      | of dependent d => exact (h.add_eq_error_iff.1 hRefused).2
    rw [hRun]
    exact hSame ▸ hRefused

/-- Calls on a set whose root is the package `p` of the domain `x`. It depends on `a`, which depends
on itself and on the root. Two of the calls are refused. -/
def tangledCalls : List Call :=
  [ .direct { id := ⟨"a", "x"⟩ }
  , .of ⟨"a", "x"⟩ { id := ⟨"a", "x"⟩ }
  , .of ⟨"z", "x"⟩ { id := ⟨"a", "x"⟩ }
  , .of ⟨"a", "x"⟩ { id := ⟨"p", "x"⟩ }
  , .of ⟨"p", "x"⟩ { id := ⟨"a", "x"⟩ } ]

theorem refused_leaves_no_trace_tangled : ∃ s,
    run (some ⟨"p", "x"⟩) tangledCalls = (s,
      [ ⟨some ⟨"p", "x"⟩, { id := ⟨"a", "x"⟩ }⟩
      , ⟨some ⟨"a", "x"⟩, { id := ⟨"a", "x"⟩ }⟩
      , ⟨some ⟨"a", "x"⟩, { id := ⟨"p", "x"⟩ }⟩ ]) ∧
    s.addDirect { id := ⟨"a", "x"⟩, requirements := .ofList [.caret ⟨1, 0, 0⟩] } =
      (.error (.graph (.alreadyDeclared ⟨"a", "x"⟩ (some ⟨"p", "x"⟩))), s) ∧
    s.add ⟨"z", "x"⟩ { id := ⟨"z", "x"⟩ } = (.error (.graph (.missingDependent ⟨"z", "x"⟩)), s) ∧
    ∀ more, run (some ⟨"p", "x"⟩) (tangledCalls ++ .of ⟨"z", "x"⟩ { id := ⟨"z", "x"⟩ } :: more) =
      run (some ⟨"p", "x"⟩) (tangledCalls ++ more) := by
  have hAccepted : (run (some ⟨"p", "x"⟩) tangledCalls).2 =
      [ ⟨some ⟨"p", "x"⟩, { id := ⟨"a", "x"⟩ }⟩
      , ⟨some ⟨"a", "x"⟩, { id := ⟨"a", "x"⟩ }⟩
      , ⟨some ⟨"a", "x"⟩, { id := ⟨"p", "x"⟩ }⟩ ] := by decide +kernel
  have hRun := congrArg ((run (some ⟨"p", "x"⟩) tangledCalls).1, ·) hAccepted
  obtain ⟨⟨hContains, -, hDirect⟩, hAdd, hAddDirect, hLater, -⟩ := refused_leaves_no_trace hRun
  have hOut : ¬(run (some ⟨"p", "x"⟩) tangledCalls).1.contains ⟨"z", "x"⟩ := by
    rw [hContains]
    simp [Declares]
  have hRefused := (hAdd ⟨"z", "x"⟩ { id := ⟨"z", "x"⟩ } _ _).2 ⟨.inl ⟨hOut, rfl⟩, rfl⟩
  have hKnown := (hDirect _).2 ⟨_, List.mem_cons_self, rfl, rfl⟩
  exact ⟨_, hRun, (hAddDirect _ _ _).2 ⟨⟨hKnown, rfl⟩, rfl⟩,
    hRefused, hLater (.of ⟨"z", "x"⟩ _) _ _ hRefused⟩

end PackageManager.DependencySet
