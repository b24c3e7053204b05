import Mathlib.Logic.Relation
import PackageManager.Graph.TopologicalOrder
import PackageManager.Proofs.Precedence

/-!
# Topological orders lead forward, or blame a cycle

`Digraph.topologicalOrder` searches with an explicit stack on which a vertex may stand several
times, and checks its candidate in a second pass. This module shows that the check fails only where
there is a cycle, and then at a vertex of that cycle.

## The invariant the proof rests on

A vertex that is discovered and not finished is *open*. Every open vertex stands on the stack, and
whatever stands above its topmost copy can be reached from it (`Search.Valid.above_reached`): the
copies below were pushed before the vertex was discovered, and no copy is pushed afterwards. When a
vertex is finished, each of its successors is therefore either finished before it, or open and so
on a path back to it (`Search.Valid.resolved`). The second pass looks for an edge of the second
kind.

## Main results

* `explore_valid` — a search that works off its stack keeps the invariant.
* `topologicalOrder_sound` — an order that is given out lists each vertex once, and every edge leads
  forward in it.
* `onCycle_of_topologicalOrder` — a vertex that is blamed lies on a cycle.
* `not_onCycle_of_topologicalOrder` — where an order is given out there is no cycle.
-/

namespace PackageManager.Digraph

variable {α : Type}

/-- An edge of the graph leads from one vertex to another. -/
def Edge (g : Digraph α) (u v : α) : Prop := (u, v) ∈ g.edges

/-- A path leads from one vertex to another, perhaps without an edge. -/
def Reaches (g : Digraph α) : α → α → Prop := Relation.ReflTransGen g.Edge

/-- A path with at least one edge leads from a vertex back to itself. -/
def OnCycle (g : Digraph α) (v : α) : Prop := Relation.TransGen g.Edge v v

/-- Every edge joins two of the vertices. -/
def Closed (g : Digraph α) : Prop := ∀ u v, g.Edge u v → u ∈ g.vertices ∧ v ∈ g.vertices

private theorem fresh_tail {seen l : List α} {w : α} (hNodup : (w :: l).Nodup)
    (hFresh : ∀ v ∈ w :: l, v ∉ seen) : ∀ v ∈ l, v ∉ w :: seen := by
  intro v hv hSeen
  rcases List.mem_cons.1 hSeen with rfl | hSeen
  · exact (List.nodup_cons.1 hNodup).1 hv
  · exact hFresh v (List.mem_cons_of_mem w hv) hSeen

variable [DecidableEq α] {g : Digraph α}

/-! ## The invariant of the search -/

namespace Search

/-- The vertices on the stack above the topmost copy of a vertex. -/
def above (s : Search α) (v : α) : List α := s.stack.takeWhile (· ≠ v)

/-- What holds of a search between any two of its steps. -/
structure Valid (g : Digraph α) (s : Search α) : Prop where
  stack_mem : ∀ v ∈ s.stack, v ∈ g.vertices
  discovered_mem : ∀ v ∈ s.discovered, v ∈ g.vertices
  /-- A vertex that is its own successor ends the search. -/
  no_loop : ∀ v ∈ s.discovered, ¬g.Edge v v
  finished_nodup : s.finished.Nodup
  finished_discovered : ∀ v ∈ s.finished, v ∈ s.discovered
  open_stacked : ∀ v ∈ s.discovered, v ∉ s.finished → v ∈ s.stack
  /-- Whatever stands above an open vertex can be reached from it. -/
  above_reached : ∀ v ∈ s.discovered, v ∉ s.finished → ∀ u ∈ s.above v, g.Reaches v u
  /-- The successors of an open vertex wait above it until they are discovered. -/
  successor_met : ∀ v ∈ s.discovered, v ∉ s.finished → ∀ w, g.Edge v w →
    w ∈ s.discovered ∨ w ∈ s.above v
  /-- A successor of a finished vertex was finished before it, or leads back to it. -/
  resolved : ∀ u ∈ s.finished, ∀ w, g.Edge u w → Precedes s.finished u w ∨ g.Reaches w u

theorem valid_empty (g : Digraph α) : Valid g {} where
  stack_mem := by simp
  discovered_mem := by simp
  no_loop := by simp
  finished_nodup := List.nodup_nil
  finished_discovered := by simp
  open_stacked := by simp
  above_reached := by simp
  successor_met := by simp
  resolved := by simp

/-- With an empty stack no vertex is open, so that a new root can be pushed. -/
theorem Valid.push {s : Search α} (h : s.Valid g) (hStack : s.stack = []) {v : α}
    (hv : v ∈ g.vertices) : Valid g { s with stack := v :: s.stack } := by
  have hDone : ∀ u ∈ s.discovered, u ∈ s.finished := by
    intro u hu
    by_contra hOpen
    simpa [hStack] using h.open_stacked u hu hOpen
  exact {
    stack_mem := by simpa [hStack] using hv
    discovered_mem := h.discovered_mem
    no_loop := h.no_loop
    finished_nodup := h.finished_nodup
    finished_discovered := h.finished_discovered
    open_stacked := fun u hu hOpen => absurd (hDone u hu) hOpen
    above_reached := fun u hu hOpen => absurd (hDone u hu) hOpen
    successor_met := fun u hu hOpen => absurd (hDone u hu) hOpen
    resolved := h.resolved }

theorem above_cons_of_ne {s : Search α} {v u : α} {rest : List α} (hStack : s.stack = v :: rest)
    (hu : v ≠ u) : s.above u = v :: rest.takeWhile (· ≠ u) := by
  simp [above, hStack, hu]

/-- An old open vertex has the pushed vertices above it, over all that was above it before. -/
theorem above_enter_of_discovered {s : Search α} {v u : α} (hu : u ∈ s.discovered) :
    (s.enter g v).above u =
      (g.successors v).filter (· ∉ v :: s.discovered) ++ s.above u := by
  unfold above enter
  refine List.takeWhile_append_of_pos fun w hw => ?_
  have hw : w ∉ v :: s.discovered := by simpa using (List.mem_filter.1 hw).2
  have : w ≠ u := fun h => hw (h ▸ List.mem_cons_of_mem _ hu)
  simpa using this

/-- The vertex that was entered has exactly the pushed vertices above it. -/
theorem above_enter_self {s : Search α} {v : α} {rest : List α} (hStack : s.stack = v :: rest) :
    (s.enter g v).above v = (g.successors v).filter (· ∉ v :: s.discovered) := by
  unfold above enter
  rw [hStack, List.takeWhile_append_of_pos]
  · simp
  · intro w hw
    have hw : w ∉ v :: s.discovered := by simpa using (List.mem_filter.1 hw).2
    have : w ≠ v := fun h => hw (h ▸ List.mem_cons_self)
    simpa using this

theorem Valid.enter {s : Search α} (h : s.Valid g) (hClosed : g.Closed) {v : α} {rest : List α}
    (hStack : s.stack = v :: rest) (hv : v ∉ s.discovered) (hLoop : v ∉ g.successors v) :
    (s.enter g v).Valid g := by
  have hvGraph : v ∈ g.vertices := h.stack_mem v (by simp [hStack])
  have hPushed : ∀ w ∈ (g.successors v).filter (· ∉ v :: s.discovered), g.Edge v w := by
    intro w hw
    exact mem_successors.1 (List.mem_filter.1 hw).1
  have hvAbove : ∀ u ∈ s.discovered, v ∈ s.above u := by
    intro u hu
    rw [above_cons_of_ne hStack fun huv => hv (huv ▸ hu)]
    exact List.mem_cons_self
  refine {
    stack_mem := ?stack_mem
    discovered_mem := ?discovered_mem
    no_loop := ?no_loop
    finished_nodup := h.finished_nodup
    finished_discovered := fun u hu => List.mem_cons_of_mem _ (h.finished_discovered u hu)
    open_stacked := ?open_stacked
    above_reached := ?above_reached
    successor_met := ?successor_met
    resolved := h.resolved }
  case stack_mem =>
    intro u hu
    rcases List.mem_append.1 hu with hu | hu
    · exact (hClosed v u (hPushed u hu)).2
    · exact h.stack_mem u hu
  case discovered_mem =>
    intro u hu
    rcases List.mem_cons.1 hu with rfl | hu
    · exact hvGraph
    · exact h.discovered_mem u hu
  case no_loop =>
    intro u hu
    rcases List.mem_cons.1 hu with rfl | hu
    · exact fun hu => hLoop (mem_successors.2 hu)
    · exact h.no_loop u hu
  case open_stacked =>
    intro u hu hOpen
    refine List.mem_append.2 (.inr ?_)
    rcases List.mem_cons.1 hu with rfl | hu
    · simp [hStack]
    · exact h.open_stacked u hu hOpen
  case above_reached =>
    intro u hu hOpen w hw
    rcases List.mem_cons.1 hu with rfl | hu
    · rw [above_enter_self hStack] at hw
      exact .single (hPushed w hw)
    · rw [above_enter_of_discovered hu] at hw
      rcases List.mem_append.1 hw with hw | hw
      · exact (h.above_reached u hu hOpen v (hvAbove u hu)).tail (hPushed w hw)
      · exact h.above_reached u hu hOpen w hw
  case successor_met =>
    intro u hu hOpen w hw
    rcases List.mem_cons.1 hu with rfl | hu
    · by_cases hSeen : w ∈ u :: s.discovered
      · exact .inl hSeen
      · rw [above_enter_self hStack]
        exact .inr (List.mem_filter.2 ⟨mem_successors.2 hw, by simpa using hSeen⟩)
    · rw [above_enter_of_discovered hu]
      exact (h.successor_met u hu hOpen w hw).imp (List.mem_cons_of_mem _)
        fun hAbove => List.mem_append.2 (.inr hAbove)

theorem mem_finished_leave {s : Search α} {v : α} {rest : List α} {u : α} :
    u ∈ (s.leave v rest).finished ↔ u = v ∨ u ∈ s.finished := by
  unfold leave
  split
  · exact ⟨.inr, fun h => h.elim (fun h => h ▸ ‹_›) id⟩
  · exact List.mem_cons

/-- What is finished stays before what was finished earlier. -/
theorem sublist_finished_leave (s : Search α) (v : α) (rest : List α) :
    s.finished.Sublist (s.leave v rest).finished := by
  unfold leave
  split
  · exact .refl _
  · exact List.sublist_cons_self _ _

/-- When a vertex is finished, a successor of it is finished already or leads back to it. -/
theorem Valid.successor_resolved {s : Search α} (h : s.Valid g) {v : α} {rest : List α}
    (hStack : s.stack = v :: rest) (hv : v ∈ s.discovered) (hOpen : v ∉ s.finished) {w : α}
    (hw : g.Edge v w) : w ∈ s.finished ∨ g.Reaches w v := by
  have hTop : s.above v = [] := by simp [above, hStack]
  have hSeen : w ∈ s.discovered := by
    simpa [hTop] using h.successor_met v hv hOpen w hw
  by_cases hFin : w ∈ s.finished
  · exact .inl hFin
  · refine .inr ?_
    by_cases hwv : v = w
    · exact hwv ▸ .refl
    · refine h.above_reached w hSeen hFin v ?_
      rw [above_cons_of_ne hStack hwv]
      exact List.mem_cons_self

theorem Valid.leave {s : Search α} (h : s.Valid g) {v : α} {rest : List α}
    (hStack : s.stack = v :: rest) (hv : v ∈ s.discovered) : (s.leave v rest).Valid g := by
  have hAbove : ∀ u, u ≠ v → ∀ w ∈ (s.leave v rest).above u, w ∈ s.above u := by
    intro u huv w hw
    rw [above_cons_of_ne hStack (Ne.symm huv)]
    exact List.mem_cons_of_mem _ hw
  have hStill : ∀ u, u ∉ (s.leave v rest).finished → u ≠ v ∧ u ∉ s.finished := by
    intro u hu
    exact not_or.1 fun hu' => hu (mem_finished_leave.2 hu')
  refine {
    stack_mem := fun u hu => h.stack_mem u (hStack ▸ List.mem_cons_of_mem _ hu)
    discovered_mem := h.discovered_mem
    no_loop := h.no_loop
    finished_nodup := ?finished_nodup
    finished_discovered := ?finished_discovered
    open_stacked := ?open_stacked
    above_reached := ?above_reached
    successor_met := ?successor_met
    resolved := ?resolved }
  case finished_nodup =>
    unfold Search.leave
    split
    · exact h.finished_nodup
    · exact List.nodup_cons.2 ⟨‹_›, h.finished_nodup⟩
  case finished_discovered =>
    intro u hu
    rcases mem_finished_leave.1 hu with rfl | hu
    · exact hv
    · exact h.finished_discovered u hu
  case open_stacked =>
    intro u hu hOpen
    obtain ⟨huv, hOpen⟩ := hStill u hOpen
    have hu := h.open_stacked u hu hOpen
    rw [hStack] at hu
    exact (List.mem_cons.1 hu).resolve_left huv
  case above_reached =>
    intro u hu hOpen w hw
    obtain ⟨huv, hOpen⟩ := hStill u hOpen
    exact h.above_reached u hu hOpen w (hAbove u huv w hw)
  case successor_met =>
    intro u hu hOpen w hw
    obtain ⟨huv, hOpen⟩ := hStill u hOpen
    have hMet := h.successor_met u hu hOpen w hw
    rw [above_cons_of_ne hStack (Ne.symm huv)] at hMet
    rcases hMet with hMet | hMet
    · exact .inl hMet
    · rcases List.mem_cons.1 hMet with rfl | hMet
      · exact .inl hv
      · exact .inr hMet
  case resolved =>
    intro u hu w hw
    by_cases hOld : u ∈ s.finished
    · exact (h.resolved u hOld w hw).imp_left fun hBefore =>
        List.Sublist.trans hBefore (sublist_finished_leave s v rest)
    · obtain rfl : u = v := (mem_finished_leave.1 hu).resolve_right hOld
      refine (h.successor_resolved hStack hv hOld hw).imp_left fun hFin => ?_
      have hNew : (s.leave u rest).finished = u :: s.finished := by simp [Search.leave, hOld]
      rw [hNew]
      exact precedes_cons.2 (.inl ⟨rfl, hFin⟩)

end Search

/-! ## The first pass -/

/-- A search that works off its stack keeps the invariant. -/
theorem explore_valid (hClosed : g.Closed) {s t : Search α} (h : s.Valid g)
    (hRun : g.explore s = .ok t) : t.Valid g ∧ t.stack = [] := by
  fun_induction explore g s with
  | case1 s hStack =>
      cases hRun
      exact ⟨h, hStack⟩
  | case2 s v rest hStack hv ih => exact ih (h.leave hStack hv) hRun
  | case3 s v rest hStack hv hLoop => cases hRun
  | case4 s v rest hStack hv hLoop ih => exact ih (h.enter hClosed hStack hv hLoop) hRun

/-- Whatever was on the stack or discovered is discovered once the stack is worked off. -/
theorem explore_discovers {s t : Search α} (hRun : g.explore s = .ok t) {v : α}
    (hv : v ∈ s.stack ∨ v ∈ s.discovered) : v ∈ t.discovered := by
  fun_induction explore g s with
  | case1 s hStack =>
      cases hRun
      simpa [hStack] using hv
  | case2 s u rest hStack hu ih =>
      refine ih hRun ?_
      rcases hv with hv | hv
      · rw [hStack] at hv
        rcases List.mem_cons.1 hv with rfl | hv
        · exact .inr hu
        · exact .inl hv
      · exact .inr hv
  | case3 s u rest hStack hu hLoop => cases hRun
  | case4 s u rest hStack hu hLoop ih =>
      refine ih hRun ?_
      rcases hv with hv | hv
      · exact .inl (List.mem_append.2 (.inr hv))
      · exact .inr (List.mem_cons_of_mem u hv)

/-- A search that fails names a vertex that is its own successor. -/
theorem loop_of_explore {s : Search α} {v : α} (hRun : g.explore s = .error v) : g.Edge v v := by
  fun_induction explore g s with
  | case1 s hStack => cases hRun
  | case2 s u rest hStack hu ih => exact ih hRun
  | case3 s u rest hStack hu hLoop =>
      cases hRun
      exact mem_successors.1 hLoop
  | case4 s u rest hStack hu hLoop ih => exact ih hRun

/-- The searches from some vertices, one after the other, keep the invariant and discover all of
them. -/
theorem exploreFrom_valid (hClosed : g.Closed) {l : List α} (hMem : ∀ v ∈ l, v ∈ g.vertices)
    {s t : Search α} (h : s.Valid g) (hStack : s.stack = [])
    (hRun : l.foldlM g.exploreFrom s = .ok t) :
    t.Valid g ∧ t.stack = [] ∧ ∀ v, v ∈ l ∨ v ∈ s.discovered → v ∈ t.discovered := by
  induction l generalizing s with
  | nil =>
      cases hRun
      exact ⟨h, hStack, fun v hv => by simpa using hv⟩
  | cons u l ih =>
      rw [List.foldlM_cons] at hRun
      cases hFrom : g.exploreFrom s u with
      | error v =>
          rw [hFrom] at hRun
          cases hRun
      | ok s' =>
          rw [hFrom] at hRun
          have hStep : s'.Valid g ∧ s'.stack = [] ∧
              ∀ v, v = u ∨ v ∈ s.discovered → v ∈ s'.discovered := by
            unfold exploreFrom at hFrom
            split at hFrom
            · cases hFrom
              exact ⟨h, hStack, fun v hv => hv.elim (fun hv => hv ▸ ‹_›) id⟩
            · obtain ⟨hValid, hEmpty⟩ :=
                explore_valid hClosed (h.push hStack (hMem u (by simp))) hFrom
              refine ⟨hValid, hEmpty, fun v hv => explore_discovers hFrom ?_⟩
              exact hv.imp (fun hv => by simp [hv]) id
          obtain ⟨hValid, hEmpty, hFound⟩ := hStep
          obtain ⟨hValid', hEmpty', hFound'⟩ :=
            ih (fun v hv => hMem v (List.mem_cons_of_mem u hv)) hValid hEmpty hRun
          refine ⟨hValid', hEmpty', fun v hv => hFound' v ?_⟩
          rcases hv with hv | hv
          · rcases List.mem_cons.1 hv with rfl | hv
            · exact .inr (hFound v (.inl rfl))
            · exact .inl hv
          · exact .inr (hFound v (.inr hv))

theorem loop_of_exploreFrom {l : List α} {s : Search α} {v : α}
    (hRun : l.foldlM g.exploreFrom s = .error v) : g.Edge v v := by
  induction l generalizing s with
  | nil => cases hRun
  | cons u l ih =>
      rw [List.foldlM_cons] at hRun
      cases hFrom : g.exploreFrom s u with
      | error w =>
          rw [hFrom] at hRun
          cases hRun
          unfold exploreFrom at hFrom
          split at hFrom
          · cases hFrom
          · exact loop_of_explore hFrom
      | ok s' =>
          rw [hFrom] at hRun
          exact ih hRun

/-! ## The second pass -/

/-- A search against the edges whose stack holds only vertices it has not come by goes on to the
first of them. -/
theorem nextBackward_of_fresh {stack seen : List α} (hFresh : ∀ u ∈ stack, u ∉ seen) :
    (g.nextBackward stack seen).map (·.1) = stack.head? := by
  cases stack with
  | nil => rfl
  | cons u stack =>
      have hu : u ∉ seen := hFresh u List.mem_cons_self
      simp [nextBackward, hu]

/-- One turn of the second pass: the second vertex of a search is the first predecessor that no
search has come by. -/
theorem secondBackward_cons {seen : List α} {v : α} (hv : v ∉ seen) (rest : List α) :
    g.secondBackward seen (v :: rest) =
      ((g.predecessors v).find? (· ∉ v :: seen)).or (g.secondBackward (v :: seen) rest) := by
  have hNext : (g.nextBackward ((g.predecessors v).filter (· ∉ v :: seen)) (v :: seen)).map (·.1) =
      (g.predecessors v).find? (· ∉ v :: seen) := by
    rw [nextBackward_of_fresh, List.head?_filter]
    intro u hu
    simpa using (List.mem_filter.1 hu).2
  rw [← hNext]
  simp only [secondBackward, nextBackward, hv, if_false, List.append_nil]
  split
  · next hSome => rw [hSome]; rfl
  · next hNone => rw [hNone]; rfl

/-- Where the second pass finds nothing, each edge to one of the vertices comes from that itself,
from one before it, or from one that a search had come by. -/
theorem source_of_secondBackward_eq_none {seen l : List α} (hNodup : l.Nodup)
    (hFresh : ∀ v ∈ l, v ∉ seen) (hNone : g.secondBackward seen l = none) {u v : α} (hv : v ∈ l)
    (hEdge : g.Edge u v) : u = v ∨ u ∈ seen ∨ Precedes l u v := by
  induction l generalizing seen with
  | nil => simp at hv
  | cons w l ih =>
      have hTail := (List.nodup_cons.1 hNodup).2
      rw [secondBackward_cons (hFresh w List.mem_cons_self), Option.or_eq_none_iff] at hNone
      obtain ⟨hFind, hRest⟩ := hNone
      rcases List.mem_cons.1 hv with rfl | hvTail
      · have hSeen : u ∈ v :: seen := by
          by_contra hu
          exact List.find?_eq_none.1 hFind u (mem_predecessors.2 hEdge) (by simpa using hu)
        exact (List.mem_cons.1 hSeen).imp_right .inl
      · rcases ih hTail (fresh_tail hNodup hFresh) hRest hvTail with hEq | hSeen | hBefore
        · exact .inl hEq
        · rcases List.mem_cons.1 hSeen with rfl | hSeen
          · exact .inr (.inr (precedes_cons.2 (.inl ⟨rfl, hvTail⟩)))
          · exact .inr (.inl hSeen)
        · exact .inr (.inr (precedes_cons.2 (.inr hBefore)))

/-- Where the second pass finds a vertex, an edge leads from that to one of the vertices, and it is
neither that one itself nor before it. -/
theorem edge_of_secondBackward_eq_some {seen l : List α} (hNodup : l.Nodup)
    (hFresh : ∀ v ∈ l, v ∉ seen) {u : α} (hSome : g.secondBackward seen l = some u) :
    u ∉ seen ∧ ∃ v ∈ l, g.Edge u v ∧ u ≠ v ∧ ¬Precedes l u v := by
  induction l generalizing seen with
  | nil => cases hSome
  | cons w l ih =>
      obtain ⟨hw, hTail⟩ := List.nodup_cons.1 hNodup
      rw [secondBackward_cons (hFresh w List.mem_cons_self), Option.or_eq_some_iff] at hSome
      rcases hSome with hFind | ⟨-, hRest⟩
      · have hu : u ≠ w ∧ u ∉ seen := by simpa using List.find?_some hFind
        have hEdge := mem_predecessors.1 (List.mem_of_find?_eq_some hFind)
        refine ⟨hu.2, w, List.mem_cons_self, hEdge, hu.1, fun hBefore => ?_⟩
        rcases precedes_cons.1 hBefore with ⟨-, hMem⟩ | hBefore
        · exact hw hMem
        · exact hw hBefore.mem_right
      · obtain ⟨hu, v, hv, hEdge, hNe, hNot⟩ := ih hTail (fresh_tail hNodup hFresh) hRest
        have hu : u ≠ w ∧ u ∉ seen := by simpa using hu
        refine ⟨hu.2, v, List.mem_cons_of_mem w hv, hEdge, hNe, fun hBefore => ?_⟩
        rcases precedes_cons.1 hBefore with ⟨rfl, -⟩ | hBefore
        · exact hu.1 rfl
        · exact hNot hBefore

/-! ## The order that is given out -/

/-- What the first pass hands to the second: each vertex once, and no edge that leads backward
except along a path back to its source. -/
theorem candidate_spec (hClosed : g.Closed) {s : Search α}
    (hRun : g.vertices.foldlM g.exploreFrom {} = .ok s) :
    s.finished.Nodup ∧ (∀ v, v ∈ s.finished ↔ v ∈ g.vertices) ∧ (∀ v, ¬g.Edge v v) ∧
      ∀ u v, g.Edge u v → Precedes s.finished u v ∨ g.Reaches v u := by
  obtain ⟨hValid, hStack, hFound⟩ :=
    exploreFrom_valid hClosed (fun v hv => hv) (Search.valid_empty g) rfl hRun
  have hFinished : ∀ v, v ∈ s.finished ↔ v ∈ g.vertices := by
    intro v
    constructor
    · exact fun hv => hValid.discovered_mem v (hValid.finished_discovered v hv)
    · intro hv
      by_contra hOpen
      simpa [hStack] using hValid.open_stacked v (hFound v (.inl hv)) hOpen
  refine ⟨hValid.finished_nodup, hFinished, fun v hLoop => ?_, fun u v hEdge => ?_⟩
  · exact hValid.no_loop v (hFound v (.inl (hClosed v v hLoop).1)) hLoop
  · exact hValid.resolved u ((hFinished u).2 (hClosed u v hEdge).1) v hEdge

/-- An order that is given out lists each vertex once, and every edge leads forward in it. -/
theorem topologicalOrder_sound (hClosed : g.Closed) {order : List α}
    (hOrder : g.topologicalOrder = .ok order) :
    order.Nodup ∧ (∀ v, v ∈ order ↔ v ∈ g.vertices) ∧ ∀ u v, g.Edge u v → Precedes order u v := by
  unfold topologicalOrder at hOrder
  cases hRun : g.vertices.foldlM g.exploreFrom {} with
  | error v => simp [hRun, bind, Except.bind] at hOrder
  | ok s =>
      obtain ⟨hNodup, hMem, hLoop, -⟩ := candidate_spec hClosed hRun
      simp only [hRun, bind, Except.bind] at hOrder
      split at hOrder
      · cases hOrder
      · next hNone =>
        cases hOrder
        refine ⟨hNodup, hMem, fun u v hEdge => ?_⟩
        have hv := (hMem v).2 (hClosed u v hEdge).2
        rcases source_of_secondBackward_eq_none hNodup (by simp) hNone hv hEdge with
          rfl | hSeen | hBefore
        · exact absurd hEdge (hLoop u)
        · cases hSeen
        · exact hBefore

/-- A vertex that is blamed lies on a cycle. -/
theorem onCycle_of_topologicalOrder (hClosed : g.Closed) {v : α}
    (hOrder : g.topologicalOrder = .error v) : g.OnCycle v := by
  unfold topologicalOrder at hOrder
  cases hRun : g.vertices.foldlM g.exploreFrom {} with
  | error u =>
      simp only [hRun, bind, Except.bind] at hOrder
      cases hOrder
      exact .single (loop_of_exploreFrom hRun)
  | ok s =>
      obtain ⟨hNodup, -, -, hResolved⟩ := candidate_spec hClosed hRun
      simp only [hRun, bind, Except.bind] at hOrder
      split at hOrder
      · next hSome =>
        cases hOrder
        obtain ⟨-, w, -, hEdge, -, hNot⟩ := edge_of_secondBackward_eq_some hNodup (by simp) hSome
        exact .head' hEdge ((hResolved v w hEdge).resolve_left hNot)
      · cases hOrder

/-- Where an order is given out there is no cycle. -/
theorem not_onCycle_of_topologicalOrder (hClosed : g.Closed) {order : List α}
    (hOrder : g.topologicalOrder = .ok order) (v : α) : ¬g.OnCycle v := by
  obtain ⟨hNodup, -, hForward⟩ := topologicalOrder_sound hClosed hOrder
  exact not_transGen_self_of_precedes hNodup hForward v

end PackageManager.Digraph
