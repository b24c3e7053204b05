import Mathlib.Data.List.Perm.Subperm
import Mathlib.Logic.Relation
import PackageManager.Graph.DepthFirst
import PackageManager.Proofs.Precedence

/-!
# What a depth-first walk records

`DepthFirst.walk` is a recursion with a bound on its depth. What can be said of it does not depend
on the recursion but on what may happen next at each moment, so this module says that first, as the
rules of a relation (`Walks`): enter what is next, note an edge back, leave when nothing is left to
do. The recursion follows the rules (`walks_walk`), and all else is proved by induction on them.

## Why the bound is enough

The vertices that a walk has entered and not left are all different (`Walks.nodup_way`). So a walk
is never deeper than there are vertices.

## The argument about cycles

When a vertex is left, each of its successors has been left before, or the edge to it has been noted
(`Walks.settled`). A noted edge leads to a vertex from which the walk has come to where it is
(`Walks.back_reaches`), so an edge that closes no cycle leads to a vertex that was left before.

## Main results

* `walks_walk` — a walk follows the rules, enters all its roots and leaves whatever it enters.
* `Walks.enter_iff` — the vertices that it enters are those that can be reached from a root.
* `Walks.settled`, `Walks.back_reaches` — edges lead to what was left before, or are noted and lie
  on a cycle.
-/

namespace PackageManager.DepthFirst

variable {α : Type}

/-- A vertex is a successor of another. -/
def Leads (successors : α → List α) (u v : α) : Prop := v ∈ successors u

/-- A path leads from one vertex to another, perhaps without an edge. -/
def Reaches (successors : α → List α) : α → α → Prop := Relation.ReflTransGen (Leads successors)

/-- What a walk may enter next: a successor of the vertex that it is at, or a root. -/
def next (successors : α → List α) (roots : List α) : List α → List α
  | [] => roots
  | u :: _ => successors u

/-- The rules of a walk. Beside the walk so far stands the way that it is on, the vertices that it
has entered and not left, the last of them first. -/
inductive Walks (successors : α → List α) (roots : List α) : List (Event α) → List α → Prop
  | begin : Walks successors roots [] []
  | enter {walk : List (Event α)} {way : List α} {v : α} : Walks successors roots walk way →
    v ∈ next successors roots way → .enter v ∉ walk →
    Walks successors roots (walk ++ [.enter v]) (v :: way)
  | back {walk : List (Event α)} {way : List α} {u v : α} : Walks successors roots walk (u :: way) →
    v ∈ successors u → .enter v ∈ walk → .leave v ∉ walk →
    Walks successors roots (walk ++ [.back u v]) (u :: way)
  | leave {walk : List (Event α)} {way : List α} {v : α} : Walks successors roots walk (v :: way) →
    (∀ w ∈ successors v, .back v w ∈ walk ∨ .leave w ∈ walk) →
    Walks successors roots (walk ++ [.leave v]) way

theorem left_append (walk walk' : List (Event α)) :
    left (walk ++ walk') = left walk ++ left walk' :=
  List.filterMap_append

variable {successors : α → List α} {roots : List α} {walk : List (Event α)} {way : List α}

/-! ## The way that a walk is on -/

namespace Walks

theorem entered_of_mem_way (h : Walks successors roots walk way) {v : α} (hv : v ∈ way) :
    .enter v ∈ walk := by
  induction h with
  | begin => cases hv
  | enter _ _ _ ih =>
      rcases List.mem_cons.1 hv with rfl | hv
      · simp
      · simp [ih hv]
  | back _ _ _ _ ih => simp [ih hv]
  | leave _ _ ih => simp [ih (List.mem_cons_of_mem _ hv)]

theorem entered_of_left (h : Walks successors roots walk way) {v : α} (hv : .leave v ∈ walk) :
    .enter v ∈ walk := by
  induction h with
  | begin => cases hv
  | enter _ _ _ ih => simp_all
  | back _ _ _ _ ih => simp_all
  | leave hWalk _ ih =>
      simp only [List.mem_append, List.mem_singleton, Event.leave.injEq] at hv ⊢
      rcases hv with hv | rfl
      · exact .inl (ih hv)
      · exact .inl (hWalk.entered_of_mem_way List.mem_cons_self)

/-- The vertices on the way are all different. -/
theorem nodup_way (h : Walks successors roots walk way) : way.Nodup := by
  induction h with
  | begin => exact List.nodup_nil
  | enter hWalk _ hNew ih =>
      exact List.nodup_cons.2 ⟨fun hv => hNew (hWalk.entered_of_mem_way hv), ih⟩
  | back _ _ _ _ ih => exact ih
  | leave _ _ ih => exact (List.nodup_cons.1 ih).2

/-- A vertex is on the way iff it has been entered and not left. -/
theorem mem_way_iff (h : Walks successors roots walk way) {v : α} :
    v ∈ way ↔ .enter v ∈ walk ∧ .leave v ∉ walk := by
  induction h with
  | begin => simp
  | enter hWalk _ hNew ih =>
      have hOut := mt hWalk.entered_of_left hNew
      simp only [List.mem_cons, ih, List.mem_append, List.mem_nil_iff, Event.enter.injEq,
        reduceCtorEq, or_false]
      constructor
      · rintro (rfl | ⟨hIn, hLeft⟩)
        · exact ⟨.inr rfl, hOut⟩
        · exact ⟨.inl hIn, hLeft⟩
      · rintro ⟨hIn | rfl, hLeft⟩
        · exact .inr ⟨hIn, hLeft⟩
        · exact .inl rfl
  | back _ _ _ _ ih => simp_all
  | leave hWalk _ ih =>
      -- what is left stands on the way only once, so it is not on the rest of it
      have hTop := (List.nodup_cons.1 hWalk.nodup_way).1
      simp only [List.mem_append, List.mem_cons, List.mem_nil_iff, Event.leave.injEq, reduceCtorEq,
        or_false, not_or] at ih ⊢
      constructor
      · intro hv
        obtain ⟨hIn, hLeft⟩ := ih.1 (.inr hv)
        exact ⟨hIn, hLeft, fun hEq => hTop (hEq ▸ hv)⟩
      · rintro ⟨hIn, hLeft, hNe⟩
        exact (ih.2 ⟨hIn, hLeft⟩).resolve_left hNe

/-- Each vertex on the way is a successor of the one that was entered before it. -/
theorem isChain_way (h : Walks successors roots walk way) :
    way.IsChain fun v u => Leads successors u v := by
  induction h with
  | begin => exact .nil
  | @enter walk way v _ hNext _ ih =>
      cases way with
      | nil => exact .singleton v
      | cons u way => exact .cons_cons hNext ih
  | back _ _ _ _ ih => exact ih
  | leave _ _ ih => exact ih.of_cons

/-- From each vertex on the way a path leads to all those that were entered later. -/
theorem way_reaches (h : Walks successors roots walk way) :
    way.Pairwise fun v u => Reaches successors u v := by
  induction h with
  | begin => exact .nil
  | @enter walk way v _ hNext _ ih =>
      refine List.pairwise_cons.2 ⟨fun u hu => ?_, ih⟩
      cases way with
      | nil => cases hu
      | cons w way =>
          -- the new vertex is a successor of the last one, to which the others lead already
          have hLast : Leads successors w v := hNext
          rcases List.mem_cons.1 hu with rfl | hu
          · exact .single hLast
          · exact .tail ((List.pairwise_cons.1 ih).1 u hu) hLast
  | back _ _ _ _ ih => exact ih
  | leave _ _ ih => exact (List.pairwise_cons.1 ih).2

/-! ## What has been entered, noted and left -/

/-- Only what can be reached from a root is entered. -/
theorem reached (h : Walks successors roots walk way) {v : α} (hv : .enter v ∈ walk) :
    ∃ r ∈ roots, Reaches successors r v := by
  induction h generalizing v with
  | begin => cases hv
  | @enter walk way w hWalk hNext _ ih =>
      simp only [List.mem_append, List.mem_singleton, Event.enter.injEq] at hv
      rcases hv with hv | rfl
      · exact ih hv
      · cases way with
        | nil => exact ⟨v, hNext, .refl⟩
        | cons u way =>
            obtain ⟨r, hr, hPath⟩ := ih (hWalk.entered_of_mem_way List.mem_cons_self)
            exact ⟨r, hr, hPath.tail hNext⟩
  | back _ _ _ _ ih => exact ih (by simpa using hv)
  | leave _ _ ih => exact ih (by simpa using hv)

/-- A noted edge is an edge, and leads to a vertex from which a path leads back to its source. -/
theorem back_reaches (h : Walks successors roots walk way) {u v : α} (hBack : .back u v ∈ walk) :
    Leads successors u v ∧ Reaches successors v u ∧ .enter v ∈ walk := by
  induction h with
  | begin => cases hBack
  | enter _ _ _ ih => simp_all
  | @back walk way w x hWalk hEdge hIn hOpen ih =>
      simp only [List.mem_append, List.mem_singleton, Event.back.injEq] at hBack
      rcases hBack with hBack | ⟨rfl, rfl⟩
      · simp [ih hBack]
      · refine ⟨hEdge, ?_, by simp [hIn]⟩
        rcases List.mem_cons.1 (hWalk.mem_way_iff.2 ⟨hIn, hOpen⟩) with rfl | hv
        · exact .refl
        · exact (List.pairwise_cons.1 hWalk.way_reaches).1 v hv
  | leave _ _ ih => simp_all

/-- No vertex is left twice. -/
theorem nodup_left (h : Walks successors roots walk way) : (left walk).Nodup := by
  induction h with
  | begin => exact List.nodup_nil
  | enter _ _ _ ih => simpa [left_append, left] using ih
  | back _ _ _ _ ih => simpa [left_append, left] using ih
  | @leave walk way v hWalk _ ih =>
      -- it is still on the way, so this is the first time that it is left
      have hOpen : v ∉ left walk := by
        have hWay := hWalk.mem_way_iff.1 List.mem_cons_self
        simpa using hWay.2
      rw [left_append]
      exact List.nodup_append.2 ⟨ih, List.nodup_singleton v, by
        rintro u hu w hw rfl
        exact hOpen (List.mem_singleton.1 hw ▸ hu)⟩

/-- An edge from a vertex that has been left is noted, or leads to a vertex that was left before. -/
theorem settled (h : Walks successors roots walk way) {u v : α} (hu : .leave u ∈ walk)
    (hEdge : Leads successors u v) : .back u v ∈ walk ∨ Precedes (left walk) v u := by
  induction h with
  | begin => cases hu
  | enter _ _ _ ih => simpa [left_append, left] using ih (by simpa using hu)
  | back _ _ _ _ ih =>
      refine (ih (by simpa using hu)).imp (fun hBack => by simp [hBack]) fun hBefore => ?_
      simpa [left_append, left] using hBefore
  | @leave walk way w hWalk hSettled ih =>
      rw [left_append]
      simp only [List.mem_append, List.mem_singleton, Event.leave.injEq] at hu
      rcases hu with hu | rfl
      · exact (ih hu).imp (fun hBack => by simp [hBack]) Precedes.append_right
      · refine (hSettled v hEdge).imp (fun hBack => by simp [hBack]) fun hLeft => ?_
        exact precedes_concat (mem_left.2 hLeft)

section Finished

variable (h : Walks successors roots walk [])

include h

/-- A walk that has come to its end has left whatever it has entered. -/
theorem leave_iff {v : α} : .leave v ∈ walk ↔ .enter v ∈ walk := by
  refine ⟨h.entered_of_left, fun hv => ?_⟩
  by_contra hOpen
  cases h.mem_way_iff.2 ⟨hv, hOpen⟩

/-- It enters exactly what can be reached from a root, if it enters the roots. -/
theorem enter_iff (hRoots : ∀ r ∈ roots, .enter r ∈ walk) {v : α} :
    .enter v ∈ walk ↔ ∃ r ∈ roots, Reaches successors r v := by
  refine ⟨h.reached, ?_⟩
  rintro ⟨r, hr, hPath⟩
  induction hPath with
  | refl => exact hRoots r hr
  | tail _ hEdge ih =>
      rcases h.settled (h.leave_iff.2 ih) hEdge with hBack | hBefore
      · exact (h.back_reaches hBack).2.2
      · exact h.entered_of_left (mem_left.1 hBefore.mem_left)

end Finished

end Walks

/-! ## The recursion follows the rules -/

/-- The rules lead from one walk to a longer one, on the same way. -/
structure Extends (successors : α → List α) (roots way : List α) (old new : List (Event α)) :
    Prop where
  walks : Walks successors roots new way
  appends : old <+: new

theorem extends_refl (hWalk : Walks successors roots walk way) :
    Extends successors roots way walk walk :=
  ⟨hWalk, List.prefix_rfl⟩

theorem Extends.trans {old mid new : List (Event α)} (h : Extends successors roots way old mid)
    (h' : Extends successors roots way mid new) : Extends successors roots way old new :=
  ⟨h'.walks, h.appends.trans h'.appends⟩

/-- If a walk can be continued for each of some vertices, it can be for all of them in turn, and
what has been done for one of them stays done. -/
theorem extends_foldl (Done : List (Event α) → α → Prop)
    (hKeeps : ∀ old new v, old <+: new → Done old v → Done new v)
    {step : List (Event α) → α → List (Event α)} {l : List α}
    (hStep : ∀ v ∈ l, ∀ walk, Walks successors roots walk way →
      Extends successors roots way walk (step walk v) ∧ Done (step walk v) v)
    (hWalk : Walks successors roots walk way) :
    Extends successors roots way walk (l.foldl step walk) ∧
      ∀ v ∈ l, Done (l.foldl step walk) v := by
  induction l generalizing walk with
  | nil => exact ⟨extends_refl hWalk, by simp⟩
  | cons v l ih =>
      obtain ⟨hFirst, hDone⟩ := hStep v List.mem_cons_self walk hWalk
      obtain ⟨hRest, hOthers⟩ := ih (fun w hw => hStep w (List.mem_cons_of_mem v hw)) hFirst.walks
      refine ⟨hFirst.trans hRest, fun w hw => ?_⟩
      rcases List.mem_cons.1 hw with rfl | hw
      · exact hKeeps _ _ w hRest.appends hDone
      · exact hOthers w hw

section Recursion

variable {vertices : List α} (hRoots : ∀ r ∈ roots, r ∈ vertices)
  (hClosed : ∀ u v, Leads successors u v → v ∈ vertices)

include hRoots hClosed

theorem mem_vertices_of_next {v : α} (hv : v ∈ next successors roots way) : v ∈ vertices := by
  cases way with
  | nil => exact hRoots v hv
  | cons u way => exact hClosed u v hv

theorem Walks.way_subset (h : Walks successors roots walk way) : way ⊆ vertices := by
  induction h with
  | begin => simp
  | enter _ hNext _ ih => exact List.cons_subset.2 ⟨mem_vertices_of_next hRoots hClosed hNext, ih⟩
  | back _ _ _ _ ih => exact ih
  | leave _ _ ih => exact (List.cons_subset.1 ih).2

/-- A walk is never deeper than there are vertices. -/
theorem Walks.length_way_le (h : Walks successors roots walk way) :
    way.length ≤ vertices.length :=
  (List.subperm_of_subset h.nodup_way (h.way_subset hRoots hClosed)).length_le

variable [DecidableEq α]

/-- A walk that is continued with what it may enter next enters that and leaves it in the end. -/
theorem extends_visit (fuel : Nat) {v : α} (hWalk : Walks successors roots walk way)
    (hNext : v ∈ next successors roots way) (hNew : .enter v ∉ walk)
    (hFuel : vertices.length ≤ way.length + fuel) :
    Extends successors roots way walk (visit successors fuel v walk) ∧
      .leave v ∈ visit successors fuel v walk := by
  induction fuel generalizing walk way v with
  | zero =>
      -- the way is as long as it can be, yet one more vertex can be entered
      have hDeep := (hWalk.enter hNext hNew).length_way_le hRoots hClosed
      rw [List.length_cons] at hDeep
      omega
  | succ fuel ih =>
      have hEnter := hWalk.enter hNext hNew
      have hDeeper : vertices.length ≤ (v :: way).length + fuel := by
        rw [List.length_cons]
        omega
      have hFollow : ∀ w ∈ successors v, ∀ walk, Walks successors roots walk (v :: way) →
          Extends successors roots (v :: way) walk (follow successors fuel v walk w) ∧
            (.back v w ∈ follow successors fuel v walk w ∨
              .leave w ∈ follow successors fuel v walk w) := by
        intro w hw walk hWalk
        unfold follow
        split
        · next hNew =>
            obtain ⟨hExtends, hLeft⟩ := ih hWalk hw hNew hDeeper
            exact ⟨hExtends, .inr hLeft⟩
        · next hOld =>
            split
            · next hOpen =>
                have hBack := hWalk.back hw (not_not.1 hOld) hOpen
                exact ⟨⟨hBack, List.prefix_append _ _⟩, by simp⟩
            · next hLeft => exact ⟨extends_refl hWalk, .inr (not_not.1 hLeft)⟩
      obtain ⟨hAll, hSettled⟩ := extends_foldl (fun walk w => .back v w ∈ walk ∨ .leave w ∈ walk)
        (fun _ _ _ hPrefix => Or.imp (hPrefix.subset ·) (hPrefix.subset ·)) hFollow hEnter
      rw [visit_succ]
      have hAppends : walk <+: (successors v).foldl (follow successors fuel v)
          (walk ++ [.enter v]) := (List.prefix_append _ _).trans hAll.appends
      exact ⟨⟨hAll.walks.leave hSettled, hAppends.trans (List.prefix_append _ _)⟩, by simp⟩

/-- A walk follows the rules to its end, and enters each of its roots. -/
theorem walks_walk : Walks successors roots (DepthFirst.walk successors vertices.length roots) [] ∧
    ∀ r ∈ roots, .enter r ∈ DepthFirst.walk successors vertices.length roots := by
  have hStart : ∀ r ∈ roots, ∀ walk, Walks successors roots walk [] →
      Extends successors roots [] walk
        (if .enter r ∈ walk then walk else visit successors vertices.length r walk) ∧
      .enter r ∈ if .enter r ∈ walk then walk else visit successors vertices.length r walk := by
    intro r hr walk hWalk
    split
    · next hIn => exact ⟨extends_refl hWalk, hIn⟩
    · next hNew =>
        obtain ⟨hExtends, hLeft⟩ := extends_visit hRoots hClosed vertices.length hWalk hr hNew
          (Nat.le_add_left _ _)
        exact ⟨hExtends, hExtends.walks.entered_of_left hLeft⟩
  obtain ⟨hAll, hEntered⟩ := extends_foldl (fun walk r => .enter r ∈ walk)
    (fun _ _ _ hPrefix => (hPrefix.subset ·)) hStart .begin
  exact ⟨hAll.walks, hEntered⟩

end Recursion

end PackageManager.DepthFirst
