import PackageManager.Proofs.BuildGraph.Cycles
import PackageManager.Proofs.Ordered.Size
import PackageManager.Proofs.Text.Parts

/-!
# What a record of a cycle says

The record of a cycle is the path of the search where it came by an edge back, with the target that
the edge leads to behind it. So it shows how to come to the cycle and then once around it, and all
of its steps are edges of the graph.

## Why no edge closes two records

A target is entered once. As long as the search has not left it, the path to it stays what it was
then (`EnteredOn`), and once it has been left the search does not come back. So whatever records end
with edges from one target, they all come to it on the same path, and if the edge is the same too
there is nothing left in which they could differ.

## Main results

* `Walks.enteredOn`, `EnteredOn.unique` — the path to a target is that on which it was entered.
* `trail_of_record` — what a record consists of.
* `records_sound` — each record is a path with an edge back, and there are as many records as edges
  that close one.
-/

namespace PackageManager.BuildGraph

open DepthFirst (Walks Event Leads)

section Search

variable {successors : String → List String} {roots : List String} {walk : List (Event String)}
  {way : List String}

/-! ## How a target was entered -/

/-- A walk has entered a vertex when it was on a way. -/
def EnteredOn (successors : String → List String) (roots : List String)
    (walk : List (Event String)) (v : String) (way : List String) : Prop :=
  ∃ before after, walk = before ++ .enter v :: after ∧ .enter v ∉ before ∧
    Walks successors roots before way ∧ v ∈ DepthFirst.next successors roots way

theorem EnteredOn.append {v : String} (h : EnteredOn successors roots walk v way)
    (more : List (Event String)) : EnteredOn successors roots (walk ++ more) v way := by
  obtain ⟨before, after, rfl, hRule⟩ := h
  exact ⟨before, after ++ more, by simp, hRule⟩

/-- A vertex is entered on one way only. -/
theorem EnteredOn.unique {v : String} {way' : List String}
    (h : EnteredOn successors roots walk v way) (h' : EnteredOn successors roots walk v way') :
    way = way' := by
  obtain ⟨before, after, rfl, hNew, hWalk, -⟩ := h
  obtain ⟨before', after', hSplit, hNew', hWalk', -⟩ := h'
  obtain ⟨rfl, -⟩ := Text.eq_of_append_cons_eq hNew hNew' hSplit
  exact List.reverse_injective ((path_eq hWalk).symm.trans (path_eq hWalk'))

/-- The way to the last vertex is one that a walk can be on. -/
theorem EnteredOn.walks {v : String} (h : EnteredOn successors roots walk v way) :
    ∃ before, Walks successors roots before (v :: way) := by
  obtain ⟨before, -, -, hNew, hWalk, hNext⟩ := h
  exact ⟨_, hWalk.enter hNext hNew⟩

/-- What stands before a vertex on the way is the way on which it was entered. -/
theorem enteredOn_of_way (h : Walks successors roots walk way) {v : String}
    {later earlier : List String} (hWay : way = later ++ v :: earlier) :
    EnteredOn successors roots walk v earlier := by
  induction h generalizing later with
  | begin => simp at hWay
  | @enter walk way w hWalk hNext hNew ih =>
      cases later with
      | nil =>
          obtain ⟨rfl, rfl⟩ := List.cons.inj hWay
          exact ⟨walk, [], rfl, hNew, hWalk, hNext⟩
      | cons x later => exact (ih (List.cons.inj hWay).2).append _
  | back _ _ _ _ ih => exact (ih hWay).append _
  | @leave walk way w _ _ ih =>
      have hLonger : w :: way = (w :: later) ++ v :: earlier := congrArg (w :: ·) hWay
      exact (ih hLonger).append _

/-! ## What a record consists of -/

theorem eq_of_lastEdge {trail : List String} {a b u v : String}
    (hLast : [u, v] <:+ (a :: trail).reverse ++ [b]) : a = u ∧ b = v := by
  obtain ⟨front, hSplit⟩ := hLast
  have hRecord : front ++ [u, v] = trail.reverse ++ [a, b] := by simpa using hSplit
  have hEnds := List.append_inj_right' hRecord rfl
  simp_all

/-- A record is the way on which a vertex was entered, with the vertex itself and another behind it
to which an edge leads back. -/
theorem trail_of_record (h : Walks successors roots walk way) {r : List String}
    (hr : r ∈ (walk.foldl CycleSearch.next {}).cycles) :
    ∃ u v trail, r = (u :: trail).reverse ++ [v] ∧ EnteredOn successors roots walk u trail ∧
      Leads successors u v ∧ v ∈ u :: trail := by
  induction h with
  | begin => cases hr
  | enter _ _ _ ih =>
      obtain ⟨u, v, trail, hRecord, hEntered, hEdge⟩ := ih (by simpa [CycleSearch.next] using hr)
      exact ⟨u, v, trail, hRecord, hEntered.append _, hEdge⟩
  | @back walk way u v hWalk hEdge hIn hOpen ih =>
      rcases (mem_cycles_back hWalk).1 hr with rfl | hr
      · have hEntered := enteredOn_of_way hWalk (List.nil_append (u :: way)).symm
        exact ⟨u, v, way, rfl, hEntered.append _, hEdge, hWalk.mem_way_iff.2 ⟨hIn, hOpen⟩⟩
      · obtain ⟨u', v', trail, hRecord, hEntered, hBack⟩ := ih hr
        exact ⟨u', v', trail, hRecord, hEntered.append _, hBack⟩
  | leave _ _ ih =>
      obtain ⟨u, v, trail, hRecord, hEntered, hEdge⟩ := ih (by simpa [CycleSearch.next] using hr)
      exact ⟨u, v, trail, hRecord, hEntered.append _, hEdge⟩

/-- Records with the same last edge are the same. -/
theorem record_unique (h : Walks successors roots walk way) {r r' : List String} {u v : String}
    (hr : r ∈ (walk.foldl CycleSearch.next {}).cycles)
    (hr' : r' ∈ (walk.foldl CycleSearch.next {}).cycles) (hLast : [u, v] <:+ r)
    (hLast' : [u, v] <:+ r') : r = r' := by
  obtain ⟨a, b, trail, rfl, hEntered, -⟩ := trail_of_record h hr
  obtain ⟨a', b', trail', rfl, hEntered', -⟩ := trail_of_record h hr'
  obtain ⟨rfl, rfl⟩ := eq_of_lastEdge hLast
  obtain ⟨rfl, rfl⟩ := eq_of_lastEdge hLast'
  rw [hEntered.unique hEntered']

end Search

/-! ## The records of a whole graph -/

/-- The last edge of a record. -/
def lastEdge (r : List String) : String × String :=
  match r.reverse with
  | v :: u :: _ => (u, v)
  | _ => ("", "")

variable {targets : TargetStore} {imports : ImportStore} {g : BuildGraph}

section Created

variable (hCreate : create targets imports = .ok g)

include hCreate

/-- A record goes along edges through different targets, and ends with one that it has come by. -/
theorem record_path {r : List String} (hr : r ∈ g.cycles) :
    ∃ path q, r = path ++ [q] ∧ path.Nodup ∧ (∀ p ∈ path, targets.contains p) ∧
      r.IsChain g.graph.Edge ∧ q ∈ path := by
  obtain ⟨hWalk, -⟩ := wholeWalk_walks hCreate
  obtain ⟨u, v, trail, rfl, hEntered, hEdge, hBack⟩ := trail_of_record hWalk hr
  obtain ⟨before, hBefore⟩ := hEntered.walks
  have hTargets : u :: trail ⊆ g.graph.vertices :=
    hBefore.way_subset (fun r hr => List.mem_reverse.1 hr) fun a b hLeads =>
      (closed_graph hCreate a b (leads_iff.1 hLeads)).2
  have hChain : (v :: u :: trail).IsChain fun b a => g.graph.Edge a b :=
    .cons_cons (leads_iff.1 hEdge) (hBefore.isChain_way.imp fun _ _ => leads_iff.1)
  refine ⟨(u :: trail).reverse, v, rfl, List.nodup_reverse.2 hBefore.nodup_way, fun p hp => ?_, ?_,
    List.mem_reverse.2 hBack⟩
  · exact (mem_vertices_iff hCreate).1 (hTargets (List.mem_reverse.1 hp))
  · rw [← List.reverse_cons]
    exact List.isChain_reverse.2 hChain

/-- Taking the last edge matches the records with the edges that close one. -/
theorem bijOn_lastEdge : Set.BijOn lastEdge {r | r ∈ g.cycles} {e | g.Closes e.1 e.2} := by
  obtain ⟨hWalk, -⟩ := wholeWalk_walks hCreate
  have hLast : ∀ r ∈ g.cycles, [(lastEdge r).1, (lastEdge r).2] <:+ r := by
    intro r hr
    obtain ⟨u, v, trail, rfl, -⟩ := trail_of_record hWalk hr
    simp [lastEdge]
  refine ⟨fun r hr => ⟨r, hr, hLast r hr⟩, fun r hr r' hr' hSame => ?_, ?_⟩
  · exact record_unique hWalk hr hr' (hLast r hr) (hSame ▸ hLast r' hr')
  · rintro ⟨u, v⟩ ⟨r, hr, t, rfl⟩
    exact ⟨t ++ [u, v], hr, by simp [lastEdge]⟩

/-- Each record is a path through different targets with one more step, along an edge of the graph
as all the others, to a target that the path has come by. No two records end with the same edge, so
there are as many records as edges that close one. -/
theorem records_sound :
    (∀ r ∈ g.cycles, ∃ path q, r = path ++ [q] ∧ path.Nodup ∧
      (∀ p ∈ path, targets.contains p) ∧ r.IsChain g.graph.Edge ∧ q ∈ path) ∧
    (∀ r ∈ g.cycles, ∀ r' ∈ g.cycles, ∀ u v, [u, v] <:+ r → [u, v] <:+ r' → r = r') ∧
    g.cycles.size = {e : String × String | ∃ r ∈ g.cycles, [e.1, e.2] <:+ r}.ncard := by
  obtain ⟨hWalk, -⟩ := wholeWalk_walks hCreate
  refine ⟨fun r hr => record_path hCreate hr, fun r hr r' hr' u v hLast hLast' =>
    record_unique hWalk hr hr' hLast hLast', ?_⟩
  calc g.cycles.size = {r | r ∈ g.cycles}.ncard := g.cycles.ncard_eq_size.symm
    _ = {e : String × String | g.Closes e.1 e.2}.ncard := (bijOn_lastEdge hCreate).ncard_eq

end Created

/-- A cycle of three targets with a shortcut. -/
def shortcutTargets : TargetStore :=
  .ofList [loopTarget "app" ["base", "lib"] [], loopTarget "base" ["lib"] [],
    loopTarget "lib" ["app"] []]

theorem records_sound_shortcut : ∃ g, create shortcutTargets ∅ = .ok g ∧
    g.cycles.toList = [["lib", "app", "base", "lib"], ["lib", "app", "lib"]] ∧
    ["lib", "app", "base", "lib"].IsChain g.graph.Edge ∧
    {e : String × String | ∃ r ∈ g.cycles, [e.1, e.2] <:+ r}.ncard = 2 := by
  have hCreated : (create shortcutTargets ∅).map (fun g => g.cycles.toList) =
      .ok [["lib", "app", "base", "lib"], ["lib", "app", "lib"]] := by
    decide +kernel
  obtain ⟨g, hCreate, hRecords⟩ := ok_of_map hCreated
  obtain ⟨hPaths, -, hCount⟩ := records_sound hCreate
  have hRecord : ["lib", "app", "base", "lib"] ∈ g.cycles := by
    rw [← OrderedSet.mem_toList, hRecords]
    exact List.mem_cons_self
  obtain ⟨-, -, -, -, -, hChain, -⟩ := hPaths _ hRecord
  refine ⟨g, hCreate, hRecords, hChain, hCount.symm.trans ?_⟩
  rw [OrderedSet.size, hRecords]
  rfl

end PackageManager.BuildGraph
