import Mathlib.Data.List.Sort
import PackageManager.Proofs.Interval.SplitMap
import PackageManager.Proofs.Ordered.Size

/-!
# Where the segments of a split map begin and end

What a split map covers does not say where its segments are: a segment could be cut in two and cover
the same. An insertion cuts at the bounds of the new interval, and later insertions cut there again.
So the bounds of the segments are the bounds of all intervals that have been inserted, and these and
what is covered leave no choice.

## Why no bound is lost

The first version of an interval is covered once it is inserted, and so is the last piece before its
end. A piece that is covered becomes a segment, and one of these begins, or ends, at the bound.

## Main results

* `mem_boundsOf_insertAll` — the bounds of the segments are those of the inserted intervals.
* `eq_of_covers_of_bounds` — two maps with the same bounds that cover the same are the same.
* `size_lt_of_bounds` — there are fewer segments than bounds.
* `insertAll_canonical` — the order of insertions and their repetitions leave no trace, no bound is
  lost or made up, and there are at most twice as many segments as intervals, less one.
-/

namespace PackageManager.SplitMap

variable {α : Type} [Ord α] {m : SplitMap α} {c : Version}

theorem mem_boundsOf {segments : List (Interval × OrderedSet α)} :
    c ∈ boundsOf segments ↔ ∃ s ∈ segments, c = s.1.lower ∨ c = s.1.upper := by
  simp [boundsOf]

/-! ## The bounds of pieces -/

section Between

variable {bounds : List Version}

theorem upper_mem_of_mem_between {p : Interval} (hp : p ∈ between bounds) : p.upper ∈ bounds := by
  fun_induction between bounds with
  | case1 a b rest ih =>
      rcases List.mem_cons.1 hp with rfl | hp
      · simp
      · exact List.mem_cons_of_mem a (ih hp)
  | case2 => cases hp

/-- A piece ends at each bound but the first. -/
theorem exists_piece_to {a : Version} (ha : a ∈ bounds) (hc : c ∈ bounds) (hac : a < c)
    (hSorted : bounds.Pairwise (· < ·)) : ∃ p ∈ between bounds, p.upper = c := by
  fun_induction between bounds generalizing a with
  | case1 x y rest ih =>
      have hTail := (List.pairwise_cons.1 hSorted).2
      by_cases hSecond : c = y
      · exact ⟨⟨x, y⟩, by simp, hSecond.symm⟩
      · have hFirst : c ≠ x := fun hEq =>
          Std.lt_irrefl (Std.lt_of_lt_of_le (hEq ▸ hac) (head_le_of_mem hSorted ha))
        have hRest : c ∈ rest := by simpa [hFirst, hSecond] using hc
        obtain ⟨p, hp, hUpper⟩ := ih List.mem_cons_self (List.mem_cons_of_mem y hRest)
          ((List.pairwise_cons.1 hTail).1 c hRest) hTail
        exact ⟨p, List.mem_cons_of_mem _ hp, hUpper⟩
  | case2 l hShort =>
      exfalso
      rcases l with _ | ⟨b, _ | ⟨d, rest⟩⟩
      · cases ha
      · obtain rfl := List.mem_singleton.1 ha
        obtain rfl := List.mem_singleton.1 hc
        exact Std.lt_irrefl hac
      · exact hShort b d rest rfl

end Between

/-! ## The bounds after insertions -/

section Insertion

variable [Std.TransOrd α] [Std.LawfulEqOrd α] {i : Interval}

/-- A piece becomes a segment if its first version is covered, before the insertion or by it. -/
theorem exists_segment_of_piece (h : m.WellFormed) (hi : i.lower < i.upper) (tag : α) {p : Interval}
    (hp : p ∈ between (m.cuts i)) (hCovered : i.contains p.lower ∨ ∃ t, m.Covers p.lower t) :
    ∃ s ∈ (m.insert i tag).segments, s.1 = p := by
  have hFirst : p.contains p.lower :=
    Interval.contains_lower (bound_of_mem_between (m.cuts_sorted i) hp).1
  have hTag : ∃ t, t ∈ tagsAfter i tag m.segments p := by
    rcases hCovered with hIn | ⟨t, ht⟩
    · exact ⟨tag, (mem_tagsAfter h hp hFirst).2 (.inr ⟨hIn, rfl⟩)⟩
    · exact ⟨t, (mem_tagsAfter h hp hFirst).2 (.inl ht)⟩
  have hTagged := List.isEmpty_eq_false_iff_exists_mem.2 hTag
  exact ⟨(p, tagsAfter i tag m.segments p), (mem_segments_insert hi).2 ⟨hp, rfl, hTagged⟩, rfl⟩

/-- If all of an interval is covered, an insertion that cuts at its bounds leaves segments that
begin and end there. -/
theorem bounds_kept (h : m.WellFormed) (hi : i.lower < i.upper) (tag : α) {j : Interval}
    (hLower : j.lower ∈ m.cuts i) (hUpper : j.upper ∈ m.cuts i) (hj : j.lower < j.upper)
    (hCovered : ∀ v, j.contains v → i.contains v ∨ ∃ t, m.Covers v t)
    (hEnd : c = j.lower ∨ c = j.upper) : c ∈ boundsOf (m.insert i tag).segments := by
  have hSorted := m.cuts_sorted i
  rcases hEnd with rfl | rfl
  · obtain ⟨p, hp, hIn⟩ := exists_mem_between hLower hUpper (Std.le_refl _) hj hSorted
    obtain ⟨hFrom, hTo⟩ := Interval.contains_iff.1 hIn
    have hBegins : p.lower = j.lower := by
      rcases (bound_of_mem_between hSorted hp).2.2 j.lower hLower with hBefore | hBehind
      · exact Std.le_antisymm hFrom hBefore
      · exact absurd (Std.lt_of_lt_of_le hTo hBehind) Std.lt_irrefl
    obtain ⟨s, hs, rfl⟩ := exists_segment_of_piece h hi tag hp
      (hBegins ▸ hCovered j.lower (Interval.contains_lower hj))
    exact mem_boundsOf.2 ⟨s, hs, .inl hBegins.symm⟩
  · obtain ⟨p, hp, hEnds⟩ := exists_piece_to hLower hUpper hj hSorted
    obtain ⟨hProper, -, hBound⟩ := bound_of_mem_between hSorted hp
    have hInside : j.contains p.lower := by
      rcases hBound j.lower hLower with hBefore | hBehind
      · exact Interval.contains_iff.2 ⟨hBefore, hEnds ▸ hProper⟩
      · exact absurd (Std.lt_of_lt_of_le hj (hEnds ▸ hBehind)) Std.lt_irrefl
    obtain ⟨s, hs, rfl⟩ := exists_segment_of_piece h hi tag hp (hCovered _ hInside)
    exact mem_boundsOf.2 ⟨s, hs, .inr hEnds.symm⟩

/-- An insertion adds the bounds of the new interval, unless that is empty, and loses none. -/
theorem mem_boundsOf_insert (h : m.WellFormed) (i : Interval) (tag : α) :
    c ∈ boundsOf (m.insert i tag).segments ↔
      c ∈ boundsOf m.segments ∨ (i.isEmpty = false ∧ (c = i.lower ∨ c = i.upper)) := by
  cases hEmpty : i.isEmpty with
  | true => simp [insert_of_isEmpty hEmpty]
  | false =>
      have hi := Interval.isEmpty_eq_false_iff.1 hEmpty
      have hCuts : c ∈ m.cuts i ↔ c ∈ boundsOf m.segments ∨ c = i.lower ∨ c = i.upper := by
        rw [mem_cuts, mem_boundsOf]
      simp only [true_and]
      rw [← hCuts]
      constructor
      · intro hc
        obtain ⟨s, hs, hEnd⟩ := mem_boundsOf.1 hc
        have hp := ((mem_segments_insert hi).1 hs).1
        rcases hEnd with rfl | rfl
        · exact (bound_of_mem_between (m.cuts_sorted i) hp).2.1
        · exact upper_mem_of_mem_between hp
      · intro hc
        rcases mem_cuts.1 hc with ⟨s, hs, hEnd⟩ | hEnd
        · obtain ⟨t, ht⟩ := List.isEmpty_eq_false_iff_exists_mem.1 (h.tagged s hs)
          exact bounds_kept h hi tag (lower_mem_cuts hs) (upper_mem_cuts hs) (h.proper s hs)
            (fun v hv => .inr ⟨t, s, hs, hv, ht⟩) hEnd
        · have hFrom : i.lower ∈ m.cuts i := mem_cuts.2 (.inr (.inl rfl))
          have hTo : i.upper ∈ m.cuts i := mem_cuts.2 (.inr (.inr rfl))
          exact bounds_kept h hi tag hFrom hTo hi (fun v hv => .inl hv) hEnd

/-- After any insertions the bounds of the segments are those of the inserted intervals. -/
theorem mem_boundsOf_insertAll (l : List (Interval × α)) (h : m.WellFormed) :
    c ∈ boundsOf (m.insertAll l).segments ↔ c ∈ boundsOf m.segments ∨
      ∃ e ∈ l, e.1.isEmpty = false ∧ (c = e.1.lower ∨ c = e.1.upper) := by
  induction l generalizing m with
  | nil => simp [insertAll]
  | cons e l ih =>
      have hRest := ih (wellFormed_insert h e.1 e.2)
      show c ∈ boundsOf ((m.insert e.1 e.2).insertAll l).segments ↔ _
      rw [hRest, mem_boundsOf_insert h, List.exists_mem_cons_iff, or_assoc]

/-- From the empty map on, the bounds of the segments are just those of the inserted intervals. -/
theorem mem_boundsOf_insertAll_empty (l : List (Interval × α)) :
    c ∈ boundsOf ((∅ : SplitMap α).insertAll l).segments ↔
      ∃ e ∈ l, e.1.isEmpty = false ∧ (c = e.1.lower ∨ c = e.1.upper) := by
  rw [mem_boundsOf_insertAll l wellFormed_empty]
  exact or_iff_right List.not_mem_nil

end Insertion

/-! ## Bounds and what is covered determine the map -/

/-- No segment begins or ends inside another one. -/
theorem WellFormed.bound_outside (h : m.WellFormed) {s : Interval × OrderedSet α}
    (hs : s ∈ m.segments) (hc : c ∈ boundsOf m.segments) : c ≤ s.1.lower ∨ s.1.upper ≤ c := by
  obtain ⟨r, hr, hEnd⟩ := mem_boundsOf.1 hc
  have : Std.Symm fun a b : Interval × OrderedSet α =>
      a.1.upper ≤ b.1.lower ∨ b.1.upper ≤ a.1.lower := ⟨fun _ _ => Or.symm⟩
  have hApart := h.ascending.imp (S := fun a b : Interval × OrderedSet α =>
      a.1.upper ≤ b.1.lower ∨ b.1.upper ≤ a.1.lower) fun hab => .inl hab
  by_cases hSame : r = s
  · subst hSame
    rcases hEnd with rfl | rfl
    · exact .inl (Std.le_refl _)
    · exact .inr (Std.le_refl _)
  · have hrProper := Std.le_of_lt (h.proper r hr)
    rcases hApart.forall hr hs hSame with hBefore | hBehind
    · rcases hEnd with rfl | rfl
      · exact .inl (Std.le_trans hrProper hBefore)
      · exact .inl hBefore
    · rcases hEnd with rfl | rfl
      · exact .inr hBehind
      · exact .inr (Std.le_trans hBehind hrProper)

section Canonical

variable [Std.TransOrd α] {m' : SplitMap α}

/-- What is covered has the same segments wherever it has the same bounds. -/
theorem mem_segments_of_covers (h : m.WellFormed) (h' : m'.WellFormed)
    (hCovers : ∀ v t, m.Covers v t ↔ m'.Covers v t)
    (hBounds : ∀ c, c ∈ boundsOf m.segments ↔ c ∈ boundsOf m'.segments)
    {s : Interval × OrderedSet α} (hs : s ∈ m.segments) : s ∈ m'.segments := by
  have hIn := Interval.contains_lower (h.proper s hs)
  obtain ⟨t, ht⟩ := List.isEmpty_eq_false_iff_exists_mem.1 (h.tagged s hs)
  obtain ⟨s', hs', hIn', -⟩ := (hCovers s.1.lower t).1 ⟨s, hs, hIn, ht⟩
  obtain ⟨hFrom, hTo⟩ := Interval.contains_iff.1 hIn'
  -- the bounds of each segment are bounds of the other map, so they do not lie inside the other
  have hLower : s.1.lower = s'.1.lower := by
    rcases h'.bound_outside hs' ((hBounds s.1.lower).1 (mem_boundsOf.2 ⟨s, hs, .inl rfl⟩)) with
      hBefore | hBehind
    · exact Std.le_antisymm hBefore hFrom
    · exact absurd (Std.lt_of_lt_of_le hTo hBehind) Std.lt_irrefl
  have hUpper : s.1.upper = s'.1.upper := by
    refine Std.le_antisymm ?_ ?_
    · rcases h.bound_outside hs ((hBounds s'.1.upper).2 (mem_boundsOf.2 ⟨s', hs', .inr rfl⟩)) with
        hBefore | hBehind
      · exact absurd (Std.lt_of_lt_of_le hTo hBefore) Std.lt_irrefl
      · exact hBehind
    · rcases h'.bound_outside hs' ((hBounds s.1.upper).1 (mem_boundsOf.2 ⟨s, hs, .inr rfl⟩)) with
        hBefore | hBehind
      · exact absurd (Std.lt_of_lt_of_le (h.proper s hs) (hLower ▸ hBefore)) Std.lt_irrefl
      · exact hBehind
  have hTags : s.2 = s'.2 := OrderedSet.ext_mem fun t => by
    rw [← covers_iff_of_mem h hs hIn, hCovers, covers_iff_of_mem h' hs' hIn']
  obtain ⟨⟨lower, upper⟩, tags⟩ := s
  obtain ⟨⟨lower', upper'⟩, tags'⟩ := s'
  simp only at hLower hUpper hTags
  exact hLower ▸ hUpper ▸ hTags ▸ hs'

/-- Two maps with the same bounds that cover the same are the same. -/
theorem eq_of_covers_of_bounds (h : m.WellFormed) (h' : m'.WellFormed)
    (hCovers : ∀ v t, m.Covers v t ↔ m'.Covers v t)
    (hBounds : ∀ c, c ∈ boundsOf m.segments ↔ c ∈ boundsOf m'.segments) : m = m' := by
  have : Std.Irrefl fun a b : Interval × OrderedSet α => a.1.lower < b.1.lower :=
    ⟨fun _ => Std.lt_irrefl⟩
  have : Std.Antisymm fun a b : Interval × OrderedSet α => a.1.lower < b.1.lower :=
    ⟨fun _ _ hab hba => absurd (Std.lt_trans hab hba) Std.lt_irrefl⟩
  have hSegments : m.segments = m'.segments := by
    refine h.lower_ascending.eq_of_mem_iff h'.lower_ascending fun s => ⟨?_, ?_⟩
    · exact mem_segments_of_covers h h' hCovers hBounds
    · exact mem_segments_of_covers h' h (fun v t => (hCovers v t).symm) fun c => (hBounds c).symm
  cases m
  cases m'
  exact congrArg SplitMap.mk hSegments

end Canonical

/-! ## How many segments there are -/

theorem finite_boundsOf (segments : List (Interval × OrderedSet α)) :
    {c | c ∈ boundsOf segments}.Finite :=
  List.finite_toSet (boundsOf segments)

/-- Every segment begins before the last one ends. -/
theorem WellFormed.lower_lt_last (h : m.WellFormed) {front : List (Interval × OrderedSet α)}
    {last s : Interval × OrderedSet α} (hSplit : m.segments = front ++ [last])
    (hs : s ∈ m.segments) : s.1.lower < last.1.upper := by
  have hLast : last ∈ m.segments := hSplit ▸ List.mem_append_right front List.mem_cons_self
  have hAscending := h.lower_ascending
  rw [hSplit] at hs hAscending
  rcases List.mem_append.1 hs with hFront | hEnd
  · have hBefore := (List.pairwise_append.1 hAscending).2.2 s hFront last List.mem_cons_self
    exact Std.lt_trans hBefore (h.proper last hLast)
  · rw [List.mem_singleton.1 hEnd]
    exact h.proper last hLast

/-- The segments begin at different bounds, and the last one ends at yet another. -/
theorem size_lt_of_bounds (h : m.WellFormed) (hSome : m.segments ≠ []) :
    m.size < {c | c ∈ boundsOf m.segments}.ncard := by
  obtain ⟨front, last, hSplit⟩ := (List.eq_nil_or_concat' m.segments).resolve_left hSome
  have hLast : last ∈ m.segments := hSplit ▸ List.mem_append_right front List.mem_cons_self
  have hLowers : (m.segments.map (·.1.lower)).Nodup :=
    List.pairwise_map.2 (h.lower_ascending.imp Std.ne_of_lt)
  have hNew : last.1.upper ∉ m.segments.map (·.1.lower) := by
    intro hMem
    obtain ⟨s, hs, hSame⟩ := List.mem_map.1 hMem
    exact Std.ne_of_lt (h.lower_lt_last hSplit hs) hSame
  calc m.size < (last.1.upper :: m.segments.map (·.1.lower)).length := by simp [size]
    _ = {c | c ∈ last.1.upper :: m.segments.map (·.1.lower)}.ncard :=
        (ncard_of_nodup (List.nodup_cons.2 ⟨hNew, hLowers⟩)).symm
    _ ≤ {c | c ∈ boundsOf m.segments}.ncard := by
        refine Set.ncard_le_ncard (fun c hc => ?_) (finite_boundsOf m.segments)
        rcases List.mem_cons.1 hc with rfl | hLower
        · exact mem_boundsOf.2 ⟨last, hLast, .inr rfl⟩
        · obtain ⟨s, hs, rfl⟩ := List.mem_map.1 hLower
          exact mem_boundsOf.2 ⟨s, hs, .inl rfl⟩

/-- Some intervals have at most twice as many bounds. -/
theorem ncard_bounds_le {intervals : Set Interval} {s : Set Version} (hFinite : intervals.Finite)
    (hBounds : ∀ c ∈ s, ∃ i ∈ intervals, c = i.lower ∨ c = i.upper) :
    s.ncard ≤ 2 * intervals.ncard := by
  have hEnds : s ⊆ Interval.lower '' intervals ∪ Interval.upper '' intervals := by
    intro c hc
    obtain ⟨i, hi, rfl | rfl⟩ := hBounds c hc
    · exact .inl ⟨i, hi, rfl⟩
    · exact .inr ⟨i, hi, rfl⟩
  have hLower := Set.ncard_image_le (f := Interval.lower) hFinite
  have hUpper := Set.ncard_image_le (f := Interval.upper) hFinite
  calc s.ncard
      ≤ (Interval.lower '' intervals ∪ Interval.upper '' intervals).ncard :=
        Set.ncard_le_ncard hEnds ((hFinite.image _).union (hFinite.image _))
    _ ≤ (Interval.lower '' intervals).ncard + (Interval.upper '' intervals).ncard :=
        Set.ncard_union_le _ _
    _ ≤ 2 * intervals.ncard := by omega

section Insertions

variable [Std.TransOrd α] [Std.LawfulEqOrd α]

/-- Only the entries with a proper interval matter for what insertions make of the empty map. -/
theorem insertAll_congr {l l' : List (Interval × α)}
    (hSame : ∀ e : Interval × α, e.1.isEmpty = false → (e ∈ l ↔ e ∈ l')) :
    (∅ : SplitMap α).insertAll l = (∅ : SplitMap α).insertAll l' := by
  refine eq_of_covers_of_bounds (wellFormed_insertAll l wellFormed_empty)
    (wellFormed_insertAll l' wellFormed_empty) (fun v t => ?_) fun c => ?_
  · simp only [covers_insertAll _ wellFormed_empty]
    refine or_congr_right (exists_congr fun e => and_congr_left ?_)
    rintro ⟨hIn, -⟩
    exact hSame e (Interval.isEmpty_eq_false_of_contains hIn)
  · rw [mem_boundsOf_insertAll_empty, mem_boundsOf_insertAll_empty]
    refine exists_congr fun e => and_congr_left ?_
    rintro ⟨hProper, -⟩
    exact hSame e hProper

/-- Insertions of `k` different intervals leave at most `2 * k - 1` segments, however many tags the
intervals are given and however often. -/
theorem size_insertAll_le (l : List (Interval × α))
    (hSome : 1 ≤ {i : Interval | i.isEmpty = false ∧ ∃ t, (i, t) ∈ l}.ncard) :
    ((∅ : SplitMap α).insertAll l).size ≤
      2 * {i : Interval | i.isEmpty = false ∧ ∃ t, (i, t) ∈ l}.ncard - 1 := by
  by_cases hEmpty : ((∅ : SplitMap α).insertAll l).segments = []
  · simp [size, hEmpty]
  · have hFinite : {i : Interval | i.isEmpty = false ∧ ∃ t, (i, t) ∈ l}.Finite := by
      refine (List.finite_toSet (l.map (·.1))).subset ?_
      rintro i ⟨-, t, ht⟩
      exact List.mem_map.2 ⟨(i, t), ht, rfl⟩
    have hFewer := size_lt_of_bounds (wellFormed_insertAll l wellFormed_empty) hEmpty
    have hBounds : {c | c ∈ boundsOf ((∅ : SplitMap α).insertAll l).segments}.ncard ≤
        2 * {i : Interval | i.isEmpty = false ∧ ∃ t, (i, t) ∈ l}.ncard := by
      refine ncard_bounds_le hFinite fun c hc => ?_
      obtain ⟨e, he, hProper, hEnd⟩ := (mem_boundsOf_insertAll_empty l).1 hc
      exact ⟨e.1, ⟨hProper, e.2, he⟩, hEnd⟩
    omega

end Insertions

/-- What insertions make of the empty map depends only on the set of their entries with a proper
interval: their order, repetitions and empty intervals leave no trace. Its segments begin and end
where these intervals do, at each of their bounds and nowhere else. So `k` different proper
intervals make at most `2 * k - 1` segments. -/
theorem insertAll_canonical {α : Type} [Ord α] [Std.TransOrd α] [Std.LawfulEqOrd α]
    (l l' : List (Interval × α)) :
    ((∀ e : Interval × α, e.1.isEmpty = false → (e ∈ l ↔ e ∈ l')) →
      (∅ : SplitMap α).insertAll l = (∅ : SplitMap α).insertAll l') ∧
    (∀ c, (∃ s ∈ ((∅ : SplitMap α).insertAll l).segments, c = s.1.lower ∨ c = s.1.upper) ↔
      ∃ e ∈ l, e.1.isEmpty = false ∧ (c = e.1.lower ∨ c = e.1.upper)) ∧
    ∀ k, {i : Interval | i.isEmpty = false ∧ ∃ t, (i, t) ∈ l}.ncard = k → 1 ≤ k →
      ((∅ : SplitMap α).insertAll l).size ≤ 2 * k - 1 := by
  refine ⟨insertAll_congr, fun c => ?_, ?_⟩
  · rw [← mem_boundsOf]
    exact mem_boundsOf_insertAll_empty l
  · rintro k rfl hSome
    exact size_insertAll_le l hSome

/-- Two intervals that overlap, and one inside both. -/
def crossingInsertions : List (Interval × Nat) :=
  [ (⟨⟨1, 0, 0⟩, ⟨3, 0, 0⟩⟩, 1)
  , (⟨⟨2, 0, 0⟩, ⟨4, 0, 0⟩⟩, 2)
  , (⟨⟨2, 3, 0⟩, ⟨2, 5, 0⟩⟩, 1) ]

/-- The same entries in another order, one of them twice, with an inverted interval among them. -/
def shuffledInsertions : List (Interval × Nat) :=
  [ (⟨⟨2, 3, 0⟩, ⟨2, 5, 0⟩⟩, 1)
  , (⟨⟨2, 0, 0⟩, ⟨4, 0, 0⟩⟩, 2)
  , (⟨⟨9, 0, 0⟩, ⟨8, 0, 0⟩⟩, 3)
  , (⟨⟨2, 3, 0⟩, ⟨2, 5, 0⟩⟩, 1)
  , (⟨⟨1, 0, 0⟩, ⟨3, 0, 0⟩⟩, 1) ]

theorem insertAll_canonical_shuffled :
    (∅ : SplitMap Nat).insertAll crossingInsertions =
      (∅ : SplitMap Nat).insertAll shuffledInsertions ∧
    ((∅ : SplitMap Nat).insertAll crossingInsertions).size = 5 ∧
    (∃ s ∈ ((∅ : SplitMap Nat).insertAll crossingInsertions).segments,
      ⟨2, 5, 0⟩ = s.1.lower ∨ ⟨2, 5, 0⟩ = s.1.upper) ∧
    {i : Interval | i.isEmpty = false ∧ ∃ t, (i, t) ∈ crossingInsertions}.ncard = 3 ∧
    ((∅ : SplitMap Nat).insertAll crossingInsertions).size ≤ 2 * 3 - 1 := by
  obtain ⟨hSame, hBounds, hSize⟩ := insertAll_canonical crossingInsertions shuffledInsertions
  have hKept : ∀ e ∈ crossingInsertions, e ∈ shuffledInsertions := by decide +kernel
  have hAdded : ∀ e ∈ shuffledInsertions, e.1.isEmpty = false → e ∈ crossingInsertions := by
    decide +kernel
  have hProper : ∀ e ∈ crossingInsertions, e.1.isEmpty = false := by decide +kernel
  have hIntervals : {i : Interval | i.isEmpty = false ∧ ∃ t, (i, t) ∈ crossingInsertions} =
      {i | i ∈ crossingInsertions.map (·.1)} := by
    ext i
    constructor
    · rintro ⟨-, t, ht⟩
      exact List.mem_map.2 ⟨(i, t), ht, rfl⟩
    · intro hi
      obtain ⟨e, he, rfl⟩ := List.mem_map.1 hi
      exact ⟨hProper e he, e.2, he⟩
  have hCount :
      {i : Interval | i.isEmpty = false ∧ ∃ t, (i, t) ∈ crossingInsertions}.ncard = 3 := by
    rw [hIntervals, ncard_of_nodup (by decide +kernel)]
    rfl
  refine ⟨hSame fun e hEntry => ⟨hKept e, fun he => hAdded e he hEntry⟩, ?_, ?_, hCount, ?_⟩
  · decide +kernel
  · exact (hBounds ⟨2, 5, 0⟩).2 (by decide +kernel)
  · exact hSize 3 hCount (by decide)

end PackageManager.SplitMap
