import PackageManager.Proofs.Interval.SplitMap

/-!
# Split maps after any insertions

A split map only ever grows by insertions, and each of them rebuilds its segments. This module says
what can be read off the segments after any number of them: the tags of exactly those intervals that
contain a version, whatever order they came in and however they overlap.

## Main results

* `tagsAt_eq_some`, `tagsAt_eq_none_iff` — looking up a version finds the tags that cover it.
* `segments_exact` — after any insertions the segments are in order and without overlaps, and
  looking up a version finds exactly the tags of the inserted intervals that contain it.
-/

namespace PackageManager.SplitMap

section Lookup

variable {α : Type} [Ord α] {m : SplitMap α} {v : Version}

/-- What is found for a version are the tags that cover it. -/
theorem tagsAt_eq_some (h : m.WellFormed) {tags : OrderedSet α} (hTags : m.tagsAt v = some tags)
    (t : α) : t ∈ tags ↔ m.Covers v t := by
  obtain ⟨s, hFind, rfl⟩ := Option.map_eq_some_iff.1 hTags
  have hs : s ∈ m.segments := List.mem_of_find?_eq_some hFind
  have hIn : s.1.contains v := by simpa using List.find?_some hFind
  exact (covers_iff_of_mem h hs hIn t).symm

/-- Nothing is found for a version iff no tag covers it, as no segment is without tags. -/
theorem tagsAt_eq_none_iff (h : m.WellFormed) : m.tagsAt v = none ↔ ∀ t, ¬m.Covers v t := by
  rw [tagsAt, Option.map_eq_none_iff, List.find?_eq_none]
  constructor
  · rintro hNone t ⟨s, hs, hIn, -⟩
    exact hNone s hs hIn
  · intro hNone s hs hIn
    obtain ⟨t, ht⟩ := List.isEmpty_eq_false_iff_exists_mem.1 (h.tagged s hs)
    exact hNone t ⟨s, hs, hIn, ht⟩

/-- A tag is found for a version iff it covers it. -/
theorem exists_mem_tagsAt_iff (h : m.WellFormed) (t : α) :
    (∃ tags, m.tagsAt v = some tags ∧ t ∈ tags) ↔ m.Covers v t := by
  constructor
  · rintro ⟨tags, hTags, ht⟩
    exact (tagsAt_eq_some h hTags t).1 ht
  · intro hCovers
    cases hTags : m.tagsAt v with
    | none => exact absurd hCovers ((tagsAt_eq_none_iff h).1 hTags t)
    | some tags => exact ⟨tags, rfl, (tagsAt_eq_some h hTags t).2 hCovers⟩

/-- A tag of a segment covers the first version of the segment. -/
theorem WellFormed.covers_lower (h : m.WellFormed) {s : Interval × OrderedSet α}
    (hs : s ∈ m.segments) {t : α} (ht : t ∈ s.2) : m.Covers s.1.lower t :=
  ⟨s, hs, Interval.contains_lower (h.proper s hs), ht⟩

end Lookup

/-- Whatever intervals have been inserted, each segment has a version and a tag, the segments ascend
and no version lies in two of them. What is found for a version are exactly the tags of the inserted
intervals that contain it, and nothing is found iff there is no such interval. -/
theorem segments_exact {α : Type} [Ord α] [Std.TransOrd α] [Std.LawfulEqOrd α]
    (l : List (Interval × α)) :
    (∀ s ∈ ((∅ : SplitMap α).insertAll l).segments,
      s.1.isEmpty = false ∧ s.2.isEmpty = false) ∧
    ((∅ : SplitMap α).insertAll l).segments.Pairwise (fun a b =>
      a.1.lower < b.1.lower ∧ ∀ v, ¬(a.1.contains v ∧ b.1.contains v)) ∧
    ∀ v,
      (∀ tags, ((∅ : SplitMap α).insertAll l).tagsAt v = some tags →
        ∀ t, t ∈ tags ↔ ∃ e ∈ l, e.1.contains v ∧ e.2 = t) ∧
      (((∅ : SplitMap α).insertAll l).tagsAt v = none ↔ ∀ e ∈ l, ¬e.1.contains v) := by
  have h : ((∅ : SplitMap α).insertAll l).WellFormed := wellFormed_insertAll l wellFormed_empty
  have hCovers : ∀ v t, ((∅ : SplitMap α).insertAll l).Covers v t ↔
      ∃ e ∈ l, e.1.contains v ∧ e.2 = t := by
    intro v t
    rw [covers_insertAll l wellFormed_empty]
    simp
  refine ⟨fun s hs => ?_, ?_, fun v => ⟨fun tags hTags t => ?_, ?_⟩⟩
  · exact ⟨Interval.isEmpty_eq_false_iff.2 (h.proper s hs), h.tagged s hs⟩
  · exact h.lower_ascending.and h.disjoint
  · rw [tagsAt_eq_some h hTags, hCovers]
  · rw [tagsAt_eq_none_iff h]
    constructor
    · intro hNone e he hIn
      exact hNone e.2 ((hCovers v e.2).2 ⟨e, he, hIn, rfl⟩)
    · intro hNone t hCover
      obtain ⟨e, he, hIn, -⟩ := (hCovers v t).1 hCover
      exact hNone e he hIn

/-- Intervals that overlap, that touch, that repeat a tag, and one that is inverted. -/
def overlappingInsertions : List (Interval × Nat) :=
  [ (⟨⟨3, 0, 0⟩, ⟨4, 0, 1⟩⟩, 1)
  , (⟨⟨3, 5, 0⟩, ⟨4, 5, 1⟩⟩, 2)
  , (⟨⟨4, 5, 1⟩, ⟨5, 0, 0⟩⟩, 1)
  , (⟨⟨9, 0, 0⟩, ⟨8, 0, 0⟩⟩, 3) ]

theorem segments_exact_overlapping :
    ((∅ : SplitMap Nat).insertAll overlappingInsertions).size = 4 ∧
    (∃ tags, ((∅ : SplitMap Nat).insertAll overlappingInsertions).tagsAt ⟨3, 7, 0⟩ = some tags ∧
      ∀ t, t ∈ tags ↔ ∃ e ∈ overlappingInsertions, e.1.contains ⟨3, 7, 0⟩ ∧ e.2 = t) ∧
    ((∅ : SplitMap Nat).insertAll overlappingInsertions).tagsAt ⟨8, 5, 0⟩ = none := by
  obtain ⟨-, -, hLookup⟩ := segments_exact overlappingInsertions
  have hSize : ((∅ : SplitMap Nat).insertAll overlappingInsertions).size = 4 := by decide +kernel
  have hFound : ((∅ : SplitMap Nat).insertAll overlappingInsertions).tagsAt ⟨3, 7, 0⟩ =
      some (.ofList [1, 2]) := by decide +kernel
  have hNone : ∀ e ∈ overlappingInsertions, ¬e.1.contains ⟨8, 5, 0⟩ := by decide +kernel
  exact ⟨hSize, ⟨_, hFound, (hLookup _).1 _ hFound⟩, (hLookup _).2.2 hNone⟩

end PackageManager.SplitMap
