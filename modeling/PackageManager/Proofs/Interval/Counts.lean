import PackageManager.Proofs.Interval.SplitMap
import PackageManager.Proofs.Ordered.Size

/-!
# Joining segments by the number of their tags

What several packages agree on is read off a split map by joining the segments with enough tags. A
version is in at most one segment, and the tags of that are all that cover it, so counting the tags
of a segment counts the tags of each version in it.

## Main results

* `WellFormed.size_eq_ncard` — a segment has as many tags as cover any version in it.
* `joined_exact` — after any insertions the joined intervals hold the versions that enough tags
  cover, and no other intervals do that without touching each other.
-/

namespace PackageManager.SplitMap

section Joined

variable {α : Type} [Ord α] [Std.TransOrd α] {m : SplitMap α} {v : Version}

/-- The tags of a segment are all that cover a version in it. -/
theorem WellFormed.size_eq_ncard (h : m.WellFormed) {s : Interval × OrderedSet α}
    (hs : s ∈ m.segments) (hv : s.1.contains v) : s.2.size = {t | m.Covers v t}.ncard := by
  have hTags : {t | m.Covers v t} = {t | t ∈ s.2} := Set.ext (covers_iff_of_mem h hs hv)
  rw [hTags, s.2.ncard_eq_size]

/-- A version lies in a joined interval iff enough tags cover it. If none are asked for, versions in
no segment would count as well, so the number must not be zero. -/
theorem within_joined_iff (h : m.WellFormed) {n : Nat} (hn : 1 ≤ n) :
    Within (m.joined n) v ↔ n ≤ {t | m.Covers v t}.ncard := by
  rw [within_joined h]
  constructor
  · rintro ⟨s, hs, hCount, hIn⟩
    exact h.size_eq_ncard hs hIn ▸ hCount
  · intro hCount
    have hSome : {t | m.Covers v t}.ncard ≠ 0 := by omega
    obtain ⟨t, s, hs, hIn, -⟩ := Set.nonempty_of_ncard_ne_zero hSome
    exact ⟨s, hs, (h.size_eq_ncard hs hIn).symm ▸ hCount, hIn⟩

end Joined

/-- Whatever intervals have been inserted, those that are joined at a number are proper, ascend and
do not touch each other, and a version lies in one of them iff it lies in inserted intervals of at
least that many different tags. There is no other such list, so none of them could be longer. -/
theorem joined_exact {α : Type} [Ord α] [Std.TransOrd α] [Std.LawfulEqOrd α]
    (l : List (Interval × α)) {n : Nat} (hn : 1 ≤ n) :
    (∀ i ∈ ((∅ : SplitMap α).insertAll l).joined n, i.isEmpty = false) ∧
    (((∅ : SplitMap α).insertAll l).joined n).Pairwise (fun a b => a.upper < b.lower) ∧
    (∀ v, (∃ i ∈ ((∅ : SplitMap α).insertAll l).joined n, i.contains v) ↔
      n ≤ {t | ∃ e ∈ l, e.1.contains v ∧ e.2 = t}.ncard) ∧
    ∀ other : List Interval, (∀ i ∈ other, i.isEmpty = false) →
      other.Pairwise (fun a b => a.upper < b.lower) →
      (∀ v, (∃ i ∈ other, i.contains v) ↔ n ≤ {t | ∃ e ∈ l, e.1.contains v ∧ e.2 = t}.ncard) →
      other = ((∅ : SplitMap α).insertAll l).joined n := by
  have h : ((∅ : SplitMap α).insertAll l).WellFormed := wellFormed_insertAll l wellFormed_empty
  have hApart := apart_joined h n
  have hWithin : ∀ v, Within (((∅ : SplitMap α).insertAll l).joined n) v ↔
      n ≤ {t | ∃ e ∈ l, e.1.contains v ∧ e.2 = t}.ncard := by
    intro v
    rw [within_joined_iff h hn]
    simp only [covers_insertAll l wellFormed_empty, not_covers_empty, false_or]
  refine ⟨fun i hi => Interval.isEmpty_eq_false_iff.2 (hApart.proper i hi), hApart.ascending,
    hWithin, fun other hProper hAscending hSame => ?_⟩
  have hOther : Apart other :=
    ⟨fun i hi => Interval.isEmpty_eq_false_iff.1 (hProper i hi), hAscending⟩
  exact eq_of_apart hOther hApart fun v => (hSame v).trans (hWithin v).symm

/-- Two tags with one interval, and a third one inside it. -/
def nestedInsertions : List (Interval × Nat) :=
  [ (⟨⟨1, 0, 0⟩, ⟨3, 0, 0⟩⟩, 1)
  , (⟨⟨1, 0, 0⟩, ⟨3, 0, 0⟩⟩, 2)
  , (⟨⟨2, 0, 0⟩, ⟨2, 5, 0⟩⟩, 3) ]

theorem joined_exact_nested :
    1 ≤ 2 ∧ ((∅ : SplitMap Nat).insertAll nestedInsertions).size = 3 ∧
    ((∅ : SplitMap Nat).insertAll nestedInsertions).joined 2 = [⟨⟨1, 0, 0⟩, ⟨3, 0, 0⟩⟩] ∧
    2 ≤ {t | ∃ e ∈ nestedInsertions, e.1.contains ⟨2, 7, 0⟩ ∧ e.2 = t}.ncard ∧
    ¬3 ≤ {t | ∃ e ∈ nestedInsertions, e.1.contains ⟨2, 7, 0⟩ ∧ e.2 = t}.ncard := by
  obtain ⟨-, -, hTwo, -⟩ := joined_exact nestedInsertions (by decide : 1 ≤ 2)
  obtain ⟨-, -, hThree, -⟩ := joined_exact nestedInsertions (by decide : 1 ≤ 3)
  refine ⟨by decide, by decide +kernel, by decide +kernel, (hTwo _).1 ?_, fun hCount => ?_⟩
  · decide +kernel
  · exact absurd ((hThree _).2 hCount) (by decide +kernel)

end PackageManager.SplitMap
