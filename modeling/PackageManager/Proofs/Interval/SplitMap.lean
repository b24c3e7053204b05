import Mathlib.Data.List.Pairwise
import Mathlib.Data.List.Perm.Subperm
import PackageManager.Interval.SplitMap
import PackageManager.Proofs.Interval.Apart

/-!
# What split maps cover

A map is a list of segments, but all that is asked of it is which tags cover a version. `Covers` is
that view, and this module says what each operation does to it.

## Why a sweep is right

The bounds that cut the versions into pieces include those of every old segment. So a bound never
lies inside a piece, and a piece that begins in a segment, or in the new interval, also ends in it:
what covers the first version of a piece covers all of it. The sweep only looks at first versions.

## Main results

* `wellFormed_insert`, `covers_insert` — an insertion keeps the segments in order, and adds exactly
  the new tag on exactly the versions of the new interval.
* `wellFormed_insertAll`, `covers_insertAll` — so do any number of insertions, one after the other.
* `apart_joined`, `within_joined` — the joined intervals lie apart, and a version lies in one of
  them iff it lies in a segment with enough tags.
* `within_joined_length` — if there are no other tags than some, joining at their number leaves the
  versions that each of them covers.
-/

namespace PackageManager

namespace SplitMap

variable {α : Type} [Ord α]

/-- A tag covers a version. -/
def Covers (m : SplitMap α) (v : Version) (t : α) : Prop :=
  ∃ s ∈ m.segments, s.1.contains v ∧ t ∈ s.2

/-- The segments of a map are proper intervals in ascending order, each with a tag. -/
structure WellFormed (m : SplitMap α) : Prop where
  proper : ∀ s ∈ m.segments, s.1.lower < s.1.upper
  ascending : m.segments.Pairwise fun a b => a.1.upper ≤ b.1.lower
  tagged : ∀ s ∈ m.segments, s.2.isEmpty = false

theorem wellFormed_empty : (∅ : SplitMap α).WellFormed where
  proper := by intro s hs; cases hs
  ascending := .nil
  tagged := by intro s hs; cases hs

theorem WellFormed.lower_ascending {m : SplitMap α} (h : m.WellFormed) :
    m.segments.Pairwise fun a b => a.1.lower < b.1.lower :=
  h.ascending.imp_of_mem fun ha _ hab => Std.lt_of_lt_of_le (h.proper _ ha) hab

@[simp] theorem not_covers_empty (v : Version) (t : α) : ¬(∅ : SplitMap α).Covers v t := by
  rintro ⟨s, hs, -⟩
  cases hs

/-! ## Pieces between bounds -/

section Between

variable {bounds : List Version}

theorem head_le_of_mem {b c : Version} {rest : List Version}
    (hSorted : (b :: rest).Pairwise (· < ·)) (hc : c ∈ b :: rest) : b ≤ c := by
  rcases List.mem_cons.1 hc with rfl | hc
  · exact Std.le_refl c
  · exact Std.le_of_lt ((List.pairwise_cons.1 hSorted).1 c hc)

/-- A piece begins and ends at bounds, and no bound lies inside it. -/
theorem bound_of_mem_between (hSorted : bounds.Pairwise (· < ·)) {p : Interval}
    (hp : p ∈ between bounds) :
    p.lower < p.upper ∧ p.lower ∈ bounds ∧ ∀ c ∈ bounds, c ≤ p.lower ∨ p.upper ≤ c := by
  fun_induction between bounds with
  | case1 a b rest ih =>
      obtain ⟨ha, hTail⟩ := List.pairwise_cons.1 hSorted
      rcases List.mem_cons.1 hp with rfl | hp
      · refine ⟨ha b (by simp), by simp, fun c hc => ?_⟩
        -- any other bound than the first is the second or behind it
        rcases List.mem_cons.1 hc with rfl | hc
        · exact .inl (Std.le_refl c)
        · exact .inr (head_le_of_mem hTail hc)
      · obtain ⟨hProper, hLower, hBound⟩ := ih hTail hp
        refine ⟨hProper, List.mem_cons_of_mem a hLower, fun c hc => ?_⟩
        rcases List.mem_cons.1 hc with rfl | hc
        · exact .inl (Std.le_of_lt (ha p.lower hLower))
        · exact hBound c hc
  | case2 => cases hp

/-- The pieces follow each other. -/
theorem between_ascending (hSorted : bounds.Pairwise (· < ·)) :
    (between bounds).Pairwise fun p q => p.upper ≤ q.lower := by
  fun_induction between bounds with
  | case1 a b rest ih =>
      have hTail := (List.pairwise_cons.1 hSorted).2
      refine List.pairwise_cons.2 ⟨fun q hq => ?_, ih hTail⟩
      exact head_le_of_mem hTail (bound_of_mem_between hTail hq).2.1
  | case2 => exact .nil

/-- A version between two bounds lies in a piece. -/
theorem exists_mem_between {v a b : Version} (ha : a ∈ bounds) (hb : b ∈ bounds) (hav : a ≤ v)
    (hvb : v < b) (hSorted : bounds.Pairwise (· < ·)) : ∃ p ∈ between bounds, p.contains v := by
  fun_induction between bounds generalizing a with
  | case1 x y rest ih =>
      have hTail := (List.pairwise_cons.1 hSorted).2
      have hxv : x ≤ v := Std.le_trans (head_le_of_mem hSorted ha) hav
      by_cases hFirst : v < y
      · exact ⟨⟨x, y⟩, by simp, Interval.contains_iff.2 ⟨hxv, hFirst⟩⟩
      · have hRest : b ∈ y :: rest := by
          rcases List.mem_cons.1 hb with rfl | hb
          · exact absurd (Std.lt_of_le_of_lt hxv hvb) Std.lt_irrefl
          · exact hb
        obtain ⟨p, hp, hpv⟩ := ih (by simp) hRest (Std.not_lt.1 hFirst) hTail
        exact ⟨p, List.mem_cons_of_mem _ hp, hpv⟩
  | case2 l hShort =>
      exfalso
      match l, hShort with
      | [], _ => cases ha
      | [c], _ =>
          obtain rfl := List.mem_singleton.1 ha
          obtain rfl := List.mem_singleton.1 hb
          exact Std.lt_irrefl (Std.lt_of_le_of_lt hav hvb)
      | c :: d :: rest, hShort => exact hShort c d rest rfl

end Between

/-- The bounds of the pieces of an insertion. -/
def cuts (m : SplitMap α) (i : Interval) : List Version :=
  (OrderedSet.ofList (boundsOf m.segments ++ [i.lower, i.upper])).toList

theorem cuts_sorted (m : SplitMap α) (i : Interval) : (m.cuts i).Pairwise (· < ·) :=
  (OrderedSet.ofList (boundsOf m.segments ++ [i.lower, i.upper])).ascending

theorem mem_cuts {m : SplitMap α} {i : Interval} {c : Version} :
    c ∈ m.cuts i ↔
      (∃ s ∈ m.segments, c = s.1.lower ∨ c = s.1.upper) ∨ c = i.lower ∨ c = i.upper := by
  rw [cuts, OrderedSet.mem_toList, OrderedSet.mem_ofList]
  simp [boundsOf]

/-- An interval that begins and ends at bounds contains all of a piece or nothing of it. -/
theorem contains_iff_of_mem_between {m : SplitMap α} {i j p : Interval} {v : Version}
    (hLower : j.lower ∈ m.cuts i) (hUpper : j.upper ∈ m.cuts i) (hp : p ∈ between (m.cuts i))
    (hv : p.contains v) :
    j.contains v ↔ j.lower ≤ p.lower ∧ p.upper ≤ j.upper := by
  obtain ⟨-, -, hBound⟩ := bound_of_mem_between (m.cuts_sorted i) hp
  obtain ⟨hFrom, hTo⟩ := Interval.contains_iff.1 hv
  rw [Interval.contains_iff]
  constructor
  · rintro ⟨hjv, hvj⟩
    -- the version lies between each bound of the interval and the far end of the piece
    constructor
    · rcases hBound j.lower hLower with hBefore | hBehind
      · exact hBefore
      · exact absurd (Std.lt_of_lt_of_le hTo (Std.le_trans hBehind hjv)) Std.lt_irrefl
    · rcases hBound j.upper hUpper with hBefore | hBehind
      · exact absurd (Std.lt_of_lt_of_le hvj (Std.le_trans hBefore hFrom)) Std.lt_irrefl
      · exact hBehind
  · rintro ⟨hBegin, hEnd⟩
    exact ⟨Std.le_trans hBegin hFrom, Std.lt_of_lt_of_le hTo hEnd⟩

theorem lower_mem_cuts {m : SplitMap α} {i : Interval} {s : Interval × OrderedSet α}
    (hs : s ∈ m.segments) : s.1.lower ∈ m.cuts i :=
  mem_cuts.2 (.inl ⟨s, hs, .inl rfl⟩)

theorem upper_mem_cuts {m : SplitMap α} {i : Interval} {s : Interval × OrderedSet α}
    (hs : s ∈ m.segments) : s.1.upper ∈ m.cuts i :=
  mem_cuts.2 (.inl ⟨s, hs, .inr rfl⟩)

/-- A version that a tag covers, or that lies in the new interval, lies in a piece. -/
theorem exists_piece {m : SplitMap α} {i : Interval} {v : Version} {t : α}
    (hv : m.Covers v t ∨ i.contains v) : ∃ p ∈ between (m.cuts i), p.contains v := by
  rcases hv with ⟨s, hs, hIn, -⟩ | hIn
  · obtain ⟨hFrom, hTo⟩ := Interval.contains_iff.1 hIn
    exact exists_mem_between (lower_mem_cuts hs) (upper_mem_cuts hs) hFrom hTo (m.cuts_sorted i)
  · obtain ⟨hFrom, hTo⟩ := Interval.contains_iff.1 hIn
    exact exists_mem_between (mem_cuts.2 (.inr (.inl rfl))) (mem_cuts.2 (.inr (.inr rfl))) hFrom hTo
      (m.cuts_sorted i)

/-! ## The sweep -/

/-- The tags of the old segment that a piece begins in. -/
def tagsBefore (old : List (Interval × OrderedSet α)) (piece : Interval) : OrderedSet α :=
  tagsOfFirst (old.dropWhile fun s => s.1.upper ≤ piece.lower) piece

/-- Among ascending segments only one can be begun in, and it is the first that has not ended. -/
theorem mem_tagsBefore {old : List (Interval × OrderedSet α)}
    (hAscending : old.Pairwise fun a b => a.1.upper ≤ b.1.lower) {piece : Interval} {t : α} :
    t ∈ tagsBefore old piece ↔ ∃ s ∈ old, s.1.contains piece.lower ∧ t ∈ s.2 := by
  induction old with
  | nil => simp [tagsBefore, tagsOfFirst]
  | cons s rest ih =>
      obtain ⟨hNext, hTail⟩ := List.pairwise_cons.1 hAscending
      by_cases hEnded : s.1.upper ≤ piece.lower
      · have hDrop : tagsBefore (s :: rest) piece = tagsBefore rest piece := by
          simp [tagsBefore, hEnded]
        have hOut : ¬s.1.contains piece.lower := fun hIn =>
          Std.lt_irrefl (Std.lt_of_lt_of_le (Interval.contains_iff.1 hIn).2 hEnded)
        rw [hDrop, ih hTail, List.exists_mem_cons_iff]
        tauto
      · have hFirst : tagsBefore (s :: rest) piece =
            if s.1.lower ≤ piece.lower then s.2 else ∅ := by
          simp [tagsBefore, tagsOfFirst, hEnded]
        have hOpen : piece.lower < s.1.upper := Std.not_le.1 hEnded
        have hOut : ¬∃ r ∈ rest, r.1.contains piece.lower ∧ t ∈ r.2 := by
          rintro ⟨r, hr, hIn, -⟩
          have hBegun : r.1.lower ≤ piece.lower := (Interval.contains_iff.1 hIn).1
          exact hEnded (Std.le_trans (hNext r hr) hBegun)
        rw [hFirst, List.exists_mem_cons_iff, or_iff_left hOut]
        split
        · next hBegun =>
            have hIn : s.1.contains piece.lower := Interval.contains_iff.2 ⟨hBegun, hOpen⟩
            tauto
        · next hLater =>
            have hNotIn : ¬s.1.contains piece.lower := fun hIn =>
              hLater (Interval.contains_iff.1 hIn).1
            have hNone : t ∉ (∅ : OrderedSet α) := OrderedSet.not_mem_empty t
            tauto

section Insertion

variable [Std.TransOrd α]

/-- The tags of a piece once `i` is tagged. -/
def tagsAfter (i : Interval) (tag : α) (old : List (Interval × OrderedSet α)) (piece : Interval) :
    OrderedSet α :=
  if i.lower ≤ piece.lower ∧ piece.upper ≤ i.upper then (tagsBefore old piece).insert tag
  else tagsBefore old piece

/-- What is dropped for one piece would be dropped for each later one. -/
theorem tagsAfter_dropWhile {i : Interval} {tag : α} {old : List (Interval × OrderedSet α)}
    {p q : Interval} (hpq : p.lower ≤ q.lower) :
    tagsAfter i tag (old.dropWhile fun s => s.1.upper ≤ p.lower) q = tagsAfter i tag old q := by
  have hDrop : tagsBefore (old.dropWhile fun s => s.1.upper ≤ p.lower) q = tagsBefore old q := by
    unfold tagsBefore
    congr 1
    induction old with
    | nil => rfl
    | cons s rest ih =>
        by_cases hp : s.1.upper ≤ p.lower
        · have hq : s.1.upper ≤ q.lower := Std.le_trans hp hpq
          simpa [hp, hq] using ih
        · simp [hp]
  simp only [tagsAfter, hDrop]

/-- What a piece adds to the segments. -/
def segmentOf (i : Interval) (tag : α) (old : List (Interval × OrderedSet α)) (piece : Interval) :
    Option (Interval × OrderedSet α) :=
  if (tagsAfter i tag old piece).isEmpty then none else some (piece, tagsAfter i tag old piece)

/-- The sweep treats each of some ascending pieces as if it had begun with that. -/
theorem sweep_eq_filterMap (i : Interval) (tag : α) (old : List (Interval × OrderedSet α))
    {pieces : List Interval} (hAscending : pieces.Pairwise fun p q => p.lower ≤ q.lower) :
    sweep i tag old pieces = pieces.filterMap (segmentOf i tag old) := by
  induction pieces generalizing old with
  | nil => rfl
  | cons p pieces ih =>
      obtain ⟨hNext, hTail⟩ := List.pairwise_cons.1 hAscending
      have hRest : sweep i tag (old.dropWhile fun s => s.1.upper ≤ p.lower) pieces =
          pieces.filterMap (segmentOf i tag old) := by
        rw [ih _ hTail]
        refine List.filterMap_congr fun q hq => ?_
        simp only [segmentOf, tagsAfter_dropWhile (hNext q hq)]
      rw [List.filterMap_cons, ← hRest]
      show (if (tagsAfter i tag old p).isEmpty then _ else _) = _
      unfold segmentOf
      split <;> rfl

/-! ## Insertions -/

theorem segments_insert {m : SplitMap α} {i : Interval} (hi : i.lower < i.upper) (tag : α) :
    (m.insert i tag).segments = (between (m.cuts i)).filterMap (segmentOf i tag m.segments) := by
  have hNonempty : i.isEmpty = false := Interval.isEmpty_eq_false_iff.2 hi
  have hAscending : (between (m.cuts i)).Pairwise fun p q => p.lower ≤ q.lower := by
    refine (between_ascending (m.cuts_sorted i)).imp_of_mem fun hp _ hpq => ?_
    have hProper := (bound_of_mem_between (m.cuts_sorted i) hp).1
    exact Std.le_trans (Std.le_of_lt hProper) hpq
  simp only [insert, hNonempty]
  exact sweep_eq_filterMap i tag m.segments hAscending

theorem insert_of_isEmpty {m : SplitMap α} {i : Interval} (hi : i.isEmpty = true) (tag : α) :
    m.insert i tag = m := by
  simp [insert, hi]

/-- The segments after an insertion are the pieces with tags. -/
theorem mem_segments_insert {m : SplitMap α} {i : Interval} (hi : i.lower < i.upper) {tag : α}
    {s : Interval × OrderedSet α} : s ∈ (m.insert i tag).segments ↔
      s.1 ∈ between (m.cuts i) ∧ s.2 = tagsAfter i tag m.segments s.1 ∧ s.2.isEmpty = false := by
  rw [segments_insert hi tag, List.mem_filterMap]
  unfold segmentOf
  constructor
  · rintro ⟨p, hp, hs⟩
    split at hs
    · cases hs
    · next hNonempty =>
        cases hs
        exact ⟨hp, rfl, by simpa using hNonempty⟩
  · rintro ⟨hp, hTags, hNonempty⟩
    refine ⟨s.1, hp, ?_⟩
    rw [← hTags, hNonempty]
    rfl

/-- An insertion keeps the segments in order. -/
theorem wellFormed_insert {m : SplitMap α} (h : m.WellFormed) (i : Interval) (tag : α) :
    (m.insert i tag).WellFormed := by
  cases hi : i.isEmpty with
  | true => exact (insert_of_isEmpty hi tag).symm ▸ h
  | false =>
      have hProper := Interval.isEmpty_eq_false_iff.1 hi
      refine {
        proper := fun s hs =>
          (bound_of_mem_between (m.cuts_sorted i) ((mem_segments_insert hProper).1 hs).1).1
        ascending := ?_
        tagged := fun s hs => ((mem_segments_insert hProper).1 hs).2.2 }
      rw [segments_insert hProper tag]
      refine List.Pairwise.filterMap _ (fun p q hpq s hs r hr => ?_)
        (between_ascending (m.cuts_sorted i))
      unfold segmentOf at hs hr
      split at hs <;> split at hr <;> simp_all
      cases hs
      cases hr
      exact hpq

/-! ## What an insertion covers -/

variable {m : SplitMap α} {i : Interval}

/-- The tags of a piece are those that cover any version in it, with the new one if that does. -/
theorem mem_tagsAfter [Std.LawfulEqOrd α] (h : m.WellFormed) {tag t : α} {p : Interval}
    {v : Version} (hp : p ∈ between (m.cuts i)) (hv : p.contains v) :
    t ∈ tagsAfter i tag m.segments p ↔ m.Covers v t ∨ (i.contains v ∧ t = tag) := by
  have hFirst : p.contains p.lower :=
    Interval.contains_lower (bound_of_mem_between (m.cuts_sorted i) hp).1
  have hOld : t ∈ tagsBefore m.segments p ↔ m.Covers v t := by
    rw [mem_tagsBefore h.ascending]
    refine exists_congr fun s => and_congr_right fun hs => and_congr_left fun _ => ?_
    rw [contains_iff_of_mem_between (lower_mem_cuts hs) (upper_mem_cuts hs) hp hFirst,
      contains_iff_of_mem_between (lower_mem_cuts hs) (upper_mem_cuts hs) hp hv]
  have hNew := contains_iff_of_mem_between (j := i) (mem_cuts.2 (.inr (.inl rfl)))
    (mem_cuts.2 (.inr (.inr rfl))) hp hv
  unfold tagsAfter
  split
  · next hIn =>
      rw [OrderedSet.mem_insert, hOld, hNew]
      tauto
  · next hOut =>
      rw [hOld, hNew]
      tauto

/-- An insertion adds the new tag on the versions of the new interval, and nothing else. -/
theorem covers_insert [Std.LawfulEqOrd α] (h : m.WellFormed) {tag t : α} {v : Version} :
    (m.insert i tag).Covers v t ↔ m.Covers v t ∨ (i.contains v ∧ t = tag) := by
  cases hEmpty : i.isEmpty with
  | true =>
      have hNone : ¬i.contains v := by
        intro hIn
        have hProper := Interval.isEmpty_eq_false_of_contains hIn
        simp [hEmpty] at hProper
      rw [insert_of_isEmpty hEmpty]
      simp [hNone]
  | false =>
      have hi := Interval.isEmpty_eq_false_iff.1 hEmpty
      constructor
      · rintro ⟨s, hs, hIn, ht⟩
        obtain ⟨hp, hTags, -⟩ := (mem_segments_insert hi).1 hs
        rw [hTags] at ht
        exact (mem_tagsAfter h hp hIn).1 ht
      · intro hCover
        obtain ⟨p, hp, hIn⟩ := exists_piece (hCover.imp_right And.left)
        have ht : t ∈ tagsAfter i tag m.segments p := (mem_tagsAfter h hp hIn).2 hCover
        have hTagged := List.isEmpty_eq_false_iff_exists_mem.2 ⟨t, ht⟩
        exact ⟨(p, tagsAfter i tag m.segments p),
          (mem_segments_insert hi).2 ⟨hp, rfl, hTagged⟩, hIn, ht⟩

/-- The map with more tagged intervals, inserted one after another. -/
def insertAll (m : SplitMap α) (l : List (Interval × α)) : SplitMap α :=
  l.foldl (fun m e => m.insert e.1 e.2) m

theorem wellFormed_insertAll (l : List (Interval × α)) {m : SplitMap α} (h : m.WellFormed) :
    (m.insertAll l).WellFormed := by
  induction l generalizing m with
  | nil => exact h
  | cons e l ih => exact ih (wellFormed_insert h e.1 e.2)

/-- Insertions add each tag on the versions of its intervals. -/
theorem covers_insertAll [Std.LawfulEqOrd α] (l : List (Interval × α)) {t : α} {v : Version}
    {m : SplitMap α} (h : m.WellFormed) :
    (m.insertAll l).Covers v t ↔ m.Covers v t ∨ ∃ e ∈ l, e.1.contains v ∧ e.2 = t := by
  induction l generalizing m with
  | nil => simp [insertAll]
  | cons e l ih =>
      have hRest := ih (wellFormed_insert h e.1 e.2)
      show ((m.insert e.1 e.2).insertAll l).Covers v t ↔ _
      rw [hRest, covers_insert h, List.exists_mem_cons_iff, or_assoc, eq_comm (a := t)]

theorem foldl_insert_eq_insertAll (l : List Interval) (tag : α) (m : SplitMap α) :
    l.foldl (fun m i => m.insert i tag) m = m.insertAll (l.map (·, tag)) := by
  rw [insertAll, List.foldl_map]

theorem wellFormed_foldl_insert (l : List Interval) (tag : α) {m : SplitMap α}
    (h : m.WellFormed) : (l.foldl (fun m i => m.insert i tag) m).WellFormed := by
  rw [foldl_insert_eq_insertAll]
  exact wellFormed_insertAll _ h

/-- Intervals that are inserted under one tag add it on the versions in any of them. -/
theorem covers_foldl_insert [Std.LawfulEqOrd α] (l : List Interval) {tag t : α} {v : Version}
    {m : SplitMap α} (h : m.WellFormed) :
    (l.foldl (fun m i => m.insert i tag) m).Covers v t ↔ m.Covers v t ∨ (Within l v ∧ t = tag) := by
  rw [foldl_insert_eq_insertAll, covers_insertAll _ h]
  simp only [List.mem_map, exists_exists_and_eq_and, Within, eq_comm (a := t)]
  grind

end Insertion

/-! ## Joined intervals -/

/-- Intervals that lie apart, the last one first. -/
structure Stacked (result : List Interval) : Prop where
  proper : ∀ a ∈ result, a.lower < a.upper
  descending : result.Pairwise fun a b => b.upper < a.lower

theorem Stacked.apart_reverse {result : List Interval} (h : Stacked result) :
    Apart result.reverse where
  proper := fun a ha => h.proper a (List.mem_reverse.1 ha)
  ascending := List.pairwise_reverse.2 h.descending

theorem upper_of_mem_attach {result : List Interval} {a i : Interval} (ha : a ∈ attach result i) :
    a ∈ result ∨ a.upper = i.upper := by
  unfold attach at ha
  split at ha
  · next last rest =>
      split at ha
      · rcases List.mem_cons.1 ha with rfl | ha
        · exact .inr rfl
        · exact .inl (List.mem_cons_of_mem last ha)
      · rcases List.mem_cons.1 ha with rfl | ha
        · exact .inr rfl
        · exact .inl ha
  · exact .inr (List.mem_singleton.1 ha ▸ rfl)

theorem within_attach {result : List Interval} {i : Interval} (h : Stacked result)
    (hi : i.lower < i.upper) {v : Version} :
    Within (attach result i) v ↔ Within result v ∨ i.contains v := by
  unfold attach
  split
  · next last rest =>
      have hLast := h.proper last List.mem_cons_self
      split
      · next hTouch =>
          have hUnion : (⟨last.lower, i.upper⟩ : Interval).contains v ↔
              last.contains v ∨ i.contains v := by
            grind
          rw [within_cons, within_cons, hUnion]
          tauto
      · rw [within_cons]
        tauto
  · rw [within_cons]
    tauto

theorem Stacked.attach {result : List Interval} {i : Interval} (h : Stacked result)
    (hi : i.lower < i.upper) (hBehind : ∀ a ∈ result, a.upper ≤ i.lower) :
    Stacked (attach result i) := by
  unfold SplitMap.attach
  split
  · next last rest =>
      obtain ⟨hProper, hDescending⟩ := h
      obtain ⟨hNext, hTail⟩ := List.pairwise_cons.1 hDescending
      have hLast := hProper last List.mem_cons_self
      have hEnd := hBehind last List.mem_cons_self
      split
      · next hTouch =>
          refine ⟨fun a ha => ?_, List.pairwise_cons.2 ⟨hNext, hTail⟩⟩
          rcases List.mem_cons.1 ha with rfl | ha
          · show last.lower < i.upper
            exact Std.lt_of_lt_of_le hLast (Std.le_trans hEnd (Std.le_of_lt hi))
          · exact hProper a (List.mem_cons_of_mem last ha)
      · next hGap =>
          refine ⟨fun a ha => ?_, List.pairwise_cons.2 ⟨fun a ha => ?_, hDescending⟩⟩
          · rcases List.mem_cons.1 ha with rfl | ha
            · exact hi
            · exact hProper a ha
          · have hFront : last.upper < i.lower := Std.lt_of_le_of_ne hEnd hGap
            rcases List.mem_cons.1 ha with rfl | ha
            · exact hFront
            · exact Std.lt_trans (Std.lt_trans (hNext a ha) hLast) hFront
  · exact ⟨by simpa using hi, List.pairwise_singleton _ _⟩

/-- What joining some segments to intervals before them gives. -/
theorem stacked_foldl (n : Nat) {segments : List (Interval × OrderedSet α)}
    (hProper : ∀ s ∈ segments, s.1.lower < s.1.upper)
    (hAscending : segments.Pairwise fun a b => a.1.upper ≤ b.1.lower) {result : List Interval}
    (h : Stacked result) (hBehind : ∀ a ∈ result, ∀ s ∈ segments, a.upper ≤ s.1.lower) :
    Stacked (segments.foldl (fun l s => if s.2.size < n then l else attach l s.1) result) ∧
      ∀ v, Within (segments.foldl (fun l s => if s.2.size < n then l else attach l s.1) result) v ↔
        Within result v ∨ ∃ s ∈ segments, n ≤ s.2.size ∧ s.1.contains v := by
  induction segments generalizing result with
  | nil => exact ⟨h, by simp⟩
  | cons s rest ih =>
      obtain ⟨hNext, hTail⟩ := List.pairwise_cons.1 hAscending
      have hs := hProper s List.mem_cons_self
      have hRest : ∀ r ∈ rest, r.1.lower < r.1.upper := fun r hr =>
        hProper r (List.mem_cons_of_mem s hr)
      rw [List.foldl_cons]
      by_cases hFew : s.2.size < n
      · rw [if_pos hFew]
        obtain ⟨hStacked, hWithin⟩ := ih hRest hTail h fun a ha r hr =>
          hBehind a ha r (List.mem_cons_of_mem s hr)
        refine ⟨hStacked, fun v => ?_⟩
        rw [hWithin v, List.exists_mem_cons_iff]
        have hNot : ¬n ≤ s.2.size := by omega
        tauto
      · rw [if_neg hFew]
        have hFront : ∀ a ∈ result, a.upper ≤ s.1.lower := fun a ha =>
          hBehind a ha s List.mem_cons_self
        obtain ⟨hStacked, hWithin⟩ := ih hRest hTail (h.attach hs hFront) fun a ha r hr => by
          rcases upper_of_mem_attach ha with ha | ha
          · exact hBehind a ha r (List.mem_cons_of_mem s hr)
          · rw [ha]
            exact hNext r hr
        refine ⟨hStacked, fun v => ?_⟩
        rw [hWithin v, within_attach h hs, List.exists_mem_cons_iff]
        have hEnough : n ≤ s.2.size := by omega
        tauto

theorem stacked_nil : Stacked [] := ⟨by simp, .nil⟩

/-- The joined intervals do not touch each other. -/
theorem apart_joined {m : SplitMap α} (h : m.WellFormed) (n : Nat) : Apart (m.joined n) :=
  (stacked_foldl n h.proper h.ascending stacked_nil (by simp)).1.apart_reverse

/-- A version lies in a joined interval iff it lies in a segment with enough tags. -/
theorem within_joined {m : SplitMap α} (h : m.WellFormed) {n : Nat} {v : Version} :
    Within (m.joined n) v ↔ ∃ s ∈ m.segments, n ≤ s.2.size ∧ s.1.contains v := by
  have hWithin := (stacked_foldl n h.proper h.ascending stacked_nil (by simp)).2 v
  have hReverse : Within (m.joined n) v ↔
      Within (m.segments.foldl (fun l s => if s.2.size < n then l else attach l s.1) []) v := by
    simp [Within, joined]
  rw [hReverse, hWithin]
  simp [Within]

/-- No version lies in two segments. -/
theorem WellFormed.disjoint {m : SplitMap α} (h : m.WellFormed) :
    m.segments.Pairwise fun a b => ∀ v, ¬(a.1.contains v ∧ b.1.contains v) := by
  refine h.ascending.imp fun hab v ⟨ha, hb⟩ => ?_
  have hEnds := Std.lt_of_lt_of_le (Interval.contains_iff.1 ha).2 hab
  exact Std.lt_irrefl (Std.lt_of_lt_of_le hEnds (Interval.contains_iff.1 hb).1)

/-- At most one segment contains a version, so its tags are those that cover the version. -/
theorem covers_iff_of_mem {m : SplitMap α} (h : m.WellFormed) {s : Interval × OrderedSet α}
    (hs : s ∈ m.segments) {v : Version} (hv : s.1.contains v) (t : α) :
    m.Covers v t ↔ t ∈ s.2 := by
  refine ⟨fun ⟨r, hr, hIn, ht⟩ => ?_, fun ht => ⟨s, hs, hv, ht⟩⟩
  have : Std.Symm fun a b : Interval × OrderedSet α =>
      ∀ v, ¬(a.1.contains v ∧ b.1.contains v) :=
    ⟨fun a b hab v hba => hab v ⟨hba.2, hba.1⟩⟩
  by_cases hEq : r = s
  · exact hEq ▸ ht
  · exact absurd ⟨hIn, hv⟩ (h.disjoint.forall hr hs hEq v)

/-- If only the elements of a list can be tags, it is enough to count the tags. -/
theorem within_joined_length [Std.TransOrd α] {m : SplitMap α} (h : m.WellFormed) {tags : List α}
    (hNodup : tags.Nodup) (hNonempty : tags ≠ []) (hTags : ∀ v t, m.Covers v t → t ∈ tags)
    {v : Version} : Within (m.joined tags.length) v ↔ ∀ t ∈ tags, m.Covers v t := by
  rw [within_joined h]
  constructor
  · rintro ⟨s, hs, hCount, hIn⟩ t ht
    have hSubset : s.2.toList ⊆ tags := fun u hu =>
      hTags v u ((covers_iff_of_mem h hs hIn u).2 hu)
    have hPerm := (List.subperm_of_subset s.2.nodup hSubset).perm_of_length_le hCount
    exact (covers_iff_of_mem h hs hIn t).2 (hPerm.mem_iff.2 ht)
  · intro hAll
    obtain ⟨t, ht⟩ := List.exists_mem_of_ne_nil tags hNonempty
    obtain ⟨s, hs, hIn, -⟩ := hAll t ht
    refine ⟨s, hs, ?_, hIn⟩
    exact (List.subperm_of_subset hNodup fun u hu =>
      (covers_iff_of_mem h hs hIn u).1 (hAll u hu)).length_le

end SplitMap

end PackageManager
