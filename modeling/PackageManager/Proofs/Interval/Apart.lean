import Mathlib.Data.List.Basic
import PackageManager.Interval

/-!
# Intervals that lie apart

What is left of a requirement when others have been met is a list of intervals. It is read as a set
of versions (`Within`), and in the form in which it is given out, ascending and without two
intervals that touch, the set determines the list.

## Main results

* `Apart.lower_le`, `Apart.not_within_upper` — the first interval of such a list begins with the
  least version in any of them and ends before the first version in none.
* `eq_of_apart` — two such lists with the same versions are the same list.
-/

namespace PackageManager

namespace Interval

@[grind =] theorem contains_iff {i : Interval} {v : Version} :
    i.contains v = true ↔ i.lower ≤ v ∧ v < i.upper := by
  simp [contains]

@[grind =] theorem isEmpty_eq_false_iff {i : Interval} : i.isEmpty = false ↔ i.lower < i.upper := by
  simp [isEmpty, Std.not_le]

/-- An interval that is not empty contains its lower bound. -/
theorem contains_lower {i : Interval} (hProper : i.lower < i.upper) : i.contains i.lower :=
  contains_iff.2 ⟨Std.le_refl _, hProper⟩

/-- An interval that contains a version is not empty. -/
theorem isEmpty_eq_false_of_contains {i : Interval} {v : Version} (hIn : i.contains v) :
    i.isEmpty = false := by
  obtain ⟨hFrom, hTo⟩ := contains_iff.1 hIn
  exact isEmpty_eq_false_iff.2 (Std.lt_of_le_of_lt hFrom hTo)

end Interval

/-- Proper intervals in ascending order, none of which touches the next. -/
structure Apart (l : List Interval) : Prop where
  proper : ∀ a ∈ l, a.lower < a.upper
  ascending : l.Pairwise fun a b => a.upper < b.lower

/-- A version lies in one of some intervals. -/
def Within (l : List Interval) (v : Version) : Prop := ∃ a ∈ l, a.contains v

theorem not_within_nil (v : Version) : ¬Within [] v := by
  simp [Within]

theorem within_cons {a : Interval} {l : List Interval} {v : Version} :
    Within (a :: l) v ↔ a.contains v ∨ Within l v := by
  simp [Within]

theorem apart_cons {a : Interval} {l : List Interval} :
    Apart (a :: l) ↔ a.lower < a.upper ∧ (∀ b ∈ l, a.upper < b.lower) ∧ Apart l := by
  constructor
  · rintro ⟨hProper, hAscending⟩
    obtain ⟨hNext, hTail⟩ := List.pairwise_cons.1 hAscending
    exact ⟨hProper a List.mem_cons_self, hNext,
      fun b hb => hProper b (List.mem_cons_of_mem a hb), hTail⟩
  · rintro ⟨hProper, hNext, hTail⟩
    refine ⟨fun b hb => ?_, List.pairwise_cons.2 ⟨hNext, hTail.ascending⟩⟩
    rcases List.mem_cons.1 hb with rfl | hb
    · exact hProper
    · exact hTail.proper b hb

/-- The first of some intervals that lie apart begins with a version in it. -/
theorem Apart.within_lower {a : Interval} {l : List Interval} (h : Apart (a :: l)) :
    Within (a :: l) a.lower :=
  within_cons.2 (.inl (Interval.contains_lower (apart_cons.1 h).1))

/-- No version before that lies in any of them. -/
theorem Apart.lower_le {a : Interval} {l : List Interval} (h : Apart (a :: l)) {v : Version}
    (hv : Within (a :: l) v) : a.lower ≤ v := by
  obtain ⟨hProper, hNext, -⟩ := apart_cons.1 h
  rcases within_cons.1 hv with hIn | ⟨b, hb, hIn⟩
  · exact (Interval.contains_iff.1 hIn).1
  · have hBefore : a.lower < b.lower := Std.lt_trans hProper (hNext b hb)
    exact Std.le_trans (Std.le_of_lt hBefore) (Interval.contains_iff.1 hIn).1

/-- A version in a later interval lies behind the first one. -/
theorem Apart.upper_lt {a : Interval} {l : List Interval} (h : Apart (a :: l)) {v : Version}
    (hv : Within l v) : a.upper < v := by
  obtain ⟨-, hNext, -⟩ := apart_cons.1 h
  obtain ⟨b, hb, hIn⟩ := hv
  exact Std.lt_of_lt_of_le (hNext b hb) (Interval.contains_iff.1 hIn).1

/-- The first of some intervals that lie apart ends before the first version outside it. -/
theorem Apart.not_within_upper {a : Interval} {l : List Interval} (h : Apart (a :: l)) :
    ¬Within (a :: l) a.upper := by
  intro hv
  rcases within_cons.1 hv with hIn | hIn
  · exact Std.lt_irrefl (Interval.contains_iff.1 hIn).2
  · exact Std.lt_irrefl (h.upper_lt hIn)

/-- The versions in all but the first of some intervals are those that do not lie in it. -/
theorem Apart.within_tail {a : Interval} {l : List Interval} (h : Apart (a :: l)) (v : Version) :
    Within l v ↔ Within (a :: l) v ∧ ¬a.contains v := by
  rw [within_cons]
  constructor
  · intro hIn
    refine ⟨.inr hIn, fun hFirst => ?_⟩
    exact Std.lt_irrefl (Std.lt_trans (h.upper_lt hIn) (Interval.contains_iff.1 hFirst).2)
  · rintro ⟨hIn | hIn, hOut⟩
    · exact absurd hIn hOut
    · exact hIn

/-- Of two lists of intervals that lie apart and hold the same versions, the first interval of the
one does not end before that of the other. -/
theorem upper_le_of_apart {a b : Interval} {l m : List Interval} (hl : Apart (a :: l))
    (hSame : ∀ v, Within (a :: l) v ↔ Within (b :: m) v)
    (hLower : a.lower = b.lower) : b.upper ≤ a.upper := by
  by_contra hLess
  have hFrom : b.lower ≤ a.upper := hLower ▸ Std.le_of_lt (apart_cons.1 hl).1
  have hIn : b.contains a.upper := Interval.contains_iff.2 ⟨hFrom, Std.not_le.1 hLess⟩
  exact hl.not_within_upper ((hSame a.upper).2 (within_cons.2 (.inl hIn)))

/-- Intervals that lie apart are determined by the versions that lie in them. -/
theorem eq_of_apart {l m : List Interval} (hl : Apart l) (hm : Apart m)
    (hSame : ∀ v, Within l v ↔ Within m v) : l = m := by
  induction l generalizing m with
  | nil =>
      cases m with
      | nil => rfl
      | cons b m => exact absurd ((hSame b.lower).2 hm.within_lower) (not_within_nil b.lower)
  | cons a l ih =>
      cases m with
      | nil => exact absurd ((hSame a.lower).1 hl.within_lower) (not_within_nil a.lower)
      | cons b m =>
          have hLower : a.lower = b.lower := Std.le_antisymm
            (hl.lower_le ((hSame b.lower).2 hm.within_lower))
            (hm.lower_le ((hSame a.lower).1 hl.within_lower))
          have hUpper : a.upper = b.upper := Std.le_antisymm
            (upper_le_of_apart hm (fun v => (hSame v).symm) hLower.symm)
            (upper_le_of_apart hl hSame hLower)
          obtain rfl : a = b := by
            cases a
            cases b
            simp_all
          have hTails : l = m := by
            refine ih (apart_cons.1 hl).2.2 (apart_cons.1 hm).2.2 fun v => ?_
            rw [hl.within_tail, hm.within_tail, hSame]
          rw [hTails]

end PackageManager
