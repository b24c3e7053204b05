import Mathlib.Data.List.Induction
import Mathlib.Data.List.Sort
import PackageManager.Ordered.Map

/-!
# Maps that are changed and changed back

A map is the list of its entries in the one order that their keys allow. Two maps that answer alike
for each key are therefore the same, and a change that is taken back leaves the very map that was
there before.

## Main results

* `ext_get?` — maps with the same values for all keys are the same.
* `erase_insert` — a new key that is taken away again has left no trace.
* `get?_ofList` — a map that is made of a list has the last value that the list has for a key.
* `ofList_entries` — a map is made of the list of its own entries.
-/

namespace PackageManager.OrderedMap

variable {α β : Type} [Ord α] [Std.TransOrd α] [Std.LawfulEqOrd α]

theorem ext_get? {m m' : OrderedMap α β} (h : ∀ k, m.get? k = m'.get? k) : m = m' := by
  have : Std.Irrefl fun a b : α × β => compare a.1 b.1 = .lt :=
    ⟨fun a => by simp [Std.ReflCmp.compare_self]⟩
  have : Std.Antisymm fun a b : α × β => compare a.1 b.1 = .lt :=
    ⟨fun a b hab hba => by simp [Std.OrientedCmp.gt_of_lt hab] at hba⟩
  have hEntries : m.entries = m'.entries := by
    refine m.ascending.eq_of_mem_iff m'.ascending fun e => ?_
    rw [← get?_eq_some_iff, ← get?_eq_some_iff, h]
  cases m
  cases m'
  simp_all

variable [DecidableEq α] {m : OrderedMap α β} {k : α}

/-- The last value counts. -/
theorem insert_insert (m : OrderedMap α β) (k : α) (v w : β) :
    (m.insert k v).insert k w = m.insert k w := by
  refine ext_get? fun k' => ?_
  simp only [get?_insert]
  split_ifs <;> rfl

/-- Other keys can come first or last. -/
theorem insert_comm {k k' : α} (hOther : k ≠ k') (m : OrderedMap α β) (v w : β) :
    (m.insert k v).insert k' w = (m.insert k' w).insert k v := by
  refine ext_get? fun k'' => ?_
  simp only [get?_insert]
  split_ifs with h h'
  · exact absurd (h'.symm.trans h) hOther
  all_goals rfl

theorem erase_insert (hNew : m.get? k = none) (v : β) : (m.insert k v).erase k = m := by
  refine ext_get? fun k' => ?_
  simp only [get?_erase, get?_insert]
  split_ifs with h
  · rw [h, hNew]
  · rfl

/-! ## Maps of lists -/

theorem get?_ofList (l : List (α × β)) (k : α) :
    (ofList l).get? k = (l.reverse.find? fun e => e.1 = k).map (·.2) := by
  induction l using List.reverseRecOn with
  | nil => rfl
  | append_singleton l e ih =>
    rw [ofList_concat, get?_insert, List.reverse_concat, List.find?_cons, ih]
    by_cases h : e.1 = k
    · simp [h]
    · simp [h, Ne.symm h]

omit [DecidableEq α] [Std.LawfulEqOrd α]

theorem insertInto_last {v : β} {l : List (α × β)} (hLast : ∀ e ∈ l, compare e.1 k = .lt) :
    insertInto k v l = l ++ [(k, v)] := by
  induction l with
  | nil => rfl
  | cons e l ih =>
      obtain ⟨hFirst, hRest⟩ := List.forall_mem_cons.1 hLast
      rw [insertInto, Std.OrientedCmp.gt_of_lt hFirst]
      exact congrArg _ (ih hRest)

/-- A list in the order of a map is the list of the entries of its map. -/
theorem entries_ofList {l : List (α × β)} (hOrder : l.Pairwise fun a b => compare a.1 b.1 = .lt) :
    (ofList l).entries = l := by
  induction l using List.reverseRecOn with
  | nil => rfl
  | append_singleton l e ih =>
      obtain ⟨hInit, -, hLast⟩ := List.pairwise_append.1 hOrder
      have hInsert : (ofList (l ++ [e])).entries = insertInto e.1 e.2 (ofList l).entries := by
        rw [ofList_concat, insert]
      rw [hInsert, ih hInit]
      exact insertInto_last fun a ha => hLast a ha e (List.mem_singleton_self e)

theorem ofList_entries (m : OrderedMap α β) : ofList m.entries = m := by
  obtain ⟨l, hOrder⟩ := m
  have hEntries : (ofList l).entries = l := entries_ofList hOrder
  cases hMap : ofList l with
  | mk l' _ =>
      rw [hMap] at hEntries
      cases hEntries
      rfl

end PackageManager.OrderedMap
