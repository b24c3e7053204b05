import Mathlib.Data.Set.Card
import PackageManager.Ordered.Map
import PackageManager.Ordered.Set

/-!
# How much ordered sets and maps hold

A set or a map is a list in ascending order, so nothing is in it twice, and the length of the list
is the number of elements.

## Main results

* `ncard_of_nodup`, `OrderedSet.ncard_eq_size` — the size of a set is the number of its elements.
* `OrderedMap.nodup_keys` — no key is listed twice.
-/

namespace PackageManager

/-- A list without duplicates has as many elements as it is long. -/
theorem ncard_of_nodup {α : Type} {l : List α} (h : l.Nodup) : {a | a ∈ l}.ncard = l.length := by
  classical
  have hElements : {a | a ∈ l} = ↑l.toFinset := by
    ext a
    simp
  rw [hElements, Set.ncard_coe_finset, List.toFinset_card_of_nodup h]

variable {α : Type} [Ord α] [Std.TransOrd α]

theorem OrderedSet.ncard_eq_size (s : OrderedSet α) : {a | a ∈ s}.ncard = s.size :=
  ncard_of_nodup s.nodup

theorem OrderedMap.nodup_keys {β : Type} (m : OrderedMap α β) : m.keys.Nodup :=
  List.pairwise_map.2 (m.ascending.imp fun h hSame => by
    simp [hSame, Std.ReflCmp.compare_self] at h)

end PackageManager
