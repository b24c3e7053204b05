import Mathlib.Order.Basic
import PackageManager.Version

/-!
# The order of versions

Versions are ordered by three numbers of 32 bits, and the bounds of requirements are found by going
to the next number in one of them. The greatest number has no next one, and there the bound stays
where it is. Whether this has happened can be told from the version alone: it has if and only if the
version is not below the bound. In all other cases the bound is exact.

## Main results

* `lt_iff`, `le_iff` — the order by components.
* `lt_successor_iff`, `between_minor_iff`, `between_major_iff` — which versions are below a bound,
  if the version is that the bound was made from.
-/

namespace PackageManager.Version

variable {v w : Version}

theorem lt_iff : v < w ↔ v.major < w.major ∨ v.major = w.major ∧
    (v.minor < w.minor ∨ v.minor = w.minor ∧ v.patch < w.patch) := by
  have hOrder : v < w ↔ compareLex (compareOn major) (compareLex (compareOn minor)
      (compareOn patch)) v w = .lt := Iff.rfl
  simp only [hOrder, compareLex, compareOn, Ordering.then_eq_lt, Std.compare_eq_lt,
    Std.LawfulEqCmp.compare_eq_iff_eq]

theorem le_iff : v ≤ w ↔ v.major < w.major ∨ v.major = w.major ∧
    (v.minor < w.minor ∨ v.minor = w.minor ∧ v.patch ≤ w.patch) := by
  rw [← Std.not_lt, lt_iff]
  grind

/-! ## Bounds -/

/-- The next number is cut off at the greatest one of 32 bits. -/
theorem toNat_nextComponent (n : UInt32) :
    (nextComponent n).toNat = min (n.toNat + 1) 4294967295 := by
  have hSize : n.toNat < 4294967296 := n.toNat_lt
  unfold nextComponent
  split
  · next hLast => rw [hLast]; rfl
  · next hLast =>
    have hRoom : n.toNat ≠ 4294967295 := fun h => hLast (UInt32.toNat_inj.1 h)
    rw [UInt32.toNat_add, UInt32.toNat_one]
    omega

/-- Where there is a next number, what is below it is not above the number itself. -/
theorem lt_nextComponent_iff {m n : UInt32} (hRoom : n < nextComponent n) :
    m < nextComponent n ↔ m ≤ n := by
  rw [UInt32.lt_iff_toNat_lt, toNat_nextComponent] at hRoom ⊢
  rw [UInt32.le_iff_toNat_le]
  omega

theorem lt_successor_iff (hRoom : v < v.successor) : w < v.successor ↔ w ≤ v := by
  have hPatch : v.patch < nextComponent v.patch := by
    rw [lt_iff] at hRoom
    grind [successor]
  have hNext := lt_nextComponent_iff (m := w.patch) hPatch
  rw [lt_iff, le_iff]
  simp only [successor, hNext]

/-- The versions up to the next minor number. -/
theorem between_minor_iff (hRoom : v < ⟨v.major, nextComponent v.minor, 0⟩) :
    v ≤ w ∧ w < ⟨v.major, nextComponent v.minor, 0⟩ ↔
      w.major = v.major ∧ w.minor = v.minor ∧ v.patch ≤ w.patch := by
  have hMinor : v.minor < nextComponent v.minor := by
    rw [lt_iff] at hRoom
    grind
  have hNext := lt_nextComponent_iff (m := w.minor) hMinor
  rw [le_iff, lt_iff]
  simp only [hNext]
  grind

/-- The versions up to the next major number. -/
theorem between_major_iff (hRoom : v < ⟨nextComponent v.major, 0, 0⟩) :
    v ≤ w ∧ w < ⟨nextComponent v.major, 0, 0⟩ ↔ w.major = v.major ∧ v ≤ w := by
  have hMajor : v.major < nextComponent v.major := by
    rw [lt_iff] at hRoom
    grind
  have hNext := lt_nextComponent_iff (m := w.major) hMajor
  rw [le_iff, lt_iff]
  simp only [hNext]
  grind

end PackageManager.Version
