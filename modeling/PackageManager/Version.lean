import PackageManager.Text.Decimal

/-!
# Package versions

A version is three 32-bit components, ordered lexicographically and written with points between
them. There is no successor beyond the greatest patch number: `Version.successor` stays where it
is there, which is why an interval that ends at a successor can be empty.
-/

namespace PackageManager

/-- A package version. -/
structure Version where
  major : UInt32
  minor : UInt32
  patch : UInt32
deriving DecidableEq, Inhabited

namespace Version

/-- Versions compare by their major, then their minor, then their patch component. -/
instance : Ord Version where
  compare := compareLex (compareOn major) (compareLex (compareOn minor) (compareOn patch))

instance : LT Version := ltOfOrd

instance : LE Version := leOfOrd

instance : Std.TransOrd Version :=
  inferInstanceAs (Std.TransCmp
    (compareLex (compareOn major) (compareLex (compareOn minor) (compareOn patch))))

instance : Std.LawfulEqOrd Version where
  eq_of_compare {a b} h := by
    have h : compareLex (compareOn major) (compareLex (compareOn minor) (compareOn patch)) a b
        = .eq := h
    simp only [compareLex_eq_eq, compareOn, Std.LawfulEqCmp.compare_eq_iff_eq] at h
    cases a; cases b; simp_all

instance : Std.LawfulOrderOrd Version where
  isLE_compare _ _ := Iff.rfl
  isGE_compare a b := Std.OrientedCmp.isGE_iff_isLE (a := a) (b := b)

instance : Std.IsLinearOrder Version := .of_ord

instance : Std.LawfulOrderLT Version := .of_ord _ fun _ _ => Iff.rfl

/-- The next number, or the same one where 32 bits hold no greater. -/
def nextComponent (n : UInt32) : UInt32 := if n = 0xFFFFFFFF then n else n + 1

/-- The version with the next patch number. -/
def successor (v : Version) : Version := ⟨v.major, v.minor, nextComponent v.patch⟩

/-- The characters of a version's text. -/
def chars (v : Version) : List Char :=
  Text.digits v.major.toNat ++ '.' :: (Text.digits v.minor.toNat ++
    '.' :: Text.digits v.patch.toNat)

/-- The text of a version: its components in decimal, with points between them. -/
def text (v : Version) : String := String.ofList v.chars

@[simp] theorem toList_text (v : Version) : v.text.toList = v.chars := by simp [text]

end Version

end PackageManager
