import PackageManager.Version

/-!
# Version intervals

Requirements are compared through half-open intervals of versions: the lower bound belongs to the
interval and the upper bound does not. An interval whose bounds meet or are in the wrong order has
no version in it, and nothing forbids such an interval.
-/

namespace PackageManager

/-- The versions from `lower` on and below `upper`. -/
structure Interval where
  lower : Version
  upper : Version
deriving DecidableEq, Inhabited

namespace Interval

/-- Intervals compare by their lower bounds, then by their upper bounds. -/
instance : Ord Interval where
  compare := compareLex (compareOn lower) (compareOn upper)

instance : Std.TransOrd Interval :=
  inferInstanceAs (Std.TransCmp (compareLex (compareOn lower) (compareOn upper)))

/-- The interval up to the successor of a version: the version alone, unless its patch number is
the greatest, where the interval is empty. -/
def exact (v : Version) : Interval := ⟨v, v.successor⟩

/-- Whether no version lies in the interval. -/
def isEmpty (i : Interval) : Bool := decide (i.upper ≤ i.lower)

/-- Whether a version lies in the interval. -/
def contains (i : Interval) (v : Version) : Bool := decide (i.lower ≤ v ∧ v < i.upper)

/-- The text of an interval, with a bracket at the closed and a parenthesis at the open end. -/
def text (i : Interval) : String := "[" ++ i.lower.text ++ ", " ++ i.upper.text ++ ")"

end Interval

end PackageManager
