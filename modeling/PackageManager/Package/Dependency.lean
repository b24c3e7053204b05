import PackageManager.Ordered.Set
import PackageManager.Package.Id
import PackageManager.Requirement

/-!
# Dependencies

A dependency names a package and the requirements of which any one may be met.
-/

namespace PackageManager

/-- A package that is needed, and which of its versions will do. -/
structure Dependency where
  id : PackageId
  requirements : OrderedSet Requirement := ∅
deriving DecidableEq

namespace Dependency

/-- The dependency with one more requirement. -/
def withRequirement (d : Dependency) (r : Requirement) : Dependency :=
  { d with requirements := d.requirements.insert r }

/-- The intervals of the requirements, in the order of the requirements. -/
def intervals (d : Dependency) : List Interval := d.requirements.toList.map Requirement.interval

/-- The text of a dependency: its id, and its requirements if it has any. -/
def text (d : Dependency) : String :=
  if d.requirements.isEmpty then d.id.text
  else d.id.text ++ " (" ++ ", ".intercalate (d.requirements.toList.map Requirement.text) ++ ")"

end Dependency

end PackageManager
