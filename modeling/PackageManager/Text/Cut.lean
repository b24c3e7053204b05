/-!
# Cutting a text at a separator

Package names, versions and domains are glued together with one-character separators, and both
sides of a separator may contain it again. Whether a text is cut at the first or at the last
occurrence therefore matters, and each has its own function here.
-/

namespace PackageManager.Text

/-- The parts before and after the first `sep`, if there is one. -/
def cutFirst (sep : Char) : List Char → Option (List Char × List Char)
  | [] => none
  | c :: cs =>
    if c = sep then some ([], cs)
    else (cutFirst sep cs).map fun p => (c :: p.1, p.2)

/-- The parts before and after the last `sep`, if there is one. -/
def cutLast (sep : Char) : List Char → Option (List Char × List Char)
  | [] => none
  | c :: cs =>
    match cutLast sep cs with
    | some (before, after) => some (c :: before, after)
    | none => if c = sep then some ([], cs) else none

/-- The text after the given beginning, if it has that beginning. -/
def afterPrefix? : List Char → List Char → Option (List Char)
  | [], cs => some cs
  | _ :: _, [] => none
  | p :: ps, c :: cs => if p = c then afterPrefix? ps cs else none

/-- The text after its first character, if that is one of the given characters. -/
def afterOneOf? (expected : List Char) : List Char → Option (List Char)
  | c :: cs => if expected.contains c then some cs else none
  | [] => none

/-- The text before the given ending, if it has that ending. -/
def beforeSuffix? (ending cs : List Char) : Option (List Char) :=
  (afterPrefix? ending.reverse cs.reverse).map List.reverse

/-- The text up to its first line feed. -/
def firstLine (s : String) : String := String.ofList (s.toList.takeWhile (· ≠ '\n'))

end PackageManager.Text
