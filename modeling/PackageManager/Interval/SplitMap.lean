import PackageManager.Interval
import PackageManager.Ordered.Set

/-!
# Tagged intervals, split where they overlap

Several packages may each require the same dependency in several intervals. A `SplitMap` records
which of them asks for which versions: it keeps disjoint segments, each with the set of the tags
whose intervals cover it, and splits a segment where a later interval begins or ends inside it.
`SplitMap.joined n` reads off the versions that at least `n` tags cover, as intervals that do not
touch each other.

An insertion rebuilds the segments in one sweep. The bounds of all segments and of the new interval
cut the versions into pieces, and the old segments are followed beside the pieces: as every old
bound is a bound of some piece, a piece lies inside one old segment or in a gap between two.
-/

namespace PackageManager

/-- Disjoint intervals in ascending order, each with the tags that cover it. -/
structure SplitMap (α : Type) [Ord α] where
  segments : List (Interval × OrderedSet α)
deriving DecidableEq

namespace SplitMap

variable {α : Type} [Ord α]

/-- The map that covers no version. -/
def empty : SplitMap α := ⟨[]⟩

instance : EmptyCollection (SplitMap α) := ⟨empty⟩

instance : Inhabited (SplitMap α) := ⟨empty⟩

/-- The tags that cover a version, if any does. -/
def tagsAt (m : SplitMap α) (v : Version) : Option (OrderedSet α) :=
  (m.segments.find? fun s => s.1.contains v).map (·.2)

/-- The bounds of some segments. -/
def boundsOf (segments : List (Interval × OrderedSet α)) : List Version :=
  segments.flatMap fun s => [s.1.lower, s.1.upper]

/-- The intervals between each bound and the next one. -/
def between : List Version → List Interval
  | a :: b :: rest => ⟨a, b⟩ :: between (b :: rest)
  | _ => []

/-- The tags of the first of some segments, if a piece begins inside it. -/
def tagsOfFirst (segments : List (Interval × OrderedSet α)) (piece : Interval) : OrderedSet α :=
  match segments with
  | s :: _ => if s.1.lower ≤ piece.lower then s.2 else ∅
  | [] => ∅

/-- The segments that some ascending pieces become when `i` is tagged. The old segments that end
before a piece are left behind, so that the first of the others is the only one it can lie in. -/
def sweep [Std.TransOrd α] (i : Interval) (tag : α) :
    List (Interval × OrderedSet α) → List Interval → List (Interval × OrderedSet α)
  | _, [] => []
  | old, piece :: pieces =>
    let old := old.dropWhile fun s => s.1.upper ≤ piece.lower
    let tags := tagsOfFirst old piece
    let tags := if i.lower ≤ piece.lower ∧ piece.upper ≤ i.upper then tags.insert tag else tags
    if tags.isEmpty then sweep i tag old pieces else (piece, tags) :: sweep i tag old pieces

/-- The map with one more tagged interval. An empty interval covers nothing and adds no bound. -/
def insert [Std.TransOrd α] (m : SplitMap α) (i : Interval) (tag : α) : SplitMap α :=
  if i.isEmpty then m
  else
    let bounds := OrderedSet.ofList (boundsOf m.segments ++ [i.lower, i.upper])
    ⟨sweep i tag m.segments (between bounds.toList)⟩

/-- Some intervals, the last one first, with one more behind them. If that touches the last one,
the two are made into one. -/
def attach (result : List Interval) (i : Interval) : List Interval :=
  match result with
  | last :: rest =>
      if last.upper = i.lower then ⟨last.lower, i.upper⟩ :: rest else i :: last :: rest
  | [] => [i]

/-- The versions that at least `n` tags cover, as intervals that do not touch. -/
def joined (m : SplitMap α) (n : Nat) : List Interval :=
  (m.segments.foldl (fun result s => if s.2.size < n then result else attach result s.1) []).reverse

/-- How many segments the map has. -/
def size (m : SplitMap α) : Nat := m.segments.length

/-- Whether the map covers no version. -/
def isEmpty (m : SplitMap α) : Bool := m.segments.isEmpty

end SplitMap

end PackageManager
