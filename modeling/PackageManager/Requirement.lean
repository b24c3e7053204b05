import PackageManager.Interval
import PackageManager.Text.Blank
import PackageManager.Version.Parser

/-!
# Version requirements

A requirement names one or two versions and says how far a version may be from them. Its meaning
is an interval (`Requirement.interval`). Where the arithmetic of 32-bit components gives out, that
interval does not reach the version that the requirement names; `Requirement.parse` refuses such a
requirement, so that an accepted one always admits the version it was written with.
-/

namespace PackageManager

/-- A requirement on a version. -/
inductive Requirement
  /-- This version and no other. -/
  | exact (v : Version)
  /-- Any version between two, both included. -/
  | range (lo hi : Version)
  /-- This version or one that differs only by a greater patch number. -/
  | tilde (v : Version)
  /-- This version or a greater one with the same major number. -/
  | caret (v : Version)
deriving DecidableEq

namespace Requirement

/-- The place of a requirement's kind in the order of requirements. -/
def rank : Requirement → Nat
  | .exact _ => 0
  | .range _ _ => 1
  | .tilde _ => 2
  | .caret _ => 3

/-- The first version that a requirement names. -/
def first : Requirement → Version
  | .exact v | .range v _ | .tilde v | .caret v => v

/-- The version that a requirement must itself admit: the upper bound of a range, the only version
of the other kinds. -/
def declared : Requirement → Version
  | .exact v | .range _ v | .tilde v | .caret v => v

/-- Requirements compare by their kinds and then by the versions they name. -/
instance : Ord Requirement where
  compare := compareLex (compareOn rank) (compareLex (compareOn first) (compareOn declared))

instance : Std.TransOrd Requirement :=
  inferInstanceAs (Std.TransCmp
    (compareLex (compareOn rank) (compareLex (compareOn first) (compareOn declared))))

instance : Std.LawfulEqOrd Requirement where
  eq_of_compare {a b} h := by
    have h : compareLex (compareOn rank) (compareLex (compareOn first) (compareOn declared)) a b
        = .eq := h
    simp only [compareLex_eq_eq, compareOn, Std.LawfulEqCmp.compare_eq_iff_eq] at h
    cases a <;> cases b <;> simp_all [rank, first, declared]

/-- The versions that a requirement admits. -/
def interval : Requirement → Interval
  | .exact v => .exact v
  | .range lo hi => ⟨lo, hi.successor⟩
  | .tilde v => ⟨v, ⟨v.major, Version.nextComponent v.minor, 0⟩⟩
  | .caret v => ⟨v, ⟨Version.nextComponent v.major, 0, 0⟩⟩

/-- Whether a requirement admits a version. -/
def satisfiedBy (r : Requirement) (v : Version) : Bool := r.interval.contains v

/-- What the kind of a requirement is called. -/
def kind : Requirement → String
  | .exact _ => "Exact"
  | .range _ _ => "Range"
  | .tilde _ => "Tilde"
  | .caret _ => "Caret"

/-- The text of a requirement: its versions, with the sign of its kind. -/
def text : Requirement → String
  | .exact v => "=" ++ v.text
  | .range lo hi => lo.text ++ "-" ++ hi.text
  | .tilde v => "~" ++ v.text
  | .caret v => "^" ++ v.text

/-- Why a text is no requirement. -/
inductive Malformed
  /-- There is nothing between the blanks. -/
  | empty
  /-- A version in it is malformed. -/
  | version (m : Version.Malformed)
  /-- A range ends before it begins. -/
  | inverted (text : String)
  /-- The requirement does not admit the version it names, because its upper bound would lie
  beyond the greatest version. -/
  | beyondRange (text : String)
deriving DecidableEq

/-- The wording of a refused requirement text. -/
def Malformed.message : Malformed → String
  | .empty => "empty requirement string"
  | .version m => m.message
  | .inverted s => "invalid requirement '" ++ s ++ "': upper bound is below lower bound"
  | .beyondRange s =>
    "invalid requirement '" ++ s ++ "': version bound exceeds the supported range"

/-- The version that some characters between optional blanks spell. -/
def blankedVersion (cs : List Char) : Except Malformed Version :=
  (Version.parse (String.ofList (Text.trim cs))).mapError .version

/-- The requirement that a text without blanks around it spells, before its bounds are checked. -/
def ofTrimmed (cs : List Char) : Except Malformed Requirement :=
  match cs with
  | [] => .error .empty
  | '=' :: rest => (blankedVersion rest).map .exact
  | '~' :: rest => (blankedVersion rest).map .tilde
  | '^' :: rest => (blankedVersion rest).map .caret
  | cs =>
    match Text.cutFirst '-' cs with
    | some (lo, hi) => do
      let lo ← blankedVersion lo
      let hi ← blankedVersion hi
      if hi < lo then .error (.inverted (String.ofList cs)) else .ok (.range lo hi)
    | none => ((Version.parse (String.ofList cs)).mapError .version).map .exact

/-- The requirement that a text spells. -/
def parse (s : String) : Except Malformed Requirement := do
  let trimmed := Text.trim s.toList
  let r ← ofTrimmed trimmed
  if r.satisfiedBy r.declared then .ok r else .error (.beyondRange (String.ofList trimmed))

end Requirement

end PackageManager
