import PackageManager.Text.Cut

/-!
# Package ids

A package is known by a name within a domain, written `name@domain`. The text is cut at its first
`@`, so a domain may contain another one and a name may not.
-/

namespace PackageManager

/-- The identity of a package, whatever its version. -/
structure PackageId where
  name : String
  domain : String
deriving DecidableEq

namespace PackageId

/-- Ids compare by their names, then by their domains. -/
instance : Ord PackageId where
  compare := compareLex (compareOn name) (compareOn domain)

instance : Std.TransOrd PackageId :=
  inferInstanceAs (Std.TransCmp (compareLex (compareOn name) (compareOn domain)))

instance : Std.LawfulEqOrd PackageId where
  eq_of_compare {a b} h := by
    have h : compareLex (compareOn name) (compareOn domain) a b = .eq := h
    simp only [compareLex_eq_eq, compareOn, Std.LawfulEqCmp.compare_eq_iff_eq] at h
    cases a; cases b; simp_all

/-- The text of an id. -/
def text (id : PackageId) : String := id.name ++ "@" ++ id.domain

/-- A text that is no package id. -/
structure Malformed where
  text : String
deriving DecidableEq

/-- The wording of a refused id text. -/
def Malformed.message (m : Malformed) : String :=
  "invalid package id '" ++ m.text ++ "', expected 'name@domain'"

/-- The id that a text spells. Neither its name nor its domain is empty. -/
def parse (s : String) : Except Malformed PackageId :=
  match Text.cutFirst '@' s.toList with
  | some (name, domain) =>
    if name.isEmpty ∨ domain.isEmpty then .error ⟨s⟩
    else .ok ⟨String.ofList name, String.ofList domain⟩
  | none => .error ⟨s⟩

end PackageId

end PackageManager
