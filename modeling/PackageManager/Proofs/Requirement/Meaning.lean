import PackageManager.Proofs.Interval.Apart
import PackageManager.Proofs.Traversal
import PackageManager.Proofs.Version.Order
import PackageManager.Requirement

/-!
# The meaning of requirements

The interval of a requirement ends before a version that is computed from the one it names, and the
computation stays where it is at the greatest number. A requirement whose bound has been cut off in
this way would mean less than it says, down to nothing at all. The reader tests one version only,
the one that the requirement declares, and this one test is enough: if the declared version is below
the bound, the bound has not been cut off.

## Main results

* `satisfiedBy_iff_means` — a requirement that admits the version it declares means what it says.
* `meaning_of_parse` — so does each requirement that is read from a text.
-/

namespace PackageManager.Requirement

/-- The versions that a requirement means. -/
def Means : Requirement → Version → Prop
  | .exact v, w => w = v
  | .range lo hi, w => lo ≤ w ∧ w ≤ hi
  | .tilde v, w => w.major = v.major ∧ w.minor = v.minor ∧ v.patch ≤ w.patch
  | .caret v, w => w.major = v.major ∧ v ≤ w

variable {r : Requirement} {w : Version}

theorem satisfiedBy_iff_mem : r.satisfiedBy w ↔ r.interval.lower ≤ w ∧ w < r.interval.upper :=
  Interval.contains_iff

theorem satisfiedBy_iff_means (hDeclared : r.satisfiedBy r.declared) :
    r.satisfiedBy w ↔ r.Means w := by
  have hRoom : r.declared < r.interval.upper := (satisfiedBy_iff_mem.1 hDeclared).2
  rw [satisfiedBy_iff_mem]
  cases r with
  | exact v =>
      have hBelow : w < v.successor ↔ w ≤ v := Version.lt_successor_iff hRoom
      show v ≤ w ∧ w < v.successor ↔ w = v
      rw [hBelow, and_comm, ← Std.le_antisymm_iff]
  | range lo hi => exact and_congr_right fun _ => Version.lt_successor_iff hRoom
  | tilde v => exact Version.between_minor_iff hRoom
  | caret v => exact Version.between_major_iff hRoom

/-- The lower bound is the first version that is named. Nothing is computed there. -/
theorem lower_interval (r : Requirement) : r.interval.lower = r.first := by
  cases r <;> rfl

theorem satisfiedBy_first (hDeclared : r.satisfiedBy r.declared) : r.satisfiedBy r.first := by
  rw [satisfiedBy_iff_mem, lower_interval] at hDeclared ⊢
  exact ⟨Std.le_refl _, Std.lt_of_le_of_lt hDeclared.1 hDeclared.2⟩

theorem isEmpty_interval_of_satisfiedBy (hw : r.satisfiedBy w) : r.interval.isEmpty = false := by
  obtain ⟨hLower, hUpper⟩ := satisfiedBy_iff_mem.1 hw
  exact decide_eq_false (Std.not_le.2 (Std.lt_of_le_of_lt hLower hUpper))

/-! ## Requirements that are read -/

/-- Only one test follows the reading, and it is about the version that is declared. -/
theorem parse_eq_ok_iff {s : String} : parse s = .ok r ↔
    ofTrimmed (Text.trim s.toList) = .ok r ∧ r.satisfiedBy r.declared := by
  unfold parse
  dsimp only
  constructor
  · intro hParse
    obtain ⟨r', hRead, hAccept⟩ := ok_of_bind hParse
    split at hAccept
    · next hAdmits =>
      obtain rfl := Except.ok.inj hAccept
      exact ⟨hRead, hAdmits⟩
    · cases hAccept
  · rintro ⟨hRead, hAdmits⟩
    simp [hRead, hAdmits, bind, Except.bind]

/-- A requirement that is accepted admits the versions that it means and no others, so its interval
has a version in it, and both bounds among them. -/
theorem meaning_of_parse {s : String} (hParse : parse s = .ok r) :
    (∀ w, r.satisfiedBy w ↔ r.Means w) ∧ r.interval.isEmpty = false ∧
      r.satisfiedBy r.first ∧ r.satisfiedBy r.declared := by
  have hDeclared : r.satisfiedBy r.declared := (parse_eq_ok_iff.1 hParse).2
  exact ⟨fun w => satisfiedBy_iff_means hDeclared, isEmpty_interval_of_satisfiedBy hDeclared,
    satisfiedBy_first hDeclared, hDeclared⟩

/-- Below the greatest major number, a caret reaches the greatest version with its own one and stops
there. -/
theorem meaning_below_ceiling :
    let r : Requirement := .caret ⟨4294967294, 0, 4294967295⟩
    parse " ^ 4294967294.0.4294967295" = .ok r ∧
      r.satisfiedBy ⟨4294967294, 4294967295, 4294967295⟩ ∧
      ¬r.satisfiedBy ⟨4294967295, 0, 0⟩ := by
  intro r
  have hParse : parse " ^ 4294967294.0.4294967295" = .ok r := ok_of_toOption (by decide +kernel)
  obtain ⟨hMeans, -⟩ := meaning_of_parse hParse
  refine ⟨hParse, (hMeans _).2 ⟨rfl, by decide⟩, fun hAdmits => ?_⟩
  exact absurd ((hMeans _).1 hAdmits).1 (by decide)

end PackageManager.Requirement
