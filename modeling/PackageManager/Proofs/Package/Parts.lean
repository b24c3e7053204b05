import PackageManager.Package.Specifier
import PackageManager.Proofs.Version.Text

/-!
# Specifiers and their parts

A specifier is put together from a name, a version and a domain in three ways, and it is taken apart
in three. What the three readers share is the last step, from a label and a domain: the version
starts behind the last dash of the label, because a version has no dash, so nothing in a name can
keep the two from being told apart. What may not be empty is checked there as well.

The text of a specifier adds one separator, in front of the domain. It is cut at the last one, so a
domain that has one of its own is not found again.

## Main results

* `ofParts_eq_ok_iff` — which label and which domain make a specifier.
* `parse_eq_ok_iff` — which texts are read as a specifier.
* `text_roundtrip` — which specifiers are read from their own text.
-/

namespace PackageManager.Specifier

variable {p : Specifier}

theorem toList_label (p : Specifier) :
    p.label.toList = p.id.name.toList ++ '-' :: p.version.chars := by
  simp [label]

theorem toList_text (p : Specifier) :
    p.text.toList = p.label.toList ++ '@' :: p.id.domain.toList := by
  simp [text]

/-- A label and a domain make the specifier that has them, unless something in it is empty. -/
theorem ofParts_eq_ok_iff {label domain : List Char} : ofParts label domain = .ok p ↔
    label = p.label.toList ∧ domain = p.id.domain.toList ∧ p.id.name ≠ "" ∧ p.id.domain ≠ "" := by
  unfold ofParts
  dsimp only
  constructor
  · intro hRead
    split at hRead
    · cases hRead
    next hDomain =>
    split at hRead
    · cases hRead
    next name version hCut =>
    split at hRead
    · cases hRead
    next hName =>
    split at hRead
    · next v hVersion =>
      obtain rfl := Except.ok.inj hRead
      obtain ⟨rfl, -⟩ := Text.cutLast_eq_some_iff.1 hCut
      rw [Version.parse_eq_ok_iff, String.toList_ofList] at hVersion
      subst hVersion
      simp_all [toList_label]
    · cases hRead
  · rintro ⟨rfl, rfl, hName, hDomain⟩
    have hCut : Text.cutLast '-' p.label.toList = some (p.id.name.toList, p.version.chars) :=
      Text.cutLast_eq_some_iff.2 ⟨toList_label p, p.version.dash_not_mem_chars⟩
    have hVersion : Version.parse (String.ofList p.version.chars) = .ok p.version :=
      Version.parse_eq_ok_iff.2 String.toList_ofList
    simp [hCut, hVersion, hName, hDomain]

/-- A specifier is read from its own text only, and not from that if its domain would be cut. -/
theorem parse_eq_ok_iff {s : String} : parse s = .ok p ↔
    s = p.text ∧ p.id.name ≠ "" ∧ p.id.domain ≠ "" ∧ '@' ∉ p.id.domain.toList := by
  unfold parse
  constructor
  · intro hRead
    split at hRead
    · next label domain hCut =>
      obtain ⟨hText, hDomain⟩ := Text.cutLast_eq_some_iff.1 hCut
      obtain ⟨rfl, rfl, hName, hSome⟩ := ofParts_eq_ok_iff.1 hRead
      exact ⟨String.toList_inj.1 (hText.trans (toList_text p).symm), hName, hSome, hDomain⟩
    · cases hRead
  · rintro ⟨rfl, hName, hSome, hDomain⟩
    rw [Text.cutLast_eq_some_iff.2 ⟨toList_text p, hDomain⟩]
    exact ofParts_eq_ok_iff.2 ⟨rfl, rfl, hName, hSome⟩

/-- What is read from a text is written as that text again. What is written is read again exactly if
nothing in it is empty and its domain has no separator; the name may be any text. -/
theorem text_roundtrip (p : Specifier) :
    (∀ s, parse s = .ok p → p.text = s) ∧
      (parse p.text = .ok p ↔
        p.id.name ≠ "" ∧ p.id.domain ≠ "" ∧ '@' ∉ p.id.domain.toList) := by
  refine ⟨fun s hRead => (parse_eq_ok_iff.1 hRead).1.symm, ?_⟩
  rw [parse_eq_ok_iff]
  exact and_iff_right rfl

/-- A name may have every separator and look like a version, and a domain may not have an `@`. -/
theorem text_roundtrip_separators :
    let p : Specifier := ⟨⟨"x@y-2.0.0", "z-3.0.0"⟩, ⟨1, 0, 0⟩⟩
    let q : Specifier := ⟨⟨"x", "y@z"⟩, ⟨1, 0, 0⟩⟩
    p.text = "x@y-2.0.0-1.0.0@z-3.0.0" ∧ parse p.text = .ok p ∧
      (∀ s, parse s = .ok p → p.text = s) ∧ ¬parse q.text = .ok q := by
  intro p q
  obtain ⟨hWritten, hRead⟩ := text_roundtrip p
  obtain ⟨-, hCut⟩ := text_roundtrip q
  exact ⟨by decide +kernel, hRead.2 (by decide), hWritten,
    fun h => absurd (hCut.1 h).2.2 (by decide)⟩

end PackageManager.Specifier
