import PackageManager.Proofs.Package.Parts
import PackageManager.Proofs.Traversal

/-!
# Ids and specifiers

An id and a specifier are written with the same separator in front of the domain. An id is cut at
the first one, so that a domain may have more of them, and a specifier at the last one, so that a
name may. Each reader therefore lets identities through that the other one does not know, and where
it does read such a text, it reads another identity from it.

## Main results

* `parse_eq_ok_iff` — which texts are read as an id.
* `readers_agree_iff` — which identities both readers agree on, and what else they read.
* `readers_disagree` — identities that change when they go from one reader to the other.
-/

namespace PackageManager.PackageId

variable {i : PackageId}

theorem toList_text (i : PackageId) :
    i.text.toList = i.name.toList ++ '@' :: i.domain.toList := by
  simp [text]

/-- An id is read from its own text only, and not from that if its name would be cut. -/
theorem parse_eq_ok_iff {s : String} : parse s = .ok i ↔
    s = i.text ∧ i.name ≠ "" ∧ i.domain ≠ "" ∧ '@' ∉ i.name.toList := by
  unfold parse
  constructor
  · intro hRead
    split at hRead
    · next name domain hCut =>
      obtain ⟨hText, hName⟩ := Text.cutFirst_eq_some_iff.1 hCut
      split at hRead
      · cases hRead
      next hSome =>
      obtain rfl := Except.ok.inj hRead
      rw [not_or, List.isEmpty_iff, List.isEmpty_iff] at hSome
      refine ⟨String.toList_inj.1 ?_, by simpa using hSome.1, by simpa using hSome.2, ?_⟩
      · simpa [toList_text] using hText
      · simpa using hName
    · cases hRead
  · rintro ⟨rfl, hName, hDomain, hCut⟩
    rw [Text.cutFirst_eq_some_iff.2 ⟨toList_text i, hCut⟩]
    simp [hName, hDomain]

/-- If an id is read from the text of another one, the name of the other one has been cut. -/
theorem eq_or_cut_of_parse_text {j : PackageId} (hRead : parse j.text = .ok i) :
    i = j ∨ ∃ between, j.name = i.name ++ "@" ++ between ∧
      i.domain = between ++ "@" ++ j.domain := by
  obtain ⟨hText, -, -, hCut⟩ := parse_eq_ok_iff.1 hRead
  rw [← String.toList_inj, toList_text, toList_text,
    Text.append_cons_eq_append_cons_iff] at hText
  rcases hText with ⟨hName, hDomain⟩ | ⟨k, hName, -⟩ | ⟨k, hName, hDomain⟩
  · rw [String.toList_inj] at hName hDomain
    cases i
    cases j
    exact .inl (by simp_all)
  · simp [hName] at hCut
  · refine .inr ⟨String.ofList k, ?_, ?_⟩
    · rw [← String.toList_inj, hName]
      simp
    · rw [← String.toList_inj, hDomain]
      simp

/-- If a specifier is read from the text of another one, the domain of the other one has been
cut. -/
theorem eq_or_cut_of_parse_specifier {p q : Specifier} (hName : q.id.name ≠ "")
    (hRead : Specifier.parse q.text = .ok p) :
    p = q ∨ ∃ between, q.id.domain = between ++ "@" ++ p.id.domain ∧
      p.label = q.label ++ "@" ++ between := by
  obtain ⟨hText, -, hSome, hCut⟩ := Specifier.parse_eq_ok_iff.1 hRead
  rw [← String.toList_inj, Specifier.toList_text, Specifier.toList_text,
    Text.append_cons_eq_append_cons_iff] at hText
  rcases hText with ⟨-, hDomain⟩ | ⟨k, hLabel, hDomain⟩ | ⟨k, -, hDomain⟩
  · rw [String.toList_inj] at hDomain
    have hSame : Specifier.parse q.text = .ok q :=
      Specifier.parse_eq_ok_iff.2 ⟨rfl, hName, hDomain ▸ hSome, hDomain ▸ hCut⟩
    exact .inl (Except.ok.inj (hRead.symm.trans hSame))
  · refine .inr ⟨String.ofList k, ?_, ?_⟩
    · rw [← String.toList_inj, hDomain]
      simp
    · rw [← String.toList_inj, hLabel]
      simp
  · simp [hDomain] at hCut

/-- The id of a specifier that is read is read again exactly if its name has no separator, and with
any version an id that is read makes a specifier that is read again exactly if its domain has none.
Where something else is read, the text between two separators has gone to the other side: from the
name to the domain if an id is read, and from the domain to the label if a specifier is. -/
theorem readers_agree_iff (s : String) :
    (∀ p, Specifier.parse s = .ok p →
      (parse p.id.text = .ok p.id ↔ '@' ∉ p.id.name.toList) ∧
      ∀ i, parse p.id.text = .ok i → i = p.id ∨ ∃ between,
        p.id.name = i.name ++ "@" ++ between ∧ i.domain = between ++ "@" ++ p.id.domain) ∧
    ∀ i v, parse s = .ok i →
      (Specifier.parse (Specifier.mk i v).text = .ok ⟨i, v⟩ ↔ '@' ∉ i.domain.toList) ∧
      ∀ p, Specifier.parse (Specifier.mk i v).text = .ok p → p = ⟨i, v⟩ ∨ ∃ between,
        i.domain = between ++ "@" ++ p.id.domain ∧
          p.label = (Specifier.mk i v).label ++ "@" ++ between := by
  refine ⟨fun p hRead => ⟨?_, fun i => eq_or_cut_of_parse_text⟩, fun i v hRead => ?_⟩
  · obtain ⟨-, hName, hDomain, -⟩ := Specifier.parse_eq_ok_iff.1 hRead
    rw [parse_eq_ok_iff]
    simp [hName, hDomain]
  · obtain ⟨-, hName, hDomain, -⟩ := parse_eq_ok_iff.1 hRead
    refine ⟨?_, fun p => eq_or_cut_of_parse_specifier hName⟩
    rw [Specifier.parse_eq_ok_iff]
    simp [hName, hDomain]

/-- A name with a dash and a domain with a port are no obstacle to either reader. -/
theorem readers_agree_iff_port :
    let p : Specifier := ⟨⟨"my-lib", "localhost:8080"⟩, ⟨1, 0, 0⟩⟩
    Specifier.parse "my-lib-1.0.0@localhost:8080" = .ok p ∧ parse p.id.text = .ok p.id ∧
      parse "my-lib@localhost:8080" = .ok p.id ∧ Specifier.parse p.text = .ok p := by
  intro p
  have hSpecifier : Specifier.parse "my-lib-1.0.0@localhost:8080" = .ok p :=
    ok_of_toOption (by decide +kernel)
  have hId : parse "my-lib@localhost:8080" = .ok p.id := ok_of_toOption (by decide +kernel)
  obtain ⟨hIds, -⟩ := readers_agree_iff "my-lib-1.0.0@localhost:8080"
  obtain ⟨-, hSpecifiers⟩ := readers_agree_iff "my-lib@localhost:8080"
  exact ⟨hSpecifier, (hIds p hSpecifier).1.2 (by decide), hId,
    (hSpecifiers p.id ⟨1, 0, 0⟩ hId).1.2 (by decide)⟩

/-- A specifier whose id is another one, or none, once it is read by itself, and ids that make
another specifier, or none. -/
theorem readers_disagree :
    (∃ p, Specifier.parse "a@b-1.0.0@c" = .ok p ∧ p.id = ⟨"a@b", "c"⟩ ∧
      parse p.id.text = .ok ⟨"a", "b@c"⟩) ∧
    (∃ p, Specifier.parse "@b-1.0.0@c" = .ok p ∧ parse p.id.text = .error ⟨"@b@c"⟩) ∧
    (∃ i, parse "a@b-2.0.0@c" = .ok i ∧ i = ⟨"a", "b-2.0.0@c"⟩ ∧
      Specifier.parse (Specifier.mk i ⟨1, 0, 0⟩).text = .ok ⟨⟨"a-1.0.0@b", "c"⟩, ⟨2, 0, 0⟩⟩) ∧
    ∃ i, parse "a@b@c" = .ok i ∧
      ∀ p, Specifier.parse (Specifier.mk i ⟨1, 0, 0⟩).text ≠ .ok p := by
  refine ⟨⟨⟨⟨"a@b", "c"⟩, ⟨1, 0, 0⟩⟩, ok_of_toOption (by decide +kernel), rfl,
      ok_of_toOption (by decide +kernel)⟩,
    ⟨⟨⟨"@b", "c"⟩, ⟨1, 0, 0⟩⟩, ok_of_toOption (by decide +kernel), by decide +kernel⟩,
    ⟨_, ok_of_toOption (by decide +kernel), rfl, ok_of_toOption (by decide +kernel)⟩,
    ⟨⟨"a", "b@c"⟩, ok_of_toOption (by decide +kernel), ?_⟩⟩
  intro p hRead
  have hNone : (Specifier.parse (Specifier.mk ⟨"a", "b@c"⟩ ⟨1, 0, 0⟩).text).toOption = none := by
    decide +kernel
  simp [hRead, Except.toOption] at hNone

end PackageManager.PackageId
