import PackageManager.Proofs.Package.Parts
import PackageManager.Proofs.Url.Login

/-!
# URLs of packages

A package version is written as a URL with its label as the user and its domain as the host, so the
URL is the text of the specifier with a scheme in front. Whether it stays that way is up to the
reader of URLs, which knows more separators than specifiers have and encodes what may not stand in a
URL. Where a specifier has neither, its parts are found again as they were: hosts are opaque in this
scheme, so a domain is not folded to lower case and is no address, whatever it looks like.

## Main results

* `toUrl_eq` — the URL of a specifier of which nothing is encoded and nothing is cut.
* `toUrl_roundtrip` — a specifier of unreserved characters is found again in its URL.
-/

namespace PackageManager.Specifier

variable {p : Specifier}

theorem isScheme_urlScheme : Url.IsScheme urlScheme where
  head := ⟨'p', rfl, by decide⟩
  kept := by
    have hAll : urlScheme.toList.all fun c => Url.isSchemeChar c ∧ c.toLower = c := by decide
    exact fun c hc => of_decide_eq_true (List.all_eq_true.1 hAll c hc)

/-- The version adds to a name what may stand in a user. -/
theorem isUser_label (hName : ∀ c ∈ p.id.name.toList, Url.inUserSet c = false) :
    Url.IsUser p.label.toList where
  ne_nil := by simp [toList_label]
  kept := by
    intro c hc
    rw [toList_label, List.mem_append, List.mem_cons] at hc
    rcases hc with hc | rfl | hc
    · exact hName c hc
    · decide
    · have hUnreserved : Url.isUnreserved c := by
        rcases Version.isDigit_or_eq_of_mem_chars hc with hDigit | rfl
        · simp [Url.isUnreserved, Char.isAlphanum, hDigit]
        · decide
      exact (Url.kept_of_isUnreserved hUnreserved).1

theorem text_ofLogin (hLabel : Url.IsUser p.label.toList) :
    (Url.ofLogin urlScheme p.label.toList p.id.domain.toList).text =
      urlScheme ++ "://" ++ p.text := by
  rw [← String.toList_inj, Url.text, Url.chars_ofLogin hLabel]
  simp [toList_text]

theorem toUrl_eq (hLabel : Url.IsUser p.label.toList)
    (hDomain : Url.IsOpaqueName p.id.domain.toList) :
    p.toUrl = .ok (Url.ofLogin urlScheme p.label.toList p.id.domain.toList) := by
  unfold toUrl
  rw [mapError_eq_ok_iff, ← text_ofLogin hLabel]
  exact Url.parse_text_ofLogin isScheme_urlScheme (by decide) hLabel hDomain

/-- Of a URL only the user and the host are read. -/
theorem ofUrl_ofLogin (label domain : List Char) :
    ofUrl (Url.ofLogin urlScheme label domain) = ofParts label domain := by
  simp [ofUrl, Url.ofLogin, Url.user, Url.hostText, Url.Host.text, Url.Host.chars]

/-- A specifier of letters, digits and the other unreserved characters has a URL, which is written
as its text with the scheme in front, and it is found again in that URL as it was. -/
theorem toUrl_roundtrip (hName : p.id.name ≠ "") (hDomain : p.id.domain ≠ "")
    (hNameChars : ∀ c ∈ p.id.name.toList, Url.isUnreserved c)
    (hDomainChars : ∀ c ∈ p.id.domain.toList, Url.isUnreserved c) :
    ∃ u, p.toUrl = .ok u ∧ u.text = "pakt-pkg://" ++ p.text ∧ ofUrl u = .ok p := by
  have hLabel : Url.IsUser p.label.toList :=
    isUser_label fun c hc => (Url.kept_of_isUnreserved (hNameChars c hc)).1
  have hHost : Url.IsOpaqueName p.id.domain.toList :=
    Url.isOpaqueName_of_isUnreserved (by simpa using hDomain) hDomainChars
  refine ⟨_, toUrl_eq hLabel hHost, text_ofLogin hLabel, ?_⟩
  rw [ofUrl_ofLogin]
  exact ofParts_eq_ok_iff.2 ⟨rfl, rfl, hName, hDomain⟩

/-- A domain that looks like an address stays a name, with the point at its end, and letters keep
their case. -/
theorem toUrl_roundtrip_address :
    let p : Specifier := ⟨⟨"Lib_~2.0.0-X", "127.0.0.1."⟩, ⟨1, 0, 4294967295⟩⟩
    let q : Specifier := ⟨⟨"a", "ZURI.Dev"⟩, ⟨1, 0, 0⟩⟩
    (∃ u, p.toUrl = .ok u ∧ u.text = "pakt-pkg://Lib_~2.0.0-X-1.0.4294967295@127.0.0.1." ∧
      ofUrl u = .ok p) ∧
    ∃ u, q.toUrl = .ok u ∧ u.text = "pakt-pkg://a-1.0.0@ZURI.Dev" ∧ ofUrl u = .ok q := by
  intro p q
  obtain ⟨u, hUrl, hText, hBack⟩ := toUrl_roundtrip (p := p) (by decide) (by decide)
    (List.all_eq_true.1 (by decide)) (List.all_eq_true.1 (by decide))
  obtain ⟨v, hUrl', hText', hBack'⟩ := toUrl_roundtrip (p := q) (by decide) (by decide)
    (List.all_eq_true.1 (by decide)) (List.all_eq_true.1 (by decide))
  exact ⟨⟨u, hUrl, hText.trans (by decide +kernel), hBack⟩,
    ⟨v, hUrl', hText'.trans (by decide +kernel), hBack'⟩⟩

end PackageManager.Specifier
