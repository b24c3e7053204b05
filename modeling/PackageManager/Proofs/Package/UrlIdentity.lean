import PackageManager.Proofs.Package.Url
import PackageManager.Proofs.Url.Authority

/-!
# Which packages are found in their URLs

A specifier goes into its URL as it is, and what is read from the URL is its user and its host. What
becomes of the specifier on the way is up to the reader of URLs: it encodes what may not stand in a
user, shortens addresses, and takes ports, passwords and paths out of the text. So the URL of one
package can be that of another one. The specifiers that stay as they are can be told by their parts,
since a user and a host that have been read can be read again.

## Main results

* `authority_of_toUrl` — what the URL of a specifier has as its user and as its host.
* `ofUrl_toUrl_iff` — which specifiers are found in their URLs.
* `toUrl_confuses` — URLs that stand for other packages than those they were made for.
-/

namespace PackageManager.Specifier

variable {p : Specifier} {u : Url}

/-- Nothing in the name of a specifier is encoded in a URL or separates its parts, and the domain is
a host in the way in which hosts are written. -/
structure IsKept (p : Specifier) : Prop where
  name : ∀ c ∈ p.id.name.toList, Url.inUserSet c = false
  domain : ∃ h, Url.opaqueHost p.id.domain.toList = .ok h ∧ h.text = p.id.domain

theorem toUrl_eq_ok_iff : p.toUrl = .ok u ↔
    Url.parse (String.ofList (urlScheme.toList ++ ':' :: '/' :: '/' :: p.text.toList)) = .ok u := by
  have hText : urlScheme ++ "://" ++ p.text =
      String.ofList (urlScheme.toList ++ ':' :: '/' :: '/' :: p.text.toList) := by
    rw [← String.toList_inj]
    simp
  rw [toUrl, mapError_eq_ok_iff, hText]

/-- What is read from a URL with an authority. -/
theorem ofUrl_of_authority {a : Url.Authority} (hScheme : u.scheme = urlScheme)
    (hAuthority : u.authority = some a) : ofUrl u = ofParts a.user.toList a.host.chars := by
  simp [ofUrl, hScheme, Url.user, Url.hostText, hAuthority, Url.Host.text]

section Label

variable {host : List Char} {port? : Option (List Char)}

/-- If the label can stand in a URL, it is the user, and the host is what stands before the port. -/
theorem parse_eq_of_label (hLabel : Url.IsUser p.label.toList)
    (hDomain : Url.IsHostPort p.id.domain.toList)
    (hPort : Url.cutPort false p.id.domain.toList = (host, port?)) (hHost : host ≠ []) :
    Url.parse (String.ofList (urlScheme.toList ++ ':' :: '/' :: '/' :: p.text.toList)) =
      ((Url.opaqueHost host).bind fun h =>
        (port?.elim (.ok (none, [])) (Url.readPort urlScheme)).map fun port =>
          ({ user := p.label, host := h, port := port.1 }, port.2)).map
            (Url.ofAuthority urlScheme) := by
  have hCut : '@' ∉ p.id.domain.toList := fun hMem => (hDomain.uncut _ hMem).2.2.2 rfl
  rw [toList_text, Url.parse_login isScheme_urlScheme (by decide) hLabel hDomain,
    Url.readAuthority_login (by decide) hLabel hCut hPort hHost, String.ofList_toList]

theorem authority_of_toUrl (hLabel : Url.IsUser p.label.toList)
    (hDomain : Url.IsHostPort p.id.domain.toList)
    (hPort : Url.cutPort false p.id.domain.toList = (host, port?)) (hHost : host ≠ [])
    (hUrl : p.toUrl = .ok u) : ∃ a, u.scheme = urlScheme ∧ u.authority = some a ∧
      a.user = p.label ∧ Url.opaqueHost host = .ok a.host := by
  rw [toUrl_eq_ok_iff, parse_eq_of_label hLabel hDomain hPort hHost] at hUrl
  obtain ⟨a, hRead, rfl⟩ := ok_of_map hUrl
  obtain ⟨h, hHost, hRead⟩ := ok_of_bind hRead
  obtain ⟨port, -, rfl⟩ := ok_of_map hRead
  exact ⟨_, rfl, rfl, rfl, hHost⟩

end Label

/-- What stands before the first colon of a domain that is no address is its host. -/
theorem cutPort_domain {host port : List Char} (hColon : ':' ∉ host) (hOpen : '[' ∉ host) :
    Url.cutPort false (host ++ ':' :: port) = (host, some port) := by
  induction host with
  | nil => rfl
  | cons c cs ih =>
      rw [List.mem_cons, not_or] at hColon hOpen
      simp [Url.cutPort, Ne.symm hColon.1, Ne.symm hOpen.1, ih hColon.2 hOpen.2]

/-- A specifier that is found in its URL is kept, since what has been read there is. -/
theorem isKept_of_ofUrl (hUrl : p.toUrl = .ok u) (hBack : ofUrl u = .ok p) : p.IsKept := by
  obtain ⟨hScheme, a, hAuthority, hUser, cs, hHost⟩ :=
    Url.exists_authority isScheme_urlScheme (by decide) (toUrl_eq_ok_iff.1 hUrl)
  rw [ofUrl_of_authority hScheme hAuthority] at hBack
  obtain ⟨hLabel, hDomain, -, hSome⟩ := ofParts_eq_ok_iff.1 hBack
  have hName : ∀ c ∈ p.id.name.toList, Url.inUserSet c = false := fun c hc => by
    refine hUser c ?_
    rw [hLabel, toList_label]
    exact List.mem_append_left _ hc
  have hChars : a.host.chars ≠ [] := by simpa [hDomain] using hSome
  have hHostPort := Url.isHostPort_chars hHost hChars
  have hPort := Url.cutPort_chars hHost hChars
  rw [hDomain] at hHostPort hPort hChars
  obtain ⟨b, -, hAuthority', -, hRead⟩ :=
    authority_of_toUrl (isUser_label hName) hHostPort hPort hChars hUrl
  obtain rfl : a = b := Option.some.inj (hAuthority.symm.trans hAuthority')
  exact ⟨hName, a.host, hRead, by rw [Url.Host.text, hDomain, String.ofList_toList]⟩

theorem exists_ofUrl_of_isKept (hKept : p.IsKept) (hName : p.id.name ≠ "")
    (hSome : p.id.domain ≠ "") : ∃ u, p.toUrl = .ok u ∧ ofUrl u = .ok p := by
  obtain ⟨h, hHost, hText⟩ := hKept.domain
  have hDomain : h.chars = p.id.domain.toList := by
    rw [← hText, Url.Host.text, String.toList_ofList]
  have hChars : h.chars ≠ [] := by simpa [hDomain] using hSome
  have hHostPort := Url.isHostPort_chars hHost hChars
  have hPort := Url.cutPort_chars hHost hChars
  rw [hDomain] at hHostPort hPort hChars
  have hParse := parse_eq_of_label (isUser_label hKept.name) hHostPort hPort hChars
  rw [hHost] at hParse
  refine ⟨_, toUrl_eq_ok_iff.2 hParse, ?_⟩
  rw [ofUrl_of_authority rfl rfl, hDomain]
  exact ofParts_eq_ok_iff.2 ⟨rfl, rfl, hName, hSome⟩

/-- A port goes into the URL and is not found there. -/
theorem ofUrl_of_port {host port : String} (hName : p.id.name ≠ "")
    (hLabel : Url.IsUser p.label.toList) (hDomain : p.id.domain = host ++ ":" ++ port)
    (hHost : Url.IsOpaqueName host.toList) (hPort : ∀ c ∈ port.toList, c.isDigit)
    (hUrl : p.toUrl = .ok u) : ofUrl u = .ok ⟨⟨p.id.name, host⟩, p.version⟩ := by
  have hList : p.id.domain.toList = host.toList ++ ':' :: port.toList := by simp [hDomain]
  have hHostPort : Url.IsHostPort p.id.domain.toList := by
    refine ⟨by simp [hList], fun c hc => ?_, fun c hc => ?_⟩ <;>
      rw [hList, List.mem_append, List.mem_cons] at hc
    · rcases hc with hc | rfl | hc
      · exact hHost.visible hc
      · decide
      · have hDigit := Text.toNat_of_isDigit (hPort c hc)
        omega
    · rcases hc with hc | rfl | hc
      · exact hHost.isHostPort.uncut c hc
      · decide
      · refine ⟨?_, ?_, ?_, ?_⟩ <;> rintro rfl <;> exact absurd (hPort _ hc) (by decide)
  have hCut : Url.cutPort false p.id.domain.toList = (host.toList, some port.toList) := by
    rw [hList]
    exact cutPort_domain (hHost.not_mem (by decide)) (hHost.not_mem (by decide))
  obtain ⟨a, hScheme, hAuthority, hUser, hRead⟩ :=
    authority_of_toUrl hLabel hHostPort hCut hHost.ne_nil hUrl
  rw [Url.opaqueHost_eq hHost, String.ofList_toList] at hRead
  rw [ofUrl_of_authority hScheme hAuthority, hUser, ← Except.ok.inj hRead]
  exact ofParts_eq_ok_iff.2 ⟨rfl, rfl, hName, by simpa using hHost.ne_nil⟩

/-- Of the specifiers that can be read from a text, exactly those are found in their URLs of which
the name needs no encoding and has no separator, and of which the domain is a host as hosts are
written. In particular no domain with a port is found: the URL of such a specifier stands for the
package of that name in the domain without the port. -/
theorem ofUrl_toUrl_iff {s : String} (hRead : parse s = .ok p) :
    ((∃ u, p.toUrl = .ok u ∧ ofUrl u = .ok p) ↔ p.IsKept) ∧
    ∀ u, p.toUrl = .ok u → (∀ c ∈ p.id.name.toList, Url.inUserSet c = false) →
      ∀ host port : String, p.id.domain = host ++ ":" ++ port → Url.IsOpaqueName host.toList →
        (∀ c ∈ port.toList, c.isDigit) → ofUrl u = .ok ⟨⟨p.id.name, host⟩, p.version⟩ := by
  obtain ⟨-, hName, hSome, -⟩ := parse_eq_ok_iff.1 hRead
  refine ⟨⟨?_, fun hKept => exists_ofUrl_of_isKept hKept hName hSome⟩, ?_⟩
  · rintro ⟨u, hUrl, hBack⟩
    exact isKept_of_ofUrl hUrl hBack
  · intro u hUrl hKept host port hDomain hHost hPort
    exact ofUrl_of_port hName (isUser_label hKept) hDomain hHost hPort hUrl

/-- An address between brackets is found as long as it cannot be written with fewer signs, and a
port is not found. -/
theorem ofUrl_toUrl_iff_address :
    let p : Specifier := ⟨⟨"my-lib", "[2001:db8::1]"⟩, ⟨1, 0, 0⟩⟩
    let q : Specifier := ⟨⟨"my-lib", "localhost:8080"⟩, ⟨1, 0, 0⟩⟩
    (∃ u, p.toUrl = .ok u ∧ ofUrl u = .ok p) ∧
      ∃ u, q.toUrl = .ok u ∧ ofUrl u = .ok ⟨⟨"my-lib", "localhost"⟩, ⟨1, 0, 0⟩⟩ := by
  intro p q
  have hName : ∀ c ∈ "my-lib".toList, Url.inUserSet c = false := fun c hc =>
    (Url.kept_of_isUnreserved (List.all_eq_true.1 (by decide) c hc)).1
  have hHost : Url.opaqueHost p.id.domain.toList = .ok (.ipv6 [0x2001, 0xdb8, 0, 0, 0, 0, 0, 1]) :=
    ok_of_toOption (by decide +kernel)
  obtain ⟨hFound, -⟩ := ofUrl_toUrl_iff (p := p) (s := "my-lib-1.0.0@[2001:db8::1]")
    (ok_of_toOption (by decide +kernel))
  obtain ⟨-, hPort⟩ := ofUrl_toUrl_iff (p := q) (s := "my-lib-1.0.0@localhost:8080")
    (ok_of_toOption (by decide +kernel))
  have hUrl : q.toUrl = .ok { Url.ofLogin urlScheme q.label.toList "localhost".toList with
      authority := some { user := q.label, host := .name "localhost", port := some 8080 } } :=
    ok_of_toOption (by decide +kernel)
  exact ⟨hFound.2 ⟨hName, _, hHost, by decide +kernel⟩, _, hUrl,
    hPort _ hUrl hName "localhost" "8080" (by decide)
      (Url.isOpaqueName_of_isUnreserved (by decide) (List.all_eq_true.1 (by decide)))
      (List.all_eq_true.1 (by decide))⟩

/-- A port is lost, what is encoded stays encoded, and the name of a package can hold the whole text
of another one, which is then found instead. -/
theorem toUrl_confuses :
    (∃ p u, parse "a-1.0.0@localhost:8080" = .ok p ∧ p.toUrl = .ok u ∧
      p.id = ⟨"a", "localhost:8080"⟩ ∧ ofUrl u = .ok ⟨⟨"a", "localhost"⟩, ⟨1, 0, 0⟩⟩) ∧
    (∃ p u, parse "a b-1.0.0@x" = .ok p ∧ p.toUrl = .ok u ∧
      p.id = ⟨"a b", "x"⟩ ∧ ofUrl u = .ok ⟨⟨"a%20b", "x"⟩, ⟨1, 0, 0⟩⟩) ∧
    ∃ p u, parse "a-2.0.0@y/b-1.0.0@x" = .ok p ∧ p.toUrl = .ok u ∧
      p.id = ⟨"a-2.0.0@y/b", "x"⟩ ∧ ofUrl u = .ok ⟨⟨"a", "y"⟩, ⟨2, 0, 0⟩⟩ := by
  refine ⟨⟨⟨⟨"a", "localhost:8080"⟩, ⟨1, 0, 0⟩⟩,
      ⟨urlScheme, some { user := "a-1.0.0", host := .name "localhost", port := some 8080 },
        .segments [], none, none⟩, ?_⟩,
    ⟨⟨⟨"a b", "x"⟩, ⟨1, 0, 0⟩⟩,
      ⟨urlScheme, some { user := "a%20b-1.0.0", host := .name "x" }, .segments [], none, none⟩, ?_⟩,
    ⟨⟨⟨"a-2.0.0@y/b", "x"⟩, ⟨1, 0, 0⟩⟩,
      ⟨urlScheme, some { user := "a-2.0.0", host := .name "y" }, .segments ["b-1.0.0@x"], none,
        none⟩, ?_⟩⟩
  all_goals exact ⟨ok_of_toOption (by decide +kernel), ok_of_toOption (by decide +kernel), rfl,
    ok_of_toOption (by decide +kernel)⟩

end PackageManager.Specifier
